import OmniDoer.Library.Lock
import OmniDoer.Library.PyText
import Mathlib.Data.Rat.Defs

/-! # State files

The model of `omni_control/state_io.py`. Several processes share the files. Each process
has its own lock for each path: `locked_state_file` excludes the threads of one process
only. A load and an atomic write are one operation each. -/

namespace OmniDoer.StateIo

open Py Effects

/-- The clock and the hexadecimal texts of `uuid4`. The `n`-th answer of a source is its
value at `n`. -/
structure Env where
  clock : ℕ → ℚ
  ids : ℕ → String

/-- The files of type `σ`, which lock of which process `π` is taken, and how many times
each source was asked. -/
structure World (π σ : Type) where
  files : String → Option σ
  locked : π × String → Bool
  tick : ℕ
  issued : ℕ

inductive FileOp (π σ : Type) where
  | acquire (process : π) (path : String)
  | release (process : π) (path : String)
  | load (path : String)
  | write (path : String) (content : σ)
  | time
  | uuid

variable {π σ τ : Type}

@[reducible] def FileOp.Ans : FileOp π σ → Type
  | .acquire .. | .release .. | .write .. => Unit
  | .load _ => Option σ
  | .time => ℚ
  | .uuid => String

def exec [DecidableEq π] (env : Env) : (o : FileOp π σ) → World π σ → o.Ans × World π σ
  | .acquire process path, w =>
    ((), { w with locked := Function.update w.locked (process, path) true })
  | .release process path, w =>
    ((), { w with locked := Function.update w.locked (process, path) false })
  | .load path, w => (w.files path, w)
  | .write path content, w => ((), { w with files := Function.update w.files path (some content) })
  | .time, w => (env.clock w.tick, { w with tick := w.tick + 1 })
  | .uuid, w => (env.ids w.issued, { w with issued := w.issued + 1 })

abbrev FileProg (π σ α : Type) := Prog (FileOp π σ) FileOp.Ans Error α

def time : FileProg π σ ℚ := .op .time .pure

def uuid : FileProg π σ String := .op .uuid .pure

/-- `with locked_state_file(path)`. -/
def lockedStateFile {α : Type} (process : π) (path : String) (body : FileProg π σ α) :
    FileProg π σ α :=
  Prog.between (.acquire process path) (.release process path) body

/-- The path of a store and its JSON texts: a written content is read back as it was. -/
structure StateFile (σ τ : Type) where
  path : String
  encode : τ → σ
  decode : σ → Except Error τ
  decode_encode : ∀ content, decode (encode content) = .ok content

/-- The content of the file, if there is one. -/
def StateFile.read (file : StateFile σ τ) : Option σ → Except Error (Option τ)
  | none => .ok none
  | some text => (file.decode text).map some

@[simp] theorem StateFile.read_encode (file : StateFile σ τ) (content : τ) :
    file.read (some (file.encode content)) = .ok (some content) := by
  rw [StateFile.read, file.decode_encode]
  rfl

def loading (file : StateFile σ τ) : FileProg π σ (Option τ) :=
  .op (.load file.path) fun text => .ofExcept (file.read text)

def atomicWriteJson (file : StateFile σ τ) (content : τ) : FileProg π σ Unit :=
  .op (.write file.path (file.encode content)) .pure

/-- Which locks the operations take and release. -/
def locking : Locking (FileOp π σ) (World π σ) (π × String) where
  action
    | .acquire process path => .acquire (process, path)
    | .release process path => .release (process, path)
    | _ => .none
  locked := World.locked

end OmniDoer.StateIo
