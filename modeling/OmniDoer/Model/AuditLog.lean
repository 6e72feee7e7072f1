import OmniDoer.Library.Program
import OmniDoer.Library.PyHash
import OmniDoer.Library.PyJsonRead
import OmniDoer.Model.Redactor

/-! # The audit log

The model of `omni_audit/audit.py`. Every access to the file is an operation of its own.
The file is kept as its lines, since `json.dumps` escapes all line breaks. -/

namespace OmniDoer.Audit

open Py Effects Redactor

def genesis : String := String.ofList (List.replicate 64 '0')

inductive AuditOp where
  | pathExists
  | readLines
  | time
  | appendLine (line : String)

def AuditOp.Ans : AuditOp → Type
  | .pathExists => Bool
  | .readLines => List String
  | .time => ℚ
  | .appendLine _ => Unit

/-- `lines` is missing before the first append; `tick` counts the readings of the clock. -/
structure World where
  lines : Option (List String)
  tick : ℕ

def World.empty : World := ⟨none, 0⟩

/-- What a reader finds in the file. -/
def World.content (w : World) : List String := w.lines.getD []

def exec (clock : ℕ → ℚ) : (o : AuditOp) → World → o.Ans × World
  | .pathExists, w => (w.lines.isSome, w)
  | .readLines, w => (w.content, w)
  | .time, w => (clock w.tick, { w with tick := w.tick + 1 })
  | .appendLine line, w => ((), { w with lines := some (w.content ++ [line]) })

abbrev AuditProg := Prog AuditOp AuditOp.Ans Error

namespace AuditProg

def pathExists : AuditProg Bool := .op .pathExists .pure

def readLines : AuditProg (List String) := .op .readLines .pure

def time : AuditProg ℚ := .op .time .pure

def appendLine (line : String) : AuditProg Unit := .op (.appendLine line) .pure

end AuditProg

def parseLine (line : String) : Except Error Json :=
  match Json.loads line with
  | some event => .ok event
  | none => .error ⟨.other "JSONDecodeError", "Expecting value"⟩

def parseLines (lines : List String) : Except Error (List Json) :=
  (lines.filter fun line => strip line != "").mapM parseLine

/-- `events[-1]["event_hash"]`. -/
def lastEventHash (events : List Json) : Except Error Json :=
  match events.getLast? with
  | some (.obj event) =>
    match Dict.get? event "event_hash" with
    | some hash => .ok hash
    | none => .error ⟨.keyError, "'event_hash'"⟩
  | some _ => .error ⟨.typeError, "indices must be integers"⟩
  | none => .error ⟨.other "IndexError", "list index out of range"⟩

/-- The dictionary of an event before redaction; `fields` may override the first three keys. -/
def newEvent (timestamp : ℚ) (eventType : String) (previousHash : Json) (fields : Dict) : Dict :=
  fields.foldl (fun event m => Dict.set event m.1 m.2)
    [("timestamp", .float (.fin timestamp)), ("event_type", .str eventType),
      ("previous_hash", previousHash)]

/-- `redact_dom_snapshot` of a dictionary. -/
def redactDict (py : Interpreter) (event : Dict) : Dict :=
  redactMembers py (fieldIsSensitive py event) event

/-- The digest of the compact text. -/
def bodyHash (py : Interpreter) (sha256 : ByteArray → ByteArray) (body : Dict) : String :=
  hexDigest sha256 ((Json.obj body).dumps py true)

def withHash (py : Interpreter) (sha256 : ByteArray → ByteArray) (event : Dict) : Dict :=
  Dict.set event "event_hash" (.str (bodyHash py sha256 event))

/-- The chain check over the events from a given place on. -/
def verifyFrom (py : Interpreter) (sha256 : ByteArray → ByteArray) (previous : String) :
    List Json → Except Error Bool
  | [] => .ok true
  | .obj event :: rest =>
    let body := Dict.pop event "event_hash"
    if !Json.eqStr (Dict.get? body "previous_hash") previous then .ok false
    else if !Json.eqStr (Dict.get? event "event_hash") (bodyHash py sha256 body) then .ok false
    else verifyFrom py sha256 (bodyHash py sha256 body) rest
  | _ :: _ => .error ⟨.attributeError, "object has no attribute 'get'"⟩

namespace AuditLog

open AuditProg

def events : AuditProg (List Json) := do
  if ← pathExists then
    Prog.ofExcept (parseLines (← readLines))
  else
    pure []

/-- The file is read once to see whether it has events and once more for the last one. -/
def previousHash : AuditProg Json := do
  if ← pathExists then
    if (← events).isEmpty then
      pure (.str genesis)
    else
      Prog.ofExcept (lastEventHash (← events))
  else
    pure (.str genesis)

def append (py : Interpreter) (sha256 : ByteArray → ByteArray) (eventType : String)
    (fields : Dict) : AuditProg Dict := do
  let previous ← previousHash
  let timestamp ← time
  let event := withHash py sha256 (redactDict py (newEvent timestamp eventType previous fields))
  appendLine ((Json.obj event).dumpsSpaced py)
  pure event

def verify (py : Interpreter) (sha256 : ByteArray → ByteArray) : AuditProg Bool := do
  Prog.ofExcept (verifyFrom py sha256 genesis (← events))

end AuditLog

end OmniDoer.Audit
