import Mathlib.Data.String.Basic
import OmniDoer.Library.Table
import OmniDoer.Model.StateIo

/-! # Tasks

The model of `omni_control/tasks.py`: the queue of tasks that a paired device sets and the
agent claims. -/

namespace OmniDoer.Tasks

open Py Effects Tables StateIo

inductive TaskStatus where
  | pending
  | claimed
  | completed
  | cancelled
  deriving DecidableEq, Repr

structure UserTask where
  taskId : String
  text : String
  source : String := "control_client"
  status : TaskStatus := .pending
  createdAt : ℚ := 0
  updatedAt : ℚ := 0
  claimedAt : Option ℚ := none
  completedAt : Option ℚ := none
  deriving DecidableEq, Repr

abbrev TaskTable := Table UserTask.taskId

namespace TaskStore

variable {π σ : Type}

/-- `_load`; there may be no file. -/
def load (file : StateFile σ TaskTable) : FileProg π σ TaskTable := do
  let tasks ← loading file
  return tasks.getD .empty

/-- `_save`: the rows in the order of their keys. -/
def save (file : StateFile σ TaskTable) (tasks : TaskTable) : FileProg π σ Unit :=
  atomicWriteJson file tasks.sorted

/-- `sorted(..., key=lambda task: task.created_at)`. -/
def byCreation (tasks : List UserTask) : List UserTask :=
  tasks.insertionSort fun a b => a.createdAt ≤ b.createdAt

def list (file : StateFile σ TaskTable) (includeCompleted : Bool := false) :
    FileProg π σ (List UserTask) := do
  let tasks := byCreation (← load file).rows
  if includeCompleted then return tasks
  else return tasks.filter fun task => task.status = .pending || task.status = .claimed

def get (file : StateFile σ TaskTable) (taskId : String) : FileProg π σ UserTask := do
  match (← load file).lookup taskId with
  | some task => return task
  | none => .raise ⟨.keyError, "task not found: " ++ taskId⟩

def create (process : π) (file : StateFile σ TaskTable) (text : String)
    (source : String := "control_client") : FileProg π σ UserTask :=
  let cleaned := strip text
  if cleaned = "" then .raise ⟨.valueError, "task text is required"⟩
  else if 4000 < cleaned.length then .raise ⟨.valueError, "task text is too long"⟩
  else lockedStateFile process file.path do
    let now ← time
    let id ← uuid
    let task : UserTask :=
      { taskId := "task_" ++ id, text := cleaned, source, createdAt := now, updatedAt := now }
    let tasks ← load file
    save file (tasks.insert task)
    return task

def nextPending (process : π) (file : StateFile σ TaskTable) (claim : Bool := true) :
    FileProg π σ (Option UserTask) :=
  lockedStateFile process file.path do
    let tasks ← load file
    match byCreation (tasks.rows.filter fun task => task.status = .pending) with
    | [] => return none
    | task :: _ =>
      if claim then
        let now ← time
        let task := { task with status := .claimed, claimedAt := some now, updatedAt := now }
        save file (tasks.insert task)
        return some task
      else return some task

def complete (process : π) (file : StateFile σ TaskTable) (taskId : String) :
    FileProg π σ UserTask :=
  lockedStateFile process file.path do
    let tasks ← load file
    match tasks.lookup taskId with
    | none => .raise ⟨.keyError, taskId⟩
    | some task =>
      if task.status = .cancelled then .raise ⟨.valueError, "task is cancelled"⟩
      else do
        let now ← time
        let task := { task with status := .completed, completedAt := some now, updatedAt := now }
        save file (tasks.insert task)
        return task

def cancel (process : π) (file : StateFile σ TaskTable) (taskId : String) : FileProg π σ UserTask :=
  lockedStateFile process file.path do
    let tasks ← load file
    match tasks.lookup taskId with
    | none => .raise ⟨.keyError, taskId⟩
    | some task =>
      if task.status = .completed then .raise ⟨.valueError, "task is completed"⟩
      else do
        let now ← time
        let task := { task with status := .cancelled, updatedAt := now }
        save file (tasks.insert task)
        return task

end TaskStore

inductive TaskCall where
  | list (includeCompleted : Bool)
  | get (taskId : String)
  | create (text source : String)
  | nextPending (claim : Bool)
  | complete (taskId : String)
  | cancel (taskId : String)

/-- A call's result. What `next_pending` claims is told from what it only shows. -/
inductive TaskAnswer where
  | listed (tasks : List UserTask)
  | got (task : UserTask)
  | created (task : UserTask)
  | claimed (task : UserTask)
  | shown (task : Option UserTask)
  | completed (task : UserTask)
  | cancelled (task : UserTask)
  deriving DecidableEq, Repr

variable {π σ : Type}

def TaskCall.prog (process : π) (file : StateFile σ TaskTable) : TaskCall → FileProg π σ TaskAnswer
  | .list includeCompleted => .listed <$> TaskStore.list file includeCompleted
  | .get taskId => .got <$> TaskStore.get file taskId
  | .create text source => .created <$> TaskStore.create process file text source
  | .nextPending claim =>
    (fun
      | some task => if claim then .claimed task else .shown (some task)
      | none => .shown none) <$> TaskStore.nextPending process file claim
  | .complete taskId => .completed <$> TaskStore.complete process file taskId
  | .cancel taskId => .cancelled <$> TaskStore.cancel process file taskId

end OmniDoer.Tasks
