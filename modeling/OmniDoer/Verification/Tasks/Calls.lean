import OmniDoer.Model.Tasks
import OmniDoer.Verification.StateIo.Queue

/-! # The task queue

What the calls of the task store may write: a new task, or a task that no longer waits. -/

namespace OmniDoer.Tasks

open Py Effects Tables Queues StateIo

variable {π σ : Type}

/-- The file as the store sees it: without a file there are no tasks. -/
def taskFile (file : StateFile σ TaskTable) : Shared σ TaskTable := viewed file (·.getD .empty)

/-- A pending task waits. -/
def taskQueue : Queue TaskTable String where
  present tasks := {id | (tasks.lookup id).isSome = true}
  waiting tasks := {id | ∃ task, tasks.lookup id = some task ∧ task.status = .pending}
  waiting_subset := by
    rintro tasks id ⟨task, htask, -⟩
    exact Option.isSome_iff_exists.2 ⟨task, htask⟩

def taskName (id : String) : String := "task_" ++ id

/-- The two changes of the store. -/
inductive TaskChange (m : Memory π TaskTable) (before : TaskTable) : TaskTable → Prop
  | created (task : UserTask) (id : String) (hid : id ∈ m.issued)
    (hname : task.taskId = taskName id) :
      TaskChange m before (before.insert task).sorted
  | moved (task : UserTask) (hstored : (before.lookup task.taskId).isSome = true)
      (hstatus : task.status ≠ .pending) : TaskChange m before (before.insert task).sorted

theorem taskName_injective : Function.Injective taskName :=
  fun _ _ h => (String.append_right_inj "task_").1 h

theorem lookup_saved (before : TaskTable) (task : UserTask) (id : String) :
    (before.insert task).sorted.lookup id =
      if id = task.taskId then some task else before.lookup id := by
  rw [Table.lookup_sorted, Table.lookup_insert]

theorem taskRules : QueueRules (π := π) taskQueue taskName TaskChange where
  name_injective := taskName_injective
  replaces := by
    intro m before after hchange
    cases hchange with
    | created task id hid hname =>
      have hgiven : task.taskId ∈ m.issued.map taskName := List.mem_map.2 ⟨id, hid, hname.symm⟩
      constructor
      · intro k hk
        change ((before.insert task).sorted.lookup k).isSome = true at hk
        rw [lookup_saved] at hk
        split at hk
        · rename_i he
          exact .inr (he ▸ hgiven)
        · exact .inl hk
      · rintro k ⟨found, hfound, hstatus⟩
        rw [lookup_saved] at hfound
        split at hfound
        · rename_i he
          exact .inr (he ▸ hgiven)
        · exact .inl ⟨found, hfound, hstatus⟩
    | moved task hstored hstatus =>
      constructor
      · intro k hk
        change ((before.insert task).sorted.lookup k).isSome = true at hk
        rw [lookup_saved] at hk
        split at hk
        · rename_i he
          exact .inl (he ▸ hstored)
        · exact .inl hk
      · rintro k ⟨found, hfound, hpending⟩
        rw [lookup_saved] at hfound
        split at hfound
        · cases hfound
          exact (hstatus hpending).elim
        · exact .inl ⟨found, hfound, hpending⟩

theorem taskChange_retains (m : Memory π TaskTable) (before after : TaskTable)
    (h : TaskChange m before after) : taskQueue.present before ⊆ taskQueue.present after := by
  have hinsert (task : UserTask) :
      taskQueue.present before ⊆ taskQueue.present (before.insert task).sorted := by
    intro k hk
    change ((before.insert task).sorted.lookup k).isSome = true
    rw [lookup_saved]
    split
    · rfl
    · exact hk
  cases h with
  | created task | moved task => exact hinsert task

/-- What a call that returns has written. -/
def TaskSaved (m : Memory π TaskTable) : Except Error TaskAnswer → Prop
  | .ok (.created task) =>
    ∃ before after, m.wrote = some (before, after) ∧ task.taskId ∈ taskQueue.present after
  | .ok (.claimed task) =>
    ∃ before after, m.wrote = some (before, after) ∧ task.taskId ∈ taskQueue.waiting before ∧
      task.taskId ∉ taskQueue.waiting after
  | _ => True

theorem takes_of_saved {m : Memory π TaskTable} {task : UserTask}
    (h : TaskSaved m (.ok (.claimed task))) :
    (⟨m.issued.map taskName,
      m.wrote⟩ : Queues.Entry TaskTable String).Takes taskQueue task.taskId :=
  h

section Calls

variable {process : π} {file : StateFile σ TaskTable} {α : Type} {m : Memory π TaskTable}
variable {post : Memory π TaskTable → Except Error α → Prop}

theorem load_meets {k : TaskTable → FileProg π σ α}
    (hok : ∀ tasks, (k tasks).Meets (updating (taskFile file) process TaskChange) post
      { m with seen := some tasks })
    (herror : ∀ e, post { m with seen := none } (.error e)) :
    (TaskStore.load file >>= k).Meets (updating (taskFile file) process TaskChange) post m := by
  rw [TaskStore.load, Prog.bind_assoc]
  exact loading_bind hok herror

theorem save_meets {tasks : TaskTable} {task : UserTask} {k : Unit → FileProg π σ α}
    (hheld : m.held = some process) (hwrote : m.wrote = none) (hseen : m.seen = some tasks)
    (hchange : TaskChange m tasks (tasks.insert task).sorted)
    (h : (k ()).Meets (updating (taskFile file) process TaskChange) post
      { m with seen := none, wrote := some (tasks, (tasks.insert task).sorted) }) :
    (TaskStore.save file (tasks.insert task) >>= k).Meets
    (updating (taskFile file) process TaskChange)
      post m :=
  writing_bind hheld hwrote hseen hchange h

theorem create_meets (text source : String) (process : π) (file : StateFile σ TaskTable) :
    (TaskStore.create process file text source).Meets (updating (taskFile file) process TaskChange)
      (fun m r => TaskSaved m (r.map .created)) .start := by
  unfold TaskStore.create
  generalize strip text = cleaned
  dsimp only
  split
  · exact True.intro
  split
  · exact True.intro
  refine lockedStateFile_meets rfl rfl ?_
  refine time_bind fun now => uuid_bind fun id => load_meets (fun tasks => ?_) fun _ =>
    ⟨rfl, trivial⟩
  refine save_meets rfl rfl rfl (.created _ id (by simp) rfl) ?_
  refine ⟨rfl, tasks, _, rfl, ?_⟩
  change (Table.lookup _ _).isSome = true
  rw [lookup_saved, if_pos rfl]
  rfl

theorem lookup_of_byCreation {tasks : TaskTable} {task : UserTask} {rest : List UserTask}
    (h : TaskStore.byCreation (tasks.rows.filter fun task => task.status = .pending) =
      task :: rest) :
    tasks.lookup task.taskId = some task ∧ task.status = .pending := by
  have hmem : task ∈ TaskStore.byCreation
      (tasks.rows.filter fun task => task.status = .pending) := by
    rw [h]
    exact List.mem_cons_self
  rw [TaskStore.byCreation, List.mem_insertionSort, List.mem_filter] at hmem
  exact ⟨Table.lookup_eq_some_iff.2 ⟨hmem.1, rfl⟩, of_decide_eq_true hmem.2⟩

/-- What `next_pending` returns as claimed. -/
def claimedAnswer (claim : Bool) : Option UserTask → TaskAnswer
  | some task => if claim then .claimed task else .shown (some task)
  | none => .shown none

theorem nextPending_meets (claim : Bool) :
    (TaskStore.nextPending process file claim).Meets (updating (taskFile file) process TaskChange)
      (fun m r => TaskSaved m (r.map (claimedAnswer claim))) .start := by
  refine lockedStateFile_meets rfl rfl ?_
  refine load_meets (fun tasks => ?_) fun _ => ⟨rfl, trivial⟩
  split
  · exact ⟨rfl, trivial⟩
  · rename_i task rest hpending
    obtain ⟨hstored, hstatus⟩ := lookup_of_byCreation hpending
    cases claim with
    | false => exact ⟨rfl, trivial⟩
    | true =>
      refine time_bind fun now => save_meets rfl rfl rfl (.moved _ ?_ nofun) ?_
      · exact Option.isSome_iff_exists.2 ⟨task, hstored⟩
      · refine ⟨rfl, tasks, _, rfl, ⟨task, hstored, hstatus⟩, ?_⟩
        rintro ⟨found, hfound, hwaiting⟩
        rw [lookup_saved, if_pos rfl] at hfound
        cases hfound
        cases hwaiting

/-- `complete` and `cancel`: a task of the file is given a status in which it does not
wait, unless its status forbids it. -/
theorem settle_meets {taskId : String} {forbidden : TaskStatus} {error : Error}
    {settled : UserTask → ℚ → UserTask} (hid : ∀ task now, (settled task now).taskId = task.taskId)
    (hstatus : ∀ task now, (settled task now).status ≠ .pending) :
    (lockedStateFile process file.path do
      let tasks ← TaskStore.load file
      match tasks.lookup taskId with
      | none => .raise ⟨.keyError, taskId⟩
      | some task =>
        if task.status = forbidden then .raise error
        else do
          let now ← time
          TaskStore.save file (tasks.insert (settled task now))
          return settled task now).Meets (updating (taskFile file) process TaskChange)
      (fun _ _ => True) .start := by
  refine lockedStateFile_meets rfl rfl ?_
  refine load_meets (fun tasks => ?_) fun _ => ⟨rfl, trivial⟩
  split
  · exact ⟨rfl, trivial⟩
  · rename_i task hstored
    split
    · exact ⟨rfl, trivial⟩
    · refine time_bind fun now =>
        save_meets rfl rfl rfl (.moved _ ?_ (hstatus task now)) ⟨rfl, trivial⟩
      rw [hid, Table.key_of_lookup hstored, hstored]
      rfl

theorem TaskCall.meets (process : π) (file : StateFile σ TaskTable) (call : TaskCall) :
    (call.prog process file).Meets
      (updating (taskFile file) process TaskChange) TaskSaved .start := by
  cases call with
  | list | get =>
    refine Prog.Meets.map (load_meets (fun tasks => ?_) fun _ => trivial)
    split <;> trivial
  | create text source =>
    have h := create_meets text source process file
    rw [TaskCall.prog]
    exact h.map
  | nextPending claim => exact (nextPending_meets claim).map
  | complete | cancel =>
    refine Prog.Meets.map (Prog.Meets.mono (settle_meets ?_ ?_) ?_)
    · exact fun _ _ => rfl
    · exact fun _ _ => nofun
    · rintro m (e | task) - <;> trivial

end Calls

end OmniDoer.Tasks
