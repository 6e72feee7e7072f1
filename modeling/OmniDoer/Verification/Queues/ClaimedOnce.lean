import OmniDoer.Verification.Chat.Pruning
import OmniDoer.Verification.Tasks.Calls

/-! # Claims across processes

The control service and the agent's sidecar run the task store and the chat store on the
same files, each under the locks of its own process. As long as no process writes a file
between another's load and write, no task is lost and nothing is claimed twice. -/

namespace OmniDoer.Chat

open Tables Queues StateIo

variable {π : Type}

section

variable {call : ChatCall} {issued : List String} {times : List ℚ} {before after : Payload}
  {message : Option ChatMessage} (h : Writes call issued times before after message)
include h

theorem Writes.lookup {id : String}
    {found : ChatMessage} (hfound : after.messages.lookup id = some found) :
    (∀ put ∈ message, id ≠ put.messageId) ∧ before.messages.lookup id = some found ∨
      message = some found ∧ id = found.messageId ∧ Puts issued before found call.adds := by
  cases h with
  | @put _ message record next t₀ t₁ now _ hputs _ _ _ _ =>
    have hlookup := lookup_of_saved hfound
    rw [Table.lookup_insert] at hlookup
    split at hlookup
    · rename_i hid
      cases hlookup
      exact .inr ⟨rfl, hid, hputs⟩
    · rename_i hid
      refine .inl ⟨?_, hlookup⟩
      rintro put ⟨⟩
      exact hid
  | @note _ record t now _ _ =>
    have hlookup := lookup_of_saved hfound
    exact .inl ⟨fun _ h => (by cases h), hlookup⟩
  | @prune _ now _ =>
    have hlookup := lookup_of_saved hfound
    exact .inl ⟨fun _ h => (by cases h), hlookup⟩

theorem Writes.replaces : Replaces chatQueue (issued.map messageName) before after := by
  constructor
  · intro id hid
    obtain ⟨found, hfound⟩ := Option.isSome_iff_exists.1 hid
    rcases h.lookup hfound with ⟨-, hbefore⟩ | ⟨-, rfl, hputs⟩
    · exact .inl (Option.isSome_iff_exists.2 ⟨found, hbefore⟩)
    · generalize call.adds = adds at hputs
      cases hputs with
      | new u hu hname _ => exact .inr (List.mem_map.2 ⟨u, hu, hname.symm⟩)
      | old old hold _ _ => exact .inl (Option.isSome_iff_exists.2 ⟨old, hold⟩)
  · rintro id ⟨found, hfound, hqueued⟩
    rcases h.lookup hfound with ⟨-, hbefore⟩ | ⟨-, rfl, hputs⟩
    · exact .inl ⟨found, hbefore, hqueued⟩
    · generalize call.adds = adds at hputs
      cases hputs with
      | new u hu hname _ => exact .inr (List.mem_map.2 ⟨u, hu, hname.symm⟩)
      | old old _ _ hstatus => exact (hstatus hqueued).elim

end

theorem chatRules : QueueRules (π := π) chatQueue messageName ChatChange where
  name_injective := fun _ _ h => (String.append_right_inj "msg_").1 h
  replaces := fun _ _ _ ⟨_, _, hwrites⟩ => hwrites.replaces

end OmniDoer.Chat

namespace OmniDoer.Claims

open Py Effects Tables Queues StateIo Tasks Chat

variable {ι π σ : Type}

/-- The two stores, each with its own file. -/
structure Stores (σ : Type) where
  tasks : StateFile σ TaskTable
  chat : StateFile σ ChatFile
  paths : tasks.path ≠ chat.path

inductive QueueCall where
  | task (call : TaskCall)
  | chat (call : ChatCall)

inductive QueueAnswer where
  | task (answer : TaskAnswer)
  | chat (answer : ChatAnswer)

def QueueCall.prog (floatText : ℚ → String) (stores : Stores σ) (process : π) :
    QueueCall → FileProg π σ QueueAnswer
  | .task call => .task <$> call.prog process stores.tasks
  | .chat call => .chat <$> call.prog floatText process stores.chat

/-- What a task call has written, whatever the other calls do. -/
def TaskPost (m : Memory π TaskTable) (r : Except Error QueueAnswer) : Prop :=
  ∀ answer, r = .ok (.task answer) → TaskSaved m (.ok answer)

def ChatPost (m : Memory π Payload) (r : Except Error QueueAnswer) : Prop :=
  ∀ message, r = .ok (.chat (.claimed message)) →
    (⟨m.issued.map messageName,
      m.wrote⟩ : Queues.Entry Payload String).Takes chatQueue message.messageId

variable (floatText : ℚ → String) (stores : Stores σ) (process : π) (call : QueueCall)

theorem meets_tasks : (call.prog floatText stores process).Meets
    (touching (taskFile stores.tasks) process TaskChange) TaskPost .start := by
  cases call with
  | task call =>
    refine Prog.Meets.map ((touching_of_updating (call.meets process stores.tasks)).mono ?_)
    rintro m (e | found) hsaved answer hanswer
    · cases hanswer
    · cases hanswer
      exact hsaved
  | chat call =>
    have h : (call.prog floatText process stores.chat).Meets
        (touching (taskFile stores.tasks) process TaskChange) (fun _ _ => True) .start :=
      touching_of_elsewhere (Ne.symm stores.paths) (call.meets floatText process stores.chat) _
    refine Prog.Meets.map (h.mono ?_)
    rintro m (e | found) - answer hanswer <;> cases hanswer

theorem meets_chat : (call.prog floatText stores process).Meets
    (touching (chatFile stores.chat) process ChatChange) ChatPost .start := by
  cases call with
  | task call =>
    have h : (call.prog process stores.tasks).Meets
        (touching (chatFile stores.chat) process ChatChange) (fun _ _ => True) .start :=
      touching_of_elsewhere stores.paths (call.meets process stores.tasks) _
    refine Prog.Meets.map (h.mono ?_)
    rintro m (e | found) - message hmessage <;> cases hmessage
  | chat call =>
    refine Prog.Meets.map
      ((touching_of_updating (call.meets floatText process stores.chat)).mono ?_)
    rintro m (e | found) hsaved message hmessage
    · cases hmessage
    · cases hmessage
      rcases hsaved with ⟨-, hshown⟩ | ⟨before, after, hwrote, hwrites, -, hclaimed⟩
      · exact ((hshown message rfl).1 message rfl).elim
      · obtain ⟨hstatus, hwaiting⟩ := hclaimed message rfl
        refine ⟨before, after, hwrote, hwaiting, ?_⟩
        rintro ⟨found, hfound, hqueued⟩
        rcases hwrites.lookup hfound with ⟨hother, hbefore⟩ | ⟨hsame, -⟩
        · exact hother message rfl rfl
        · rw [← Option.some.inj hsame, hstatus] at hqueued
          cases hqueued

variable [DecidableEq ι] [DecidableEq π]

def startPool (calls : ι → QueueCall) (proc : ι → π) (w : World π σ) :
    FilePool ι π σ QueueAnswer where
  state := w
  threads i := (calls i).prog floatText stores (proc i)
  log := []

def poolAfter (env : Env) (calls : ι → QueueCall) (proc : ι → π) (w : World π σ)
    (schedule : List ι) : FilePool ι π σ QueueAnswer :=
  (startPool floatText stores calls proc w).run (exec env) schedule

def taskIds (w : World π σ) : Set String := itemsOf (taskFile stores.tasks) taskQueue w

def messageIds (w : World π σ) : Set String := itemsOf (chatFile stores.chat) chatQueue w

/-- Calls of any number of threads of any number of processes, in any order of their single
loads and writes that the locks of the processes permit. If no other process writes a file
between a call's load and its write, every task stays in the file, and no task and no
message is claimed by two calls. -/
theorem queues_claim_once (env : Env) (hids : Function.Injective env.ids)
    (calls : ι → QueueCall) (proc : ι → π) (w : World π σ)
    (hnewTasks : ∀ n, taskName (env.ids n) ∉ taskIds stores w)
    (hnewMessages : ∀ n, messageName (env.ids n) ∉ messageIds stores w) (schedule : List ι)
    (hschedule : Pool.Throughout (exec env)
      (fun pool i => Permitted locking pool i ∧ Undisturbed proc pool i)
      (startPool floatText stores calls proc w) schedule) :
    taskIds stores w ⊆ taskIds stores (poolAfter floatText stores env calls proc w schedule).state ∧
    (∀ i task, ((poolAfter floatText stores env calls proc w schedule).threads i).returned =
        some (.task (.created task)) →
      task.taskId ∈ taskIds stores (poolAfter floatText stores env calls proc w schedule).state) ∧
    (∀ i j a b, ((poolAfter floatText stores env calls proc w schedule).threads i).returned =
        some (.task (.claimed a)) →
      ((poolAfter floatText stores env calls proc w schedule).threads j).returned =
        some (.task (.claimed b)) → a.taskId = b.taskId → i = j) ∧
    ∀ i j a b, ((poolAfter floatText stores env calls proc w schedule).threads i).returned =
        some (.chat (.claimed a)) →
      ((poolAfter floatText stores env calls proc w schedule).threads j).returned =
        some (.chat (.claimed b)) → a.messageId = b.messageId → i = j := by
  have hstartTasks (i : ι) := meets_tasks floatText stores (proc i) (calls i)
  have hstartChat (i : ι) := meets_chat floatText stores (proc i) (calls i)
  obtain ⟨htasks, hkept⟩ := kept_run (startPool floatText stores calls proc w) rfl hstartTasks
    hschedule hids taskRules hnewTasks
  obtain ⟨hchat, hmessages⟩ := kept_run (startPool floatText stores calls proc w) rfl hstartChat
    hschedule hids chatRules hnewMessages
  obtain ⟨-, hretained⟩ := retained_run (startPool floatText stores calls proc w) taskChange_retains
    rfl hstartTasks hschedule
  refine ⟨?_, ?_, ?_, ?_⟩
  · rintro id ⟨t, ht, hid⟩
    obtain ⟨now, hnow, hsub⟩ := hretained.first t ht
    exact ⟨now, hnow, hsub hid⟩
  · intro i task hi
    obtain ⟨before, after, hwrote, hmem⟩ :=
      Prog.Meets.post_of_returned (htasks.honest i) hi (.created task) rfl
    obtain ⟨now, hnow, hsub⟩ := hretained.written i before after hwrote
    exact ⟨now, hnow, hsub hmem⟩
  · intro i j a b hi hj hid
    have hiTakes := Tasks.takes_of_saved
      (Prog.Meets.post_of_returned (htasks.honest i) hi (.claimed a) rfl)
    have hjTakes := Tasks.takes_of_saved
      (Prog.Meets.post_of_returned (htasks.honest j) hj (.claimed b) rfl)
    rw [← hid] at hjTakes
    exact hkept.settled.once i j a.taskId hiTakes hjTakes
  · intro i j a b hi hj hid
    have hiTakes := Prog.Meets.post_of_returned (hchat.honest i) hi a rfl
    have hjTakes := Prog.Meets.post_of_returned (hchat.honest j) hj b rfl
    rw [← hid] at hjTakes
    exact hmessages.settled.once i j a.messageId hiTakes hjTakes

/-- Both stores in one file system whose files are the contents themselves. -/
def plainStores : Stores (TaskTable ⊕ ChatFile) where
  tasks :=
    { path := "control_tasks.json"
      encode := .inl
      decode := fun
        | .inl tasks => .ok tasks
        | .inr _ => .error ⟨.typeError, "not a table of tasks"⟩
      decode_encode := fun _ => rfl }
  chat :=
    { path := "control_chat_messages.json"
      encode := .inr
      decode := fun
        | .inr content => .ok content
        | .inl _ => .error ⟨.typeError, "not a table of messages"⟩
      decode_encode := fun _ => rfl }
  paths := by decide

def lengthIds : Env where
  clock n := n
  ids n := String.ofList (List.replicate n '0')

theorem lengthIds_injective : Function.Injective lengthIds.ids := by
  intro m n h
  simpa using congrArg List.length (String.ofList_injective h)

def noFiles : World Bool (TaskTable ⊕ ChatFile) := ⟨fun _ => none, fun _ => false, 0, 0⟩

def QueueAnswer.ofTask : QueueAnswer → Option TaskAnswer
  | .task answer => some answer
  | .chat _ => none

theorem eq_task_of_ofTask {answer : Option QueueAnswer} {found : TaskAnswer}
    (h : answer.bind QueueAnswer.ofTask = some found) : answer = some (.task found) := by
  cases answer with
  | none => cases h
  | some answer =>
    cases answer with
    | task answer => exact congrArg (some ∘ QueueAnswer.task) (Option.some.inj h)
    | chat answer => cases h

/-- The task that one process creates and the other claims. -/
def bookTheFlight : UserTask := { taskId := "task_", text := "book the flight" }

def oneCreates : Bool → QueueCall
  | true => .task (.create "book the flight" "control_client")
  | false => .task (.nextPending true)

/-- A task is created, and claimed by the other process. It stays in the file. -/
theorem queues_claim_once_created :
    let schedule := [true, true, true, true, true, true, false, false, false, false, false]
    let pool := poolAfter (fun _ => "") plainStores lengthIds oneCreates id noFiles schedule
    (pool.threads false).returned.bind QueueAnswer.ofTask =
        some (.claimed
          { bookTheFlight with status := .claimed, claimedAt := some 1, updatedAt := 1 }) ∧
      "task_" ∈ taskIds plainStores pool.state := by
  refine ⟨by decide +kernel, ?_⟩
  refine (queues_claim_once (fun _ => "") plainStores lengthIds lengthIds_injective oneCreates id
    noFiles ?_ ?_ [true, true, true, true, true, true, false, false, false, false, false]
    (by decide +kernel)).2.1 true bookTheFlight
    (eq_task_of_ofTask (by decide +kernel))
  · rintro n ⟨t, ⟨⟩, hid⟩
    cases hid
  · rintro n ⟨t, ⟨⟩, hid⟩
    cases hid

/-- One pending task. -/
def onePending : World Bool (TaskTable ⊕ ChatFile) where
  files path :=
    if path = "control_tasks.json" then
      some (.inl (Table.empty.insert { taskId := "task_a", text := "book the flight" }))
    else none
  locked _ := false
  tick := 0
  issued := 0

/-- Both processes ask for the next task. The second loads the file before the first has
written it: the task is claimed twice, though every lock was free when it was taken. -/
theorem task_claimed_twice :
    let schedule := [true, true, false, false, false, false, false, true, true, true]
    let calls : Bool → QueueCall := fun _ => .task (.nextPending true)
    let pool := poolAfter (fun _ => "") plainStores lengthIds calls id onePending schedule
    Pool.Throughout (exec lengthIds) (Permitted locking)
        (startPool (fun _ => "") plainStores calls id onePending) schedule ∧
      ∃ a b, (pool.threads true).returned = some (.task (.claimed a)) ∧
        (pool.threads false).returned = some (.task (.claimed b)) ∧ a.taskId = b.taskId := by
  refine ⟨by decide +kernel, _, _, rfl, rfl, ?_⟩
  decide +kernel

end OmniDoer.Claims
