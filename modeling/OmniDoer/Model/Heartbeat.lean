import OmniDoer.Model.Chat
import Mathlib.Data.List.MinMax
import Mathlib.Data.Prod.Lex
import Mathlib.Data.Rat.Floor

/-! # Heartbeat

The model of `omni_control/heartbeat.py`: the state file with the settings, the queue of
heartbeat tasks, and `run_once`, which loads the state, looks at the queue, may ask whether
the chat is idle, picks a task, puts it into the chat and saves the state. Each file has a
lock of its own, and none is held from one of these steps to the next. -/

namespace OmniDoer.Heartbeat

open Py Effects Tables StateIo Chat

def defaultChatSessionId : String := "default"

def defaultHeartbeatIntervalSeconds : ℚ := 60 * 60

def defaultHeartbeatMinIdleSeconds : ℚ := 5 * 60

def staleNonUserActiveSeconds : ℚ := 30 * 60

def skipStateWriteMinSeconds : ℚ := 5 * 60

def maxHeartbeatTaskTextLength : ℕ := 8000

def maxHeartbeatTaskTitleLength : ℕ := 120

def secondsPerDay : ℚ := 24 * 60 * 60

/-- What comes from outside: the interpreter, dates, paths and the directory of the state
files. -/
structure Platform where
  py : Interpreter
  floatText : ℚ → String
  /-- `datetime.fromisoformat(text)` as a timestamp. -/
  fromIsoFormat : String → Option ℚ
  /-- `time.strftime(..., time.localtime(now))`. -/
  localStamp : ℚ → String
  /-- `int(text)`. -/
  intOf : String → Option ℤ
  /-- `str(Path(path).expanduser().resolve())`. -/
  resolve : String → String
  defaultHeartbeatFile : String
  heartbeatTasksPath : String

structure HeartbeatTask where
  taskId : String
  text : String
  title : String := ""
  source : String := "control_client"
  enabled : Bool := true
  weight : ℤ := 1
  priority : String := ""
  quota : String := ""
  repoPath : String := ""
  remoteUrl : String := ""
  target : String := ""
  deadlineUtc : String := ""
  minIntervalSeconds : Option ℚ := none
  interruptActive : Bool := true
  createdAt : ℚ := 0
  updatedAt : ℚ := 0
  lastTriggeredAt : Option ℚ := none
  triggerCount : ℕ := 0
  deriving DecidableEq, Repr

abbrev HeartbeatTasks := Table HeartbeatTask.taskId

structure HeartbeatTaskQueue where
  order : List String
  tasks : HeartbeatTasks
  cursor : ℤ
  createdAt : ℚ
  updatedAt : ℚ

/-- What the file of the queue holds: everything, or in older files the tasks alone. -/
inductive TaskFile where
  | payload (order : List String) (tasks : HeartbeatTasks) (cursor : ℤ) (createdAt updatedAt : ℚ)
  | bare (tasks : HeartbeatTasks)

section Weights

variable (platform : Platform)

def parseDeadlineTimestamp (value : String) : Option ℚ :=
  let text := strip value
  if text = "" then none
  else if text.endsWith "Z" then
    platform.fromIsoFormat (String.ofList text.toList.dropLast ++ "+00:00")
  else platform.fromIsoFormat text

def deadlineSecondsRemaining (task : HeartbeatTask) (now : ℚ) : Option ℚ :=
  (parseDeadlineTimestamp platform task.deadlineUtc).map (· - now)

def deadlineWeightBonus (task : HeartbeatTask) (now : ℚ) : ℤ :=
  match deadlineSecondsRemaining platform task now with
  | none => 0
  | some remaining =>
    let days := remaining / secondsPerDay
    if remaining ≤ 0 then 100
    else if days ≤ 3 then 24
    else if days ≤ 7 then 16
    else if days ≤ 14 then 10
    else if days ≤ 30 then 7
    else if days ≤ 60 then 4
    else if days ≤ 120 then 2
    else 1

def effectiveTaskWeight (task : HeartbeatTask) (now : ℚ) : ℤ :=
  max 1 task.weight + deadlineWeightBonus platform task now

end Weights

def taskDueAt (task : HeartbeatTask) : Option ℚ :=
  match task.minIntervalSeconds, task.lastTriggeredAt with
  | none, _ => none
  | some _, none => some 0
  | some interval, some last => some (last + max 1 interval)

def taskIsDue (task : HeartbeatTask) (now : ℚ) : Bool :=
  match taskDueAt task with
  | none => true
  | some dueAt => max 0 (dueAt - now) ≤ 0

def taskOverdueSeconds (task : HeartbeatTask) (now : ℚ) : ℚ :=
  match taskDueAt task with
  | none => 0
  | some dueAt => max 0 (now - dueAt)

/-- A task that has been picked. -/
def HeartbeatTask.triggered (task : HeartbeatTask) (now : ℚ) : HeartbeatTask :=
  { task with lastTriggeredAt := some now, triggerCount := task.triggerCount + 1, updatedAt := now }

structure HeartbeatState where
  enabled : Bool := false
  intervalSeconds : ℚ := defaultHeartbeatIntervalSeconds
  minIdleSeconds : ℚ := defaultHeartbeatMinIdleSeconds
  heartbeatFile : String := ""
  taskQueueFile : String := ""
  sessionId : String := defaultChatSessionId
  lastTriggeredAt : Option ℚ := none
  lastMessageId : Option String := none
  lastTaskId : Option String := none
  lastSkippedAt : Option ℚ := none
  lastSkipReason : Option String := none
  createdAt : ℚ := 0
  updatedAt : ℚ := 0
  deriving DecidableEq, Repr

/-- A character of `[A-Za-z0-9_-]`. -/
def isSessionIdChar (c : Char) : Bool := c.isAlphanum || c == '_' || c == '-'

@[irreducible] def validateChatSessionId (sessionId : String) : Except Error String :=
  let stripped := strip (if sessionId = "" then defaultChatSessionId else sessionId)
  let value := if stripped = "" then defaultChatSessionId else stripped
  if value.toList.all isSessionIdChar && value.length ≤ 48 then .ok value
  else .error ⟨.valueError, "invalid chat session id"⟩

/-- The files: the state, the queue of each path, the chat of each session, and any other
file as a text. -/
structure Files (σ : Type) where
  state : StateFile σ HeartbeatState
  tasks : String → StateFile σ TaskFile
  chat : String → StateFile σ ChatFile
  readText : σ → Except Error String

/-- What a run tells about itself. A note changes nothing, and nothing reads it. -/
inductive Note where
  /-- `chat_session_idle` has answered. -/
  | idle (answer : Bool)
  /-- The task, or the heartbeat file, goes into the chat. -/
  | queue (task : Option HeartbeatTask)
  deriving DecidableEq, Repr

inductive HeartbeatOp where
  | note (note : Note)
  | randrange (n : ℕ)

@[reducible] def HeartbeatOp.Ans : HeartbeatOp → Type
  | .note _ => Unit
  | .randrange _ => ℕ

variable {π σ : Type}

/-- The operations on the files, and the others. -/
abbrev Op (π σ : Type) := FileOp π σ ⊕ HeartbeatOp

abbrev Ans : Op π σ → Type := Sum.elim FileOp.Ans HeartbeatOp.Ans

abbrev HeartbeatProg (π σ α : Type) := Prog (Op π σ) Ans Error α

/-- `random` gives the numbers that are drawn; their count is the second part of the state. -/
def exec [DecidableEq π] (env : Env) (random : ℕ → ℕ) :
    (o : Op π σ) → World π σ × ℕ → Ans o × (World π σ × ℕ) :=
  Prog.execSum (StateIo.exec env) fun _ o drawn =>
    match o with
    | .note _ => ((), drawn)
    | .randrange n => (random drawn % n, drawn + 1)

def note (event : Note) : HeartbeatProg π σ Unit := .op (.inr (.note event)) .pure

def randrange (n : ℕ) : HeartbeatProg π σ ℕ := .op (.inr (.randrange n)) .pure

section State

variable (platform : Platform) (files : Files σ) (process : π)

/-- `_load_state` of what the file holds. -/
def HeartbeatState.loaded (now : ℚ) : Option HeartbeatState → Except Error HeartbeatState
  | none => .ok
      { heartbeatFile := platform.defaultHeartbeatFile, taskQueueFile := platform.heartbeatTasksPath
        createdAt := now, updatedAt := now }
  | some state => do
      let sessionId ← validateChatSessionId state.sessionId
      return { state with
        heartbeatFile :=
          if state.heartbeatFile = "" then platform.defaultHeartbeatFile else state.heartbeatFile
        taskQueueFile :=
          if state.taskQueueFile = "" then platform.heartbeatTasksPath else state.taskQueueFile
        sessionId }

def loadState : FileProg π σ HeartbeatState := do
  let now ← time
  let content ← loading files.state
  .ofExcept (HeartbeatState.loaded platform now content)

def loadHeartbeatState : FileProg π σ HeartbeatState :=
  lockedStateFile process files.state.path (loadState platform files)

/-- The times of a state that is saved. -/
def HeartbeatState.stamped (state : HeartbeatState) (now : ℚ) : HeartbeatState :=
  { state with updatedAt := now, createdAt := if state.createdAt = 0 then now else state.createdAt }

def saveHeartbeatState (state : HeartbeatState) : FileProg π σ HeartbeatState := do
  let sessionId ← Prog.ofExcept (validateChatSessionId state.sessionId)
  let now ← time
  let state := { state with sessionId }.stamped now
  lockedStateFile process files.state.path (atomicWriteJson files.state state)
  return state

/-- `parse_duration_seconds` of a text. -/
def parseDurationSeconds (value : String) : Except Error ℤ :=
  let text := (platform.py.lower (strip value)).toList
  let int (digits : List Char) : Except Error ℤ :=
    match platform.intOf (String.ofList digits) with
    | some n => .ok n
    | none => .error ⟨.valueError, "invalid literal for int() with base 10"⟩
  match text.getLast? with
  | some 'm' => (· * 60) <$> int text.dropLast
  | some 's' => int text.dropLast
  | some 'h' => (· * 3600) <$> int text.dropLast
  | _ => int text

/-- The arguments of `configure_heartbeat`, the durations as texts. -/
structure ConfigureArgs where
  enabled : Option Bool := none
  interval : Option String := none
  minIdle : Option String := none
  heartbeatFile : Option String := none
  sessionId : Option String := none

/-- `max(bound, parse_duration_seconds(text))`, or the old value. -/
def durationOr (bound old : ℚ) : Option String → Except Error ℚ
  | none => .ok old
  | some text => (fun n : ℤ => max bound (n : ℚ)) <$> parseDurationSeconds platform text

def sessionOr (old : String) : Option String → Except Error String
  | none => .ok old
  | some sessionId => validateChatSessionId sessionId

/-- The state with the arguments put in. -/
def HeartbeatState.configured (state : HeartbeatState) (args : ConfigureArgs) :
    Except Error HeartbeatState := do
  let intervalSeconds ← durationOr platform 1 state.intervalSeconds args.interval
  let minIdleSeconds ← durationOr platform 0 state.minIdleSeconds args.minIdle
  let sessionId ← sessionOr state.sessionId args.sessionId
  return { state with
    enabled := args.enabled.getD state.enabled
    intervalSeconds
    minIdleSeconds
    heartbeatFile := (args.heartbeatFile.map platform.resolve).getD state.heartbeatFile
    sessionId
    taskQueueFile :=
      if state.taskQueueFile = "" then platform.heartbeatTasksPath else state.taskQueueFile }

def configureHeartbeat (args : ConfigureArgs) : FileProg π σ HeartbeatState :=
  lockedStateFile process files.state.path do
    let state ← loadState platform files
    let state ← Prog.ofExcept (state.configured platform args)
    let now ← time
    let state := state.stamped now
    atomicWriteJson files.state state
    return state

end State

namespace HeartbeatTaskStore

variable (platform : Platform) (process : π) (file : StateFile σ TaskFile)

/-- The identifiers of the tasks from the oldest on. -/
def byAge (tasks : HeartbeatTasks) : List String :=
  (tasks.rows.insertionSort fun a b => a.createdAt ≤ b.createdAt).map (·.taskId)

/-- `_load_payload` of what the file holds, if there is one. -/
def queueOf : TaskFile → HeartbeatTaskQueue
  | .payload order tasks cursor createdAt updatedAt =>
    let order := order.filter fun id => (tasks.lookup id).isSome
    ⟨order ++ (byAge tasks).filter (· ∉ order), tasks, cursor, createdAt, updatedAt⟩
  | .bare tasks => ⟨byAge tasks, tasks, 0, 0, 0⟩

def loadPayload : FileProg π σ HeartbeatTaskQueue := do
  match ← loading file with
  | none =>
    let now ← time
    return ⟨[], .empty, 0, now, now⟩
  | some content => return queueOf content

def savePayload (queue : HeartbeatTaskQueue) : FileProg π σ Unit := do
  let now ← time
  atomicWriteJson file
    (.payload (queue.order.filter fun id => (queue.tasks.lookup id).isSome) queue.tasks queue.cursor
      (if queue.createdAt = 0 then now else queue.createdAt) now)

/-- The tasks of the order that may be picked. -/
def eligible (queue : HeartbeatTaskQueue) (now : ℚ) : List HeartbeatTask :=
  (queue.order.filterMap queue.tasks.lookup).filter fun task => task.enabled && taskIsDue task now

/-- How overdue a task is, how heavy, and how early in the order. -/
def Urgency : Type := ℚ ×ₗ ℤ ×ₗ ℤ

instance : LinearOrder Urgency := inferInstanceAs (LinearOrder (ℚ ×ₗ ℤ ×ₗ ℤ))

def urgency (queue : HeartbeatTaskQueue) (now : ℚ) (task : HeartbeatTask) : Urgency :=
  toLex (taskOverdueSeconds task now,
    toLex (effectiveTaskWeight platform task now, -(queue.order.idxOf task.taskId : ℤ)))

/-- The tasks with an interval of their own: the most overdue, then the heaviest, then the
first. -/
def fixedDue (queue : HeartbeatTaskQueue) (now : ℚ) : Option HeartbeatTask :=
  ((eligible queue now).filter fun task => task.minIntervalSeconds.isSome).argmax
    (urgency platform queue now)

/-- Each task as many times as it weighs. -/
def ring (queue : HeartbeatTaskQueue) (now : ℚ) : List HeartbeatTask :=
  (eligible queue now).flatMap fun task =>
    List.replicate (effectiveTaskWeight platform task now).toNat task

/-- The task that is picked, and where the cursor then stands. -/
def choose (queue : HeartbeatTaskQueue) (now : ℚ) : Option (HeartbeatTask × ℤ) :=
  match fixedDue platform queue now with
  | some task => some (task, queue.cursor)
  | none =>
    let ring := ring platform queue now
    let index := queue.cursor % ring.length
    ring[index.toNat]?.map fun task => (task, (index + 1) % ring.length)

/-- `now or time.time()`. -/
def orTime (now : ℚ) : FileProg π σ ℚ := if now = 0 then time else .pure now

def nextTask (now : ℚ) (consume : Bool) : FileProg π σ (Option HeartbeatTask) :=
  lockedStateFile process file.path do
    let queue ← loadPayload file
    let current ← orTime now
    match choose platform queue current with
    | none => return none
    | some (task, cursor) =>
      if consume then
        let task := task.triggered current
        savePayload file { queue with tasks := queue.tasks.insert task, cursor }
        return some task
      else return some task

/-- The arguments of `create`. -/
structure NewTask where
  text : String
  title : String := ""
  source : String := "control_client"
  weight : ℤ := 1
  position : String := "random"
  priority : String := ""
  quota : String := ""
  repoPath : String := ""
  remoteUrl : String := ""
  target : String := ""
  deadlineUtc : String := ""
  minIntervalSeconds : Option ℚ := none
  interruptActive : Bool := true

def NewTask.task (new : NewTask) (id : String) (now : ℚ) : HeartbeatTask where
  taskId := "hbt_" ++ id
  text := strip new.text
  title := String.ofList ((strip new.title).toList.take maxHeartbeatTaskTitleLength)
  source := new.source
  weight := max 1 new.weight
  priority := strip new.priority
  quota := strip new.quota
  repoPath := strip new.repoPath
  remoteUrl := strip new.remoteUrl
  target := strip new.target
  deadlineUtc := strip new.deadlineUtc
  minIntervalSeconds := new.minIntervalSeconds.map (max 1)
  interruptActive := new.interruptActive
  createdAt := now
  updatedAt := now

/-- Where a new task is put; any other position is a random one. -/
def positionIn (position : String) (length : ℕ) : HeartbeatProg π σ ℕ :=
  if position = "front" then .pure 0
  else if position = "back" then .pure length
  else randrange (length + 1)

def create (new : NewTask) : HeartbeatProg π σ HeartbeatTask :=
  if strip new.text = "" then .raise ⟨.valueError, "heartbeat task text is required"⟩
  else if maxHeartbeatTaskTextLength < (strip new.text).length then
    .raise ⟨.valueError, "heartbeat task text is too long"⟩
  else Prog.between (.inl (.acquire process file.path)) (.inl (.release process file.path)) do
    let queue ← (loadPayload file).inl
    let now ← time.inl
    let id ← uuid.inl
    let task := new.task id now
    let index ← positionIn new.position queue.order.length
    (savePayload file { queue with
      tasks := queue.tasks.insert task
      order := queue.order.insertIdx index task.taskId
      cursor := if (index : ℤ) ≤ queue.cursor then queue.cursor + 1 else queue.cursor }).inl
    return task

def setEnabled (taskId : String) (enabled : Bool) : FileProg π σ HeartbeatTask :=
  lockedStateFile process file.path do
    let queue ← loadPayload file
    match queue.tasks.lookup taskId with
    | none => .raise ⟨.keyError, taskId⟩
    | some task =>
      let now ← time
      let task := { task with enabled, updatedAt := now }
      savePayload file { queue with tasks := queue.tasks.insert task }
      return task

/-- How many places before the cursor the task has in the order. -/
def placesBefore (queue : HeartbeatTaskQueue) (taskId : String) : ℕ :=
  queue.order.zipIdx.countP fun (id, index) => id = taskId && (index : ℤ) < queue.cursor

def remove (taskId : String) : FileProg π σ HeartbeatTask :=
  lockedStateFile process file.path do
    let queue ← loadPayload file
    match queue.tasks.lookup taskId with
    | none => .raise ⟨.keyError, taskId⟩
    | some task =>
      let before := placesBefore queue taskId
      savePayload file { queue with
        tasks := queue.tasks.filter fun task => task.taskId ≠ taskId
        order := queue.order.filter (· ≠ taskId)
        cursor := if before = 0 then queue.cursor else max 0 (queue.cursor - before) }
      return task

end HeartbeatTaskStore

def readHeartbeatFile (files : Files σ) (path : String) : FileProg π σ (Option String) :=
  .op (.load path) fun
    | none => .pure none
    | some text => .ofExcept ((fun text => some (strip text)) <$> files.readText text)

/-- The lines about a task that have a value. -/
def metadataLines (platform : Platform) (task : HeartbeatTask) : List String :=
  ["任务优先级: " ++ task.priority, "任务配额: " ++ task.quota, "任务仓库: " ++ task.repoPath,
    "任务远端: " ++ task.remoteUrl, "任务目标: " ++ task.target, "任务截止时间: " ++ task.deadlineUtc,
    "任务最小触发间隔秒: " ++ (task.minIntervalSeconds.map platform.floatText).getD "None"].filter
    fun line => !line.endsWith ": " && !line.endsWith ": None"

def formatHeartbeatPrompt (platform : Platform) (heartbeatFile instructions : String) (now : ℚ)
    (task : Option HeartbeatTask) : String :=
  "\n".intercalate (["[OmniDoer heartbeat]", "触发时间: " ++ platform.localStamp now] ++
    match task with
    | some task =>
      ["任务来源: heartbeat queue", "任务ID: " ++ task.taskId,
        "任务标题: " ++ (if task.title = "" then "(untitled)" else task.title),
        "任务权重: " ++ toString task.weight,
        "任务有效权重: " ++ toString (effectiveTaskWeight platform task now)] ++
        metadataLines platform task ++
        ["",
          "请执行这个由持久 heartbeat 队列轮询选出的任务。完成后在回复中说明本轮处理的任务ID、关键证据、下一步以及是否需要继续排队；不要依赖聊天记忆来判断还有哪些长期任务。",
          "", instructions]
    | none =>
      ["任务文件: " ++ heartbeatFile, "",
        "请在空闲心跳中执行以下 HEARTBEAT.md 任务清单。遵守任务中的登记标准；如果没有达到阈值的新发现，只更新归档或说明本次无重大新增。",
        "", instructions])

/-- `a or b` for numbers. -/
def orNumber (a b : ℚ) : ℚ := if a = 0 then b else a

/-- Whether the message is one that the agent is at work on, and how old it is. Messages that
are not the user's count only while they are fresh. -/
def activeMessage (current : ℚ) (message : ChatMessage) : Option (String × ℚ) :=
  let age := current - orNumber message.updatedAt (orNumber message.createdAt current)
  match message.status with
  | .queued | .claimed | .streaming =>
    if message.role ≠ .user ∧ staleNonUserActiveSeconds ≤ age then none
    else some ("active_" ++ message.status.name ++ "_message", age)
  | .completed | .cancelled => none

def latestChatActivity (messages : List ChatMessage) (records : List ChatRecord) : Option ℚ :=
  ((messages.map fun message => orNumber message.updatedAt message.createdAt) ++
    records.map (·.createdAt)).filter (0 < ·) |>.max?

structure Idleness where
  idle : Bool
  reason : String
  seconds : Option ℚ
  deriving DecidableEq, Repr

def chatSessionIdle (file : StateFile σ ChatFile) (minIdleSeconds now : ℚ) :
    FileProg π σ Idleness := do
  let current ← HeartbeatTaskStore.orTime now
  match (← ChatStore.list file 1000).findSome? (activeMessage current) with
  | some (reason, age) => return ⟨false, reason, some age⟩
  | none =>
    let messages ← ChatStore.list file 1000
    let records ← ChatStore.listRecords file 1000
    match latestChatActivity messages records with
    | none => return ⟨true, "idle", none⟩
    | some latest =>
      if current - latest < minIdleSeconds then
        return ⟨false, "recent_chat_activity", some (current - latest)⟩
      else return ⟨true, "idle", some (current - latest)⟩

/-- What a run returns. -/
inductive Report where
  | queued (messageId sessionId heartbeatFile : String) (task : Option HeartbeatTask)
  | skipped (reason : String) (idleSeconds : Option ℚ)
  deriving DecidableEq, Repr

section Runner

variable (platform : Platform) (files : Files σ) (process : π)

/-- The same reason is not written again within five minutes. -/
def skipRecorded (state : HeartbeatState) (reason : String) (now : ℚ) : Bool :=
  state.lastSkipReason == some reason &&
    state.lastSkippedAt.any fun last => now - last < skipStateWriteMinSeconds

def recordSkip (state : HeartbeatState) (reason : String) (now : ℚ)
    (idleSeconds : Option ℚ := none) : HeartbeatProg π σ Report :=
  if skipRecorded state reason now then return .skipped reason idleSeconds
  else do
    let _ ← (saveHeartbeatState files process
      { state with lastSkippedAt := some now, lastSkipReason := some reason }).inl
    return .skipped reason idleSeconds

/-- `next_task`, and nothing when it raises. -/
def tryNextTask (state : HeartbeatState) (now : ℚ) (consume : Bool) :
    FileProg π σ (Option HeartbeatTask) :=
  (HeartbeatTaskStore.nextTask platform process
    (files.tasks state.taskQueueFile) now consume).handle
    fun _ => .pure none

/-- The idle check, which is left out when the pending task may interrupt. The reason not to
go on, if there is one. -/
def idleCheck (state : HeartbeatState) (now : ℚ) (force : Bool) (pending : Option HeartbeatTask) :
    HeartbeatProg π σ (Option (String × Option ℚ)) :=
  if pending.all fun task => !task.interruptActive && !force then do
    let idleness ← (chatSessionIdle (files.chat state.sessionId) state.minIdleSeconds now).inl
    note (.idle idleness.idle)
    return if !idleness.idle && !force then some (idleness.reason, idleness.seconds) else none
  else return none

/-- The text for the chat: that of the task, or of the heartbeat file. -/
def instructionsFor (state : HeartbeatState) : Option HeartbeatTask → FileProg π σ (Option String)
  | some task => .pure (some task.text)
  | none => readHeartbeatFile files state.heartbeatFile

/-- `int(now)`. -/
def truncated (now : ℚ) : ℤ := now.num.tdiv now.den

def taskJson (task : Option HeartbeatTask) (f : HeartbeatTask → String) : Json :=
  (task.map fun task => Json.str (f task)).getD .null

/-- The data of the record about a queued task. -/
def queuedData (state : HeartbeatState) (task : Option HeartbeatTask) (force : Bool) : Dict :=
  [("heartbeat_file", .str state.heartbeatFile), ("heartbeat_task_id", taskJson task (·.taskId)),
    ("heartbeat_task_title", taskJson task (·.title)),
    ("heartbeat_task_queue_file", .str state.taskQueueFile),
    ("interval_seconds", .float (.fin state.intervalSeconds)),
    ("min_idle_seconds", .float (.fin state.minIdleSeconds)), ("forced", .bool force)]

/-- The message for the chat. `id` makes the client's own number unique. -/
def heartbeatMessage (state : HeartbeatState) (now : ℚ) (task : Option HeartbeatTask)
    (instructions id : String) : NewMessage where
  role := "user"
  text := formatHeartbeatPrompt platform state.heartbeatFile instructions now task
  source := "heartbeat"
  clientMessageId := some ("control_heartbeat_" ++ toString (truncated now) ++ "_" ++
    String.ofList (id.toList.take 8))

def queueTask (state : HeartbeatState) (now : ℚ) (force : Bool) (task : Option HeartbeatTask)
    (instructions : String) : HeartbeatProg π σ Report := do
  note (.queue task)
  let id ← uuid.inl
  let message ← (ChatStore.append platform.floatText process (files.chat state.sessionId)
    (heartbeatMessage platform state now task instructions id)).inl
  let _ ← (ChatStore.appendRecord process (files.chat state.sessionId) "status"
    "Heartbeat task queued for the idle agent." (some "system") (some message.messageId) "heartbeat"
    (queuedData state task force)).inl
  let _ ← (saveHeartbeatState files process
    { state with
      lastTriggeredAt := some now
      lastMessageId := some message.messageId
      lastTaskId := task.map (·.taskId)
      lastSkipReason := none }).inl
  return .queued message.messageId state.sessionId state.heartbeatFile task

/-- What follows the idle check. -/
def pickAndQueue (state : HeartbeatState) (now : ℚ) (force : Bool)
    (pending : Option HeartbeatTask) : HeartbeatProg π σ Report := do
  let task ← (tryNextTask platform files process state now true).inl
  if pending.isSome && task.isNone then recordSkip files process state "no_due_heartbeat_task" now
  else
    match ← (instructionsFor files state task).inl with
    | none => recordSkip files process state "heartbeat_file_not_found" now
    | some instructions =>
      if instructions = "" then recordSkip files process state "heartbeat_file_empty" now
      else queueTask platform files process state now force task instructions

def intervalElapsed (state : HeartbeatState) (now : ℚ) : Bool :=
  match state.lastTriggeredAt with
  | none => true
  | some last => state.intervalSeconds ≤ now - last

def runOnce (force : Bool) : HeartbeatProg π σ Report := do
  let now ← time.inl
  let state ← (loadHeartbeatState platform files process).inl
  if !state.enabled && !force then recordSkip files process state "disabled" now
  else if !force && !intervalElapsed state now then
    recordSkip files process state "interval_not_elapsed" now
  else
    let pending ← (tryNextTask platform files process state now false).inl
    match ← idleCheck files state now force pending with
    | some (reason, idleSeconds) => recordSkip files process state reason now idleSeconds
    | none => pickAndQueue platform files process state now force pending

end Runner

/-- What a thread does: a run, a change of the settings, or a call of the store of the tasks
or of the chat. -/
inductive HeartbeatCall where
  | runOnce (force : Bool)
  | configure (args : ConfigureArgs)
  | create (queue : String) (new : HeartbeatTaskStore.NewTask)
  | setEnabled (queue taskId : String) (enabled : Bool)
  | remove (queue taskId : String)
  | chat (sessionId : String) (call : ChatCall)

inductive HeartbeatAnswer where
  | reported (report : Report)
  | configured (state : HeartbeatState)
  | task (task : HeartbeatTask)
  | chat (answer : ChatAnswer)

def HeartbeatCall.prog (platform : Platform) (files : Files σ) (process : π) :
    HeartbeatCall → HeartbeatProg π σ HeartbeatAnswer
  | .runOnce force => .reported <$> Heartbeat.runOnce platform files process force
  | .configure args => .configured <$> (configureHeartbeat platform files process args).inl
  | .create queue new => .task <$> HeartbeatTaskStore.create process (files.tasks queue) new
  | .setEnabled queue taskId enabled =>
    .task <$> (HeartbeatTaskStore.setEnabled process (files.tasks queue) taskId enabled).inl
  | .remove queue taskId =>
    .task <$> (HeartbeatTaskStore.remove process (files.tasks queue) taskId).inl
  | .chat sessionId call =>
    .chat <$> (call.prog platform.floatText process (files.chat sessionId)).inl

end OmniDoer.Heartbeat
