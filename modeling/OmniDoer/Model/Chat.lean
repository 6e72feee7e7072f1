import OmniDoer.Library.PyJson
import OmniDoer.Library.Table
import OmniDoer.Model.StateIo

/-! # Chat

The model of `ChatStore` of `omni_control/chat.py` for a store opened by its path, with the
attachments of `omni_control/chat_uploads.py`. Every save prunes what it writes. -/

namespace OmniDoer.Chat

open Py Effects Tables StateIo

def maxChatTextLength : ℕ := 2 ^ 20

def maxChatMessages : ℕ := 80

def maxChatRecords : ℕ := 140

def chatRetentionSeconds : ℚ := 3 * 24 * 60 * 60

structure Attachment where
  uploadId : String
  filename : String
  path : String
  size : ℤ
  contentType : String
  createdAt : ℚ
  expiresAt : ℚ
  deriving DecidableEq, Repr

/-- An attachment with its texts stripped, unless it lacks a name or a path. -/
def Attachment.normalize (attachment : Attachment) : Option Attachment :=
  let filename := strip attachment.filename
  let path := strip attachment.path
  if filename = "" ∨ path = "" then none
  else some { attachment with filename, path, size := max 0 attachment.size }

def normalizeAttachments (attachments : List Attachment) : List Attachment :=
  attachments.filterMap Attachment.normalize

/-- The lines about one attachment. `floatText` is the text Python prints for a float. -/
def Attachment.lines (floatText : ℚ → String) (attachment : Attachment) : List String :=
  ["- filename: " ++ attachment.filename, "  path: " ++ attachment.path,
    "  size: " ++ toString attachment.size ++ " bytes"] ++
    (if attachment.contentType = "" then [] else ["  content_type: " ++ attachment.contentType]) ++
    if attachment.expiresAt = 0 then []
    else ["  expires_at: " ++ floatText attachment.expiresAt]

def attachmentSummaryText (floatText : ℚ → String) (attachments : List Attachment) : String :=
  match normalizeAttachments attachments with
  | [] => ""
  | normalized => "\n".intercalate ("[Attachments]" :: normalized.flatMap (·.lines floatText))

def appendAttachmentsToText (floatText : ℚ → String) (text : String)
    (attachments : List Attachment) : String :=
  let cleaned := strip text
  let summary := attachmentSummaryText floatText attachments
  if summary = "" then cleaned
  else if cleaned = "" then summary
  else cleaned ++ "\n\n" ++ summary

inductive ChatRole where
  | user
  | assistant
  | system
  deriving DecidableEq, Repr

def ChatRole.name : ChatRole → String
  | .user => "user"
  | .assistant => "assistant"
  | .system => "system"

def ChatRole.ofName (name : String) : Option ChatRole :=
  [ChatRole.user, .assistant, .system].find? (·.name = name)

inductive ChatStatus where
  | queued
  | claimed
  | streaming
  | completed
  | cancelled
  deriving DecidableEq, Repr

def ChatStatus.name : ChatStatus → String
  | .queued => "queued"
  | .claimed => "claimed"
  | .streaming => "streaming"
  | .completed => "completed"
  | .cancelled => "cancelled"

def ChatStatus.ofName (name : String) : Option ChatStatus :=
  [ChatStatus.queued, .claimed, .streaming, .completed, .cancelled].find? (·.name = name)

inductive RecordType where
  | message
  | delta
  | status
  | toolCall
  | toolOutput
  | error
  | note
  | terminal
  deriving DecidableEq, Repr

def RecordType.name : RecordType → String
  | .message => "message"
  | .delta => "delta"
  | .status => "status"
  | .toolCall => "tool_call"
  | .toolOutput => "tool_output"
  | .error => "error"
  | .note => "note"
  | .terminal => "terminal"

def RecordType.ofName (name : String) : Option RecordType :=
  [RecordType.message, .delta, .status, .toolCall, .toolOutput, .error, .note, .terminal].find?
    (·.name = name)

structure ChatMessage where
  messageId : String
  sequence : ℤ
  role : ChatRole
  text : String
  status : ChatStatus := .completed
  source : String := "control_client"
  authorDeviceId : Option String := none
  clientMessageId : Option String := none
  replyToMessageId : Option String := none
  attachments : List Attachment := []
  createdAt : ℚ := 0
  updatedAt : ℚ := 0
  claimedAt : Option ℚ := none
  completedAt : Option ℚ := none
  deriving DecidableEq, Repr

/-- The data of a record: the status it reports, with the attachments of a new message, or
what `append_record` was given. -/
inductive RecordData where
  | status (status : ChatStatus)
  | message (status : ChatStatus) (attachments : List Attachment)
  | given (data : Dict)

structure ChatRecord where
  recordId : String
  sequence : ℤ
  recordType : RecordType
  text : String := ""
  role : Option ChatRole := none
  messageId : Option String := none
  source : String := "agent"
  data : RecordData := .given []
  createdAt : ℚ := 0

abbrev Messages := Table ChatMessage.messageId

abbrev Records := Table ChatRecord.recordId

/-- What the file holds: everything, or in older files the messages alone. -/
inductive ChatFile where
  | payload (nextSequence : Option ℤ) (messages : Messages) (nextRecordSequence : Option ℤ)
      (records : Records)
  | bare (messages : Messages)

structure Payload where
  nextSequence : ℤ
  messages : Messages
  nextRecordSequence : ℤ
  records : Records

/-- `int(value or 1)`. -/
def orOne : Option ℤ → ℤ
  | some n => if n = 0 then 1 else n
  | none => 1

/-- The next number is above all that are used. -/
def nextAfter (next : ℤ) : List ℤ → ℤ
  | [] => next
  | s :: rest => max next (rest.foldl max s + 1)

/-- `_load_payload` of what the file holds; there may be no file. -/
def loadPayload : Option ChatFile → Payload
  | none => ⟨1, .empty, 1, .empty⟩
  | some (.payload nextSequence messages nextRecordSequence records) =>
    { nextSequence := nextAfter (orOne nextSequence) (messages.rows.map (·.sequence))
      messages
      nextRecordSequence := nextAfter (orOne nextRecordSequence) (records.rows.map (·.sequence))
      records }
  | some (.bare messages) =>
    ⟨nextAfter 1 (messages.rows.map (·.sequence)), messages, 1, .empty⟩

/-- `client_message_id` prefixes: an interruption goes first, then the other controls. -/
def controlMessagePriority (message : ChatMessage) : ℕ :=
  let id := message.clientMessageId.getD ""
  if id.startsWith "control_pause_" || id.startsWith "omnidoer_pause_" then 0
  else if id.startsWith "control_continue_" || id.startsWith "control_cli_" then 1
  else 2

/-- The statuses that `_prune` keeps whatever their age. -/
def ChatStatus.isActive : ChatStatus → Bool
  | .queued | .streaming => true
  | _ => false

def activeMessageIds (messages : Messages) : List String :=
  (messages.rows.filter (·.status.isActive)).map (·.messageId)

/-- The identifier of the message a record is about; an empty one counts as none. -/
def ChatRecord.about (record : ChatRecord) : Option String := record.messageId.filter (· ≠ "")

/-- The last `n` in the order of their numbers: `sorted(...)[-n:]`. -/
def lastBySequence {α : Type} (sequence : α → ℤ) (n : ℕ) (rows : List α) : List α :=
  let sorted := rows.insertionSort fun a b => sequence a ≤ sequence b
  sorted.drop (sorted.length - n)

/-- The records that `_prune` keeps. -/
def pruneRecords (cutoff : ℚ) (active : List String) (records : Records) : Records :=
  let records := records.filter fun record =>
    record.about.any (· ∈ active) || decide (cutoff ≤ record.createdAt)
  let retained := (lastBySequence ChatRecord.sequence maxChatRecords records.rows).map (·.recordId)
  records.filter fun record => record.recordId ∈ retained

/-- The messages that `_prune` keeps beside the records. -/
def pruneMessages (cutoff : ℚ) (active : List String) (records : Records) (messages : Messages) :
    Messages :=
  let messages := messages.filter fun message =>
    message.messageId ∈ active || decide (cutoff ≤ max message.createdAt message.updatedAt)
  let referenced := records.rows.filterMap ChatRecord.about
  let recent :=
    (lastBySequence ChatMessage.sequence maxChatMessages messages.rows).map (·.messageId)
  messages.filter fun message =>
    message.messageId ∈ active || message.messageId ∈ referenced || message.messageId ∈ recent

/-- `_prune` at a time. -/
def prune (now : ℚ) (messages : Messages) (records : Records) : Messages × Records :=
  let cutoff := now - chatRetentionSeconds
  let active := activeMessageIds messages
  let records := pruneRecords cutoff active records
  (pruneMessages cutoff active records messages, records)

/-- What `_save` writes at a time. -/
def pruned (now : ℚ) (payload : Payload) : ChatFile :=
  let kept := prune now payload.messages payload.records
  .payload (some payload.nextSequence) kept.1.sorted (some payload.nextRecordSequence) kept.2.sorted

/-- The arguments of `append`. -/
structure NewMessage where
  role : String
  text : String
  status : Option String := none
  source : String := "control_client"
  authorDeviceId : Option String := none
  clientMessageId : Option String := none
  replyToMessageId : Option String := none
  attachments : List Attachment := []

namespace ChatStore

variable {π σ : Type}

def load (file : StateFile σ ChatFile) : FileProg π σ Payload := do
  return loadPayload (← loading file)

def save (file : StateFile σ ChatFile) (payload : Payload) : FileProg π σ Unit := do
  let now ← time
  atomicWriteJson file (pruned now payload)

def pruneNow (process : π) (file : StateFile σ ChatFile) : FileProg π σ Unit :=
  lockedStateFile process file.path do
    save file (← load file)

/-- `_new_record` with its checks. -/
def newRecord (nextRecordSequence : ℤ) (recordType : String) (text : String := "")
    (role : Option String := none) (messageId : Option String := none) (source : String := "agent")
    (data : RecordData := .given []) : FileProg π σ ChatRecord :=
  match RecordType.ofName recordType with
  | none => .raise ⟨.valueError, "invalid chat record type"⟩
  | some recordType =>
    match role.map ChatRole.ofName with
    | some none => .raise ⟨.valueError, "invalid chat role"⟩
    | checked =>
      if maxChatTextLength < text.length then .raise ⟨.valueError, "chat text is too long"⟩
      else do
        let id ← uuid
        let now ← time
        return { recordId := "rec_" ++ id, sequence := nextRecordSequence, recordType, text
                 role := checked.bind fun found => found, messageId, source, data,
                   createdAt := now }

/-- The payload with a message put in its place and a record about it. -/
def put (file : StateFile σ ChatFile) (payload : Payload) (message : ChatMessage)
    (nextSequence : ℤ) (recordType text : String) (role : ChatRole) (source : String)
    (data : RecordData) : FileProg π σ Unit := do
  let record ← newRecord payload.nextRecordSequence recordType text (some role.name)
    (some message.messageId) source data
  save file
    { nextSequence
      messages := payload.messages.insert message
      nextRecordSequence := payload.nextRecordSequence + 1
      records := payload.records.insert record }

def get (file : StateFile σ ChatFile) (messageId : String) : FileProg π σ ChatMessage := do
  match (← load file).messages.lookup messageId with
  | some message => return message
  | none => .raise ⟨.keyError, "chat message not found: " ++ messageId⟩

/-- The last messages, by their numbers. The lock is not taken. -/
def list (file : StateFile σ ChatFile) (limit : ℕ) : FileProg π σ (List ChatMessage) := do
  return lastBySequence ChatMessage.sequence (max 1 (min limit 1000)) (← load file).messages.rows

def listRecords (file : StateFile σ ChatFile) (limit : ℕ) : FileProg π σ (List ChatRecord) := do
  return lastBySequence ChatRecord.sequence (max 1 (min limit maxChatRecords))
    (← load file).records.rows

/-- `status or default`: an empty text counts as none. -/
def orDefault (status : Option String) (default : ChatStatus) : Option ChatStatus :=
  match status with
  | none => some default
  | some name => if name = "" then some default else ChatStatus.ofName name

def append (floatText : ℚ → String) (process : π) (file : StateFile σ ChatFile)
    (new : NewMessage) : FileProg π σ ChatMessage :=
  let attachments := normalizeAttachments new.attachments
  let cleaned :=
    if new.role = "user" then appendAttachmentsToText floatText new.text attachments else new.text
  match ChatRole.ofName new.role with
  | none => .raise ⟨.valueError, "invalid chat role"⟩
  | some role =>
    match orDefault new.status (if role = .user then .queued else .completed) with
    | none => .raise ⟨.valueError, "invalid chat status"⟩
    | some status =>
      if role = .user ∧ cleaned = "" then .raise ⟨.valueError, "chat text is required"⟩
      else if maxChatTextLength < cleaned.length then
        .raise ⟨.valueError, "chat text is too long"⟩
      else lockedStateFile process file.path do
        let payload ← load file
        let now ← time
        let id ← uuid
        let message : ChatMessage :=
          { messageId := "msg_" ++ id, sequence := payload.nextSequence, role, text := cleaned
            status, source := new.source, authorDeviceId := new.authorDeviceId
            clientMessageId := new.clientMessageId, replyToMessageId := new.replyToMessageId
            attachments, createdAt := now, updatedAt := now
            completedAt := if status = .completed then some now else none }
        put file payload message (payload.nextSequence + 1) "message" cleaned role new.source
          (.message status attachments)
        return message

/-- The queued messages of the user, by priority and then by their numbers. -/
def pendingUserMessages (messages : Messages) : List ChatMessage :=
  (messages.rows.filter fun message => message.role = .user &&
    message.status = .queued).insertionSort
    fun a b => controlMessagePriority a < controlMessagePriority b ∨
      controlMessagePriority a = controlMessagePriority b ∧ a.sequence ≤ b.sequence

def nextUserMessage (process : π) (file : StateFile σ ChatFile) (claim : Bool := true) :
    FileProg π σ (Option ChatMessage) :=
  lockedStateFile process file.path do
    let payload ← load file
    match pendingUserMessages payload.messages with
    | [] => return none
    | message :: _ =>
      if claim then
        let now ← time
        let message := { message with status := .claimed, claimedAt := some now, updatedAt := now }
        put file payload message payload.nextSequence "status"
          "User message delivered to local agent." .system "control_service" (.status .claimed)
        return some message
      else return some message

def appendDelta (process : π) (file : StateFile σ ChatFile) (messageId delta : String) :
    FileProg π σ ChatMessage :=
  if delta = "" then get file messageId
  else lockedStateFile process file.path do
    let payload ← load file
    match payload.messages.lookup messageId with
    | none => .raise ⟨.keyError, messageId⟩
    | some message =>
      if message.role ≠ .assistant then
        .raise ⟨.valueError, "only assistant messages can stream"⟩
      else if message.status ≠ .streaming ∧ message.status ≠ .claimed then
        .raise ⟨.valueError, "message is not streaming"⟩
      else if maxChatTextLength < message.text.length + delta.length then
        .raise ⟨.valueError, "chat text is too long"⟩
      else do
        let now ← time
        let message :=
          { message with text := message.text ++ delta, status := .streaming, updatedAt := now }
        put file payload message payload.nextSequence "delta" delta .assistant message.source
          (.status .streaming)
        return message

/-- The text of the record about a completed message. -/
def completionText (role : ChatRole) : String :=
  (if role = .assistant then "Assistant" else "User") ++ " message completed."

def complete (process : π) (file : StateFile σ ChatFile) (messageId : String)
    (text : Option String := none) : FileProg π σ ChatMessage :=
  lockedStateFile process file.path do
    let payload ← load file
    match payload.messages.lookup messageId with
    | none => .raise ⟨.keyError, messageId⟩
    | some message =>
      if text.any fun text => maxChatTextLength < text.length then
        .raise ⟨.valueError, "chat text is too long"⟩
      else do
        let now ← time
        let message :=
          { message with
            text := text.getD message.text, status := .completed, updatedAt := now
            completedAt := some now }
        put file payload message payload.nextSequence "status" (completionText message.role)
          .system "control_service" (.status .completed)
        return message

def cancel (process : π) (file : StateFile σ ChatFile) (messageId : String) :
    FileProg π σ ChatMessage :=
  lockedStateFile process file.path do
    let payload ← load file
    match payload.messages.lookup messageId with
    | none => .raise ⟨.keyError, messageId⟩
    | some message =>
      let now ← time
      let message := { message with status := .cancelled, updatedAt := now }
      put file payload message payload.nextSequence "status" "Chat message cancelled." .system
        "control_service" (.status .cancelled)
      return message

def appendRecord (process : π) (file : StateFile σ ChatFile) (recordType : String)
    (text : String := "") (role messageId : Option String := none) (source : String := "agent")
    (data : Dict := []) : FileProg π σ ChatRecord :=
  lockedStateFile process file.path do
    let payload ← load file
    let record ← newRecord payload.nextRecordSequence recordType text role messageId source
        (.given data)
    save file
      { payload with
        nextRecordSequence := payload.nextRecordSequence + 1
        records := payload.records.insert record }
    return record

end ChatStore

inductive ChatCall where
  | append (new : NewMessage)
  | nextUserMessage (claim : Bool)
  | appendDelta (messageId delta : String)
  | complete (messageId : String) (text : Option String)
  | cancel (messageId : String)
  | appendRecord (recordType text : String) (role messageId : Option String) (source : String)
      (data : Dict)
  | pruneNow

/-- A call's result. What `next_user_message` claims is told from what it only shows. -/
inductive ChatAnswer where
  | appended (message : ChatMessage)
  | claimed (message : ChatMessage)
  | shown (message : Option ChatMessage)
  | streamed (message : ChatMessage)
  | completed (message : ChatMessage)
  | cancelled (message : ChatMessage)
  | recorded (record : ChatRecord)
  | pruned

variable {π σ : Type}

def ChatCall.prog (floatText : ℚ → String) (process : π) (file : StateFile σ ChatFile) :
    ChatCall → FileProg π σ ChatAnswer
  | .append new => .appended <$> ChatStore.append floatText process file new
  | .nextUserMessage claim =>
    (fun
      | some message => if claim then .claimed message else .shown (some message)
      | none => .shown none) <$> ChatStore.nextUserMessage process file claim
  | .appendDelta messageId delta => .streamed <$> ChatStore.appendDelta process file messageId delta
  | .complete messageId text => .completed <$> ChatStore.complete process file messageId text
  | .cancel messageId => .cancelled <$> ChatStore.cancel process file messageId
  | .appendRecord recordType text role messageId source data =>
    .recorded <$> ChatStore.appendRecord process file recordType text role messageId source data
  | .pruneNow => (fun _ => .pruned) <$> ChatStore.pruneNow process file

end OmniDoer.Chat
