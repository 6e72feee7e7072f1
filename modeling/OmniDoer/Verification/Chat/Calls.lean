import OmniDoer.Model.Chat
import OmniDoer.Verification.StateIo.Queue

/-! # The chat store

What the calls of the chat store may write: a message with a record about it, a record, or
what was loaded; each time pruned. -/

namespace OmniDoer.Chat

open Py Effects Tables Queues StateIo ChatStore

variable {π σ : Type}

def chatFile (file : StateFile σ ChatFile) : Shared σ Payload := viewed file loadPayload

def saved (now : ℚ) (payload : Payload) : Payload := loadPayload (some (pruned now payload))

def messageName (id : String) : String := "msg_" ++ id

def recordName (id : String) : String := "rec_" ++ id

def ChatCall.target : ChatCall → Option String
  | .appendDelta messageId _ | .complete messageId _ | .cancel messageId => some messageId
  | _ => none

def ChatCall.adds : ChatCall → ℕ
  | .append _ => 1
  | _ => 0

/-- The three ways of the calls: to put a message with a record about it, to note a record,
or only to prune. -/
inductive Way where
  | put
  | note
  | prune

def ChatCall.way : ChatCall → Way
  | .appendRecord .. => .note
  | .pruneNow => .prune
  | _ => .put

/-- The message that a call puts among those it loaded: a new one, or one of the loaded
that is not queued any more. -/
inductive Puts (issued : List String) (before : Payload) (message : ChatMessage) : ℕ → Prop
  | new (id : String) (hid : id ∈ issued) (hname : message.messageId = messageName id)
      (hsequence : message.sequence = before.nextSequence) : Puts issued before message 1
  | old (old : ChatMessage) (hold : before.messages.lookup message.messageId = some old)
      (hsequence : message.sequence = old.sequence) (hstatus : message.status ≠ .queued) :
      Puts issued before message 0

/-- The record that a call adds. -/
structure Notes (issued : List String) (before : Payload) (record : ChatRecord) : Prop where
  name : ∃ id ∈ issued, record.recordId = recordName id
  sequence : record.sequence = before.nextRecordSequence

/-- What a call writes over what it loaded, with the message it puts. The times are those
it has read, the last one for the pruning. -/
inductive Writes (call : ChatCall) (issued : List String) :
    List ℚ → Payload → Payload → Option ChatMessage → Prop
  | put {before : Payload} {message : ChatMessage} {record : ChatRecord} {next : ℤ} {t₀ t₁ now : ℚ}
      (hway : call.way = .put) (hputs : Puts issued before message call.adds)
      (hupdated : message.updatedAt = t₀) (hnotes : Notes issued before record)
      (habout : record.messageId = some message.messageId) (hcreated : record.createdAt = t₁) :
      Writes call issued [t₀, t₁, now] before
        (saved now ⟨next, before.messages.insert message, before.nextRecordSequence + 1,
          before.records.insert record⟩) (some message)
  | note {before : Payload} {record : ChatRecord} {t now : ℚ} (hway : call.way = .note)
      (hnotes : Notes issued before record) :
      Writes call issued [t, now] before
        (saved now { before with
          nextRecordSequence := before.nextRecordSequence + 1
          records := before.records.insert record }) none
  | prune {before : Payload} {now : ℚ} (hway : call.way = .prune) :
      Writes call issued [now] before (saved now before) none

def ChatChange (m : Memory π Payload) (before after : Payload) : Prop :=
  ∃ call message, Writes call m.issued m.times before after message

/-- The message that a call returns. -/
def ChatAnswer.message : ChatAnswer → Option ChatMessage
  | .appended message | .claimed message | .streamed message | .completed message
  | .cancelled message => some message
  | .shown message => message
  | .recorded _ | .pruned => none

/-- A queued message waits. -/
def chatQueue : Queue Payload String where
  present payload := {id | (payload.messages.lookup id).isSome = true}
  waiting payload := {id | ∃ message, payload.messages.lookup id = some message ∧
    message.status = .queued}
  waiting_subset := by
    rintro payload id ⟨message, hmessage, -⟩
    exact Option.isSome_iff_exists.2 ⟨message, hmessage⟩

/-- What a call that ends has written. One that returns without writing returns what it
loaded; one that raises has written nothing. -/
def ChatSaved (call : ChatCall) (m : Memory π Payload) : Except Error ChatAnswer → Prop
  | .ok answer =>
    (m.wrote = none ∧ ∀ message ∈ answer.message, (∀ claimed, answer ≠ .claimed claimed) ∧
      ∃ before, m.seen = some before ∧ before.messages.lookup message.messageId = some message) ∨
    ∃ before after, m.wrote = some (before, after) ∧
      Writes call m.issued m.times before after answer.message ∧
      (∀ message ∈ answer.message, ∀ id ∈ call.target, message.messageId = id) ∧
      ∀ message, answer = .claimed message →
        message.status = .claimed ∧ message.messageId ∈ chatQueue.waiting before
  | .error _ => m.wrote = none

section Calls

variable {process : π} {file : StateFile σ ChatFile} {α : Type} {m : Memory π Payload}
variable {post : Memory π Payload → Except Error α → Prop}

theorem load_meets {k : Payload → FileProg π σ α}
    (hok : ∀ payload, (k payload).Meets (updating (chatFile file) process ChatChange) post
      { m with seen := some payload })
    (herror : ∀ e, post { m with seen := none } (.error e)) :
    (ChatStore.load file >>= k).Meets (updating (chatFile file) process ChatChange) post m := by
  rw [load, Prog.bind_assoc]
  exact loading_bind hok herror

variable (call : ChatCall)

theorem save_meets {payload before : Payload} (message : Option ChatMessage)
    {k : Unit → FileProg π σ α} (hheld : m.held = some process) (hwrote : m.wrote = none)
    (hseen : m.seen = some before)
    (hwrites : ∀ now, Writes call m.issued (m.times ++ [now]) before (saved now payload) message)
    (h : ∀ now, (k ()).Meets (updating (chatFile file) process ChatChange) post
      { m with
        seen := none
        times := m.times ++ [now]
        wrote := some (before, saved now payload) }) :
    (ChatStore.save file payload >>= k).Meets (updating (chatFile file) process ChatChange)
      post m := by
  refine time_bind fun now => ?_
  exact writing_bind hheld hwrote hseen ⟨call, message, hwrites now⟩ (h now)

variable {recordType text source : String} {data : RecordData}

theorem newRecord_meets {next : ℤ} {role messageId : Option String}
    {k : ChatRecord → FileProg π σ α}
    (hok : ∀ record id t, record.recordId = recordName id → record.sequence = next →
      record.messageId = messageId → record.createdAt = t →
      (k record).Meets (updating (chatFile file) process ChatChange) post
        { m with issued := m.issued ++ [id], times := m.times ++ [t] })
    (herror : ∀ e, post m (.error e)) :
    (ChatStore.newRecord next recordType text role messageId source data >>= k).Meets
      (updating (chatFile file) process ChatChange) post m := by
  unfold newRecord
  split
  · exact herror _
  · split
    · exact herror _
    · split
      · exact herror _
      · rw [Prog.bind_assoc]
        refine uuid_bind fun id => ?_
        refine time_bind fun t => ?_
        exact hok _ id t rfl rfl rfl rfl

variable {message : ChatMessage}

theorem put_meets {payload : Payload} {next : ℤ} {role : ChatRole} {t₀ : ℚ}
    {k : Unit → FileProg π σ α} (hheld : m.held = some process) (hwrote : m.wrote = none)
    (hseen : m.seen = some payload) (htimes : m.times = [t₀])
    (hway : call.way = .put) (hputs : ∀ id, Puts (m.issued ++ [id]) payload message call.adds)
    (hupdated : message.updatedAt = t₀)
    (hok : ∀ id t now after,
      Writes call (m.issued ++ [id]) [t₀, t, now] payload after (some message) →
      (k ()).Meets (updating (chatFile file) process ChatChange) post
        { m with seen := none, issued := m.issued ++ [id], times := [t₀, t, now]
                 wrote := some (payload, after) })
    (herror : ∀ e, post m (.error e)) :
    (ChatStore.put file payload message next recordType text role source data >>= k).Meets
      (updating (chatFile file) process ChatChange) post m := by
  rw [put, Prog.bind_assoc]
  refine newRecord_meets (fun record id t hname hsequence habout hcreated => ?_) herror
  have hwrites (now : ℚ) : Writes call (m.issued ++ [id]) [t₀, t, now] payload
      (saved now ⟨next, payload.messages.insert message, payload.nextRecordSequence + 1,
        payload.records.insert record⟩) (some message) :=
    .put hway (hputs id) hupdated ⟨⟨id, by simp, hname⟩, hsequence⟩ habout hcreated
  refine save_meets call (some message) hheld hwrote hseen ?_ fun now => ?_
  · intro now
    rw [htimes]
    exact hwrites now
  · have h := hok id t now _ (hwrites now)
    rw [htimes]
    exact h

theorem append_meets (floatText : ℚ → String) (new : NewMessage) (process : π)
    (file : StateFile σ ChatFile) :
    (ChatStore.append floatText process file new).Meets
      (updating (chatFile file) process ChatChange)
      (fun m r => ChatSaved (.append new) m (r.map .appended)) .start := by
  unfold append
  generalize normalizeAttachments new.attachments = attachments
  dsimp only
  generalize (if new.role = "user" then appendAttachmentsToText floatText new.text attachments
    else new.text) = cleaned
  split
  · rfl
  · split
    · rfl
    · split
      · rfl
      · split
        · rfl
        · refine lockedStateFile_meets rfl rfl ?_
          refine load_meets (fun payload => ?_) fun _ => ⟨rfl, rfl⟩
          refine time_bind fun now => uuid_bind fun id => ?_
          refine put_meets (.append new) rfl rfl rfl rfl rfl
            (fun _ => .new id (by simp) rfl rfl) rfl
            ?_ fun _ => ⟨rfl, rfl⟩
          intro _ _ _ after hwrites
          exact ⟨rfl, .inr ⟨payload, after, rfl, hwrites, fun _ _ _ h => (nomatch h),
            fun _ h => (nomatch h)⟩⟩

/-- What `next_user_message` returns as claimed. -/
def claimedAnswer (claim : Bool) : Option ChatMessage → ChatAnswer
  | some message => if claim then .claimed message else .shown (some message)
  | none => .shown none

theorem nextUserMessage_meets (claim : Bool) :
    (ChatStore.nextUserMessage process file claim).Meets
      (updating (chatFile file) process ChatChange)
      (fun m r => ChatSaved (.nextUserMessage claim) m (r.map (claimedAnswer claim))) .start := by
  refine lockedStateFile_meets rfl rfl ?_
  refine load_meets (fun payload => ?_) fun _ => ⟨rfl, rfl⟩
  split
  · exact ⟨rfl, .inl ⟨rfl, fun _ h => (nomatch h)⟩⟩
  · rename_i message rest hpending
    have hmem := hpending ▸ List.mem_cons_self
    rw [pendingUserMessages, List.mem_insertionSort, List.mem_filter, Bool.and_eq_true,
      decide_eq_true_eq, decide_eq_true_eq] at hmem
    have hstored := Table.lookup_eq_some_iff.2 ⟨hmem.1, rfl⟩
    have hqueued := hmem.2.2
    cases claim with
    | false =>
      refine ⟨rfl, .inl ⟨rfl, ?_⟩⟩
      intro found hfound
      have hsame : message = found := Option.some.inj hfound
      rw [← hsame]
      exact ⟨fun _ h => (nomatch h), payload, rfl, hstored⟩
    | true =>
      refine time_bind fun now => ?_
      refine put_meets (.nextUserMessage true) rfl rfl rfl rfl rfl
        (fun _ => .old message hstored rfl fun h => (nomatch h)) rfl ?_ fun _ => ⟨rfl, rfl⟩
      intro _ _ _ after hwrites
      refine ⟨rfl, .inr ⟨payload, after, rfl, hwrites, fun _ _ _ h => (nomatch h), ?_⟩⟩
      intro claimed hclaimed
      rw [← ChatAnswer.claimed.inj hclaimed]
      exact ⟨rfl, message, hstored, hqueued⟩

/-- What a call that has loaded under the lock leaves behind: when it ends, the lock is
released. -/
abbrev Released (process : π) (call : ChatCall) (answer : ChatMessage → ChatAnswer)
    (m : Memory π Payload) (r : Except Error ChatMessage) : Prop :=
  m.held = some process ∧ ChatSaved call ({ m with held := none } : Memory π Payload) (r.map answer)

/-- A message with another status at a time. -/
structure Changed (message : ChatMessage) (now : ℚ) (changed : ChatMessage) : Prop where
  messageId : changed.messageId = message.messageId
  sequence : changed.sequence = message.sequence
  status : changed.status ≠ .queued
  updatedAt : changed.updatedAt = now

theorem change_meets {payload : Payload} {messageId : String} (hway : call.way = .put)
    (hadds : call.adds = 0) (htarget : call.target = some messageId)
    (hstored : payload.messages.lookup messageId = some message) {changed : ℚ → ChatMessage}
    {role : ChatRole} {answer : ChatMessage → ChatAnswer}
    (hanswer : ∀ message, (answer message).message = some message ∧
      ∀ claimed, answer message ≠ .claimed claimed)
    (hchanged : ∀ now, Changed message now (changed now)) :
    (do
      let now ← time
      ChatStore.put file payload (changed now) payload.nextSequence recordType text role source data
      return changed now : FileProg π σ ChatMessage).Meets
        (updating (chatFile file) process ChatChange)
      (Released process call answer)
      ⟨some process, some payload, [], [], none⟩ := by
  refine time_bind fun now => ?_
  have hkey : (changed now).messageId = messageId := by
    rw [(hchanged now).messageId, Table.key_of_lookup hstored]
  have hold : payload.messages.lookup (changed now).messageId = some message := by
    rw [hkey, hstored]
  refine put_meets call rfl rfl rfl rfl hway (fun _ => ?_) (hchanged now).updatedAt ?_
    fun _ => ⟨rfl, rfl⟩
  · rw [hadds]
    exact .old message hold (hchanged now).sequence (hchanged now).status
  intro _ _ _ after hwrites
  obtain ⟨hmessage, hclaimed⟩ := hanswer (changed now)
  refine ⟨rfl, .inr ⟨payload, after, rfl, ?_, ?_, fun _ h => (hclaimed _ h).elim⟩⟩
  · rw [hmessage]
    exact hwrites
  · rw [hmessage, htarget]
    rintro _ ⟨⟩ _ ⟨⟩
    exact hkey

theorem appendDelta_meets (messageId delta : String) :
    (ChatStore.appendDelta process file messageId delta).Meets
      (updating (chatFile file) process ChatChange)
      (fun m r => ChatSaved (.appendDelta messageId delta) m (r.map .streamed)) .start := by
  unfold appendDelta
  split
  · refine load_meets (fun payload => ?_) fun _ => rfl
    split
    · rename_i message hstored
      refine .inl ⟨rfl, ?_⟩
      intro found hfound
      have hsame : message = found := Option.some.inj hfound
      rw [← hsame]
      refine ⟨fun _ h => (by cases h), payload, rfl, ?_⟩
      rw [Table.key_of_lookup hstored, hstored]
    · rfl
  · refine lockedStateFile_meets rfl rfl ?_
    refine load_meets (fun payload => ?_) fun _ => ⟨rfl, rfl⟩
    split
    · exact ⟨rfl, rfl⟩
    · rename_i message hstored
      split
      · exact ⟨rfl, rfl⟩
      · split
        · exact ⟨rfl, rfl⟩
        · split
          · exact ⟨rfl, rfl⟩
          · refine change_meets (.appendDelta messageId delta) rfl rfl rfl hstored ?_ ?_
            · exact fun _ => ⟨rfl, fun _ h => (by cases h)⟩
            · exact fun now => ⟨rfl, rfl, fun h => (by cases h), rfl⟩

theorem complete_meets (messageId : String) (text : Option String) :
    (ChatStore.complete process file messageId text).Meets
      (updating (chatFile file) process ChatChange)
      (fun m r => ChatSaved (.complete messageId text) m (r.map .completed)) .start := by
  refine lockedStateFile_meets rfl rfl ?_
  refine load_meets (fun payload => ?_) fun _ => ⟨rfl, rfl⟩
  split
  · exact ⟨rfl, rfl⟩
  · rename_i message hstored
    split
    · exact ⟨rfl, rfl⟩
    · dsimp only
      refine change_meets (.complete messageId text) rfl rfl rfl hstored ?_ ?_
      · exact fun _ => ⟨rfl, fun _ h => (nomatch h)⟩
      · exact fun now => ⟨rfl, rfl, fun h => (nomatch h), rfl⟩

theorem cancel_meets (messageId : String) :
    (ChatStore.cancel process file messageId).Meets (updating (chatFile file) process ChatChange)
      (fun m r => ChatSaved (.cancel messageId) m (r.map .cancelled)) .start := by
  refine lockedStateFile_meets rfl rfl ?_
  refine load_meets (fun payload => ?_) fun _ => ⟨rfl, rfl⟩
  split
  · exact ⟨rfl, rfl⟩
  · rename_i message hstored
    refine change_meets (.cancel messageId) rfl rfl rfl hstored ?_ ?_
    · exact fun _ => ⟨rfl, fun _ h => (nomatch h)⟩
    · exact fun now => ⟨rfl, rfl, fun h => (nomatch h), rfl⟩

theorem appendRecord_meets (recordType text : String) (role messageId : Option String)
    (source : String) (data : Dict) :
    (ChatStore.appendRecord process file recordType text role messageId source data).Meets
      (updating (chatFile file) process ChatChange)
      (fun m r => ChatSaved (.appendRecord recordType text role messageId source data) m
        (r.map .recorded)) .start := by
  refine lockedStateFile_meets rfl rfl ?_
  refine load_meets (fun payload => ?_) fun _ => ⟨rfl, rfl⟩
  refine newRecord_meets (fun record id t hname hsequence _ _ => ?_) fun _ => ⟨rfl, rfl⟩
  have hwrites (now : ℚ) : Writes (.appendRecord recordType text role messageId source data)
      ([] ++ [id]) [t, now] payload
      (saved now { payload with
        nextRecordSequence := payload.nextRecordSequence + 1
        records := payload.records.insert record }) none :=
    .note rfl ⟨⟨id, by simp, hname⟩, hsequence⟩
  refine save_meets _ none rfl rfl rfl hwrites fun now => ?_
  exact ⟨rfl, .inr ⟨payload, _, rfl, hwrites now, fun _ h => (nomatch h), fun _ h => (nomatch h)⟩⟩

theorem pruneNow_meets :
    (ChatStore.pruneNow process file).Meets (updating (chatFile file) process ChatChange)
      (fun m r => ChatSaved .pruneNow m (r.map fun _ => .pruned)) .start := by
  refine lockedStateFile_meets rfl rfl ?_
  refine load_meets (fun payload => ?_) fun _ => ⟨rfl, rfl⟩
  refine save_meets (k := .pure) .pruneNow none rfl rfl rfl (fun _ => .prune rfl) fun now => ?_
  exact ⟨rfl, .inr ⟨payload, _, rfl, .prune rfl, fun _ h => (nomatch h), fun _ h => (nomatch h)⟩⟩

end Calls

theorem ChatCall.meets (floatText : ℚ → String) (process : π) (file : StateFile σ ChatFile)
    (call : ChatCall) :
    (call.prog floatText process file).Meets (updating (chatFile file) process ChatChange)
      (ChatSaved call) .start := by
  cases call with
  | append new =>
    have h := append_meets floatText new process file
    rw [ChatCall.prog]
    exact h.map
  | nextUserMessage claim => exact (nextUserMessage_meets claim).map
  | appendDelta messageId delta => exact (appendDelta_meets messageId delta).map
  | complete messageId text => exact (complete_meets messageId text).map
  | cancel messageId => exact (cancel_meets messageId).map
  | appendRecord recordType text role messageId source data =>
    exact (appendRecord_meets recordType text role messageId source data).map
  | pruneNow => exact pruneNow_meets.map

end OmniDoer.Chat
