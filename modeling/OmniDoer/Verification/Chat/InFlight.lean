import OmniDoer.Verification.Chat.Pruning

/-! # Messages in flight

Runs of the chat store, one call after the other. A queued or streaming message stays in
the file as it was last returned, whatever is called and however late. A claimed message
is treated as a settled one: it stays while it is young, and recent or the subject of a
recent record. -/

namespace OmniDoer.Chat

open Py Effects Tables Queues StateIo List ChatStore Table

section Writes

variable {call : ChatCall} {issued : List String} {times : List ℚ} {before after : Payload}
variable {put : Option ChatMessage} {message : ChatMessage}

/-- The message that was put, or one that was there and is another. -/
def Remains (before : Payload) (put : Option ChatMessage) (message : ChatMessage) : Prop :=
  put = some message ∨
    (∀ other ∈ put, message.messageId ≠ other.messageId) ∧
      before.messages.lookup message.messageId = some message

section

variable (h : Writes call issued times before after put)
include h

theorem Writes.unpruned (hremains : Remains before put message) :
    ∃ payload now, after = saved now payload ∧
      payload.messages.lookup message.messageId = some message := by
  cases h with
  | put hway hputs hupdated hnotes habout hcreated =>
    refine ⟨_, _, rfl, ?_⟩
    rw [lookup_insert]
    rcases hremains with hsame | ⟨hother, hstored⟩
    · rw [if_pos (by rw [Option.some.inj hsame]), hsame]
    · rw [if_neg (hother _ rfl), hstored]
  | note _ _ | prune _ =>
    rcases hremains with hsame | ⟨-, hstored⟩
    · cases hsame
    · exact ⟨_, _, rfl, hstored⟩

theorem Writes.mem_records {record : ChatRecord}
    (hrecord : record ∈ after.records.rows) :
    record ∈ before.records.rows ∨ ∃ id ∈ issued, record.recordId = recordName id := by
  have hinsert {new : ChatRecord} (hnotes : Notes issued before new)
      (hmem : record ∈ (before.records.insert new).rows) :
      record ∈ before.records.rows ∨ ∃ id ∈ issued, record.recordId = recordName id := by
    have hlookup := lookup_eq_some_iff.2 ⟨hmem, rfl⟩
    rw [lookup_insert] at hlookup
    split at hlookup
    · cases hlookup
      exact .inr hnotes.name
    · exact .inl (lookup_eq_some_iff.1 hlookup).1
  cases h with
  | put _ _ _ hnotes | note _ hnotes => exact hinsert hnotes (mem_records_of_saved hrecord)
  | prune _ => exact .inl (mem_records_of_saved hrecord)

end

def Way.notes : Way → ℕ
  | .put | .note => 1
  | .prune => 0

/-- How many times a call reads the clock before it prunes. -/
def Way.readings : Way → ℕ
  | .put => 2
  | .note => 1
  | .prune => 0

/-- The message is young at the time `now`, and also after what the call adds it is among
the last messages, or among the last records there is a young one about it. -/
def Sheltered (payload : Payload) (now : ℚ) (call : ChatCall) (message : ChatMessage) : Prop :=
  now - chatRetentionSeconds ≤ max message.createdAt message.updatedAt ∧
    (payload.messages.rows.countP (fun other => message.sequence ≤ other.sequence) + call.adds ≤
        maxChatMessages ∨
      ∃ record ∈ payload.records.rows, record.about = some message.messageId ∧
        now - chatRetentionSeconds ≤ record.createdAt ∧
        payload.records.rows.countP (fun other => record.sequence ≤ other.sequence) +
          call.way.notes ≤ maxChatRecords)

instance (payload : Payload) (now : ℚ) (call : ChatCall) (message : ChatMessage) :
    Decidable (Sheltered payload now call message) :=
  inferInstanceAs (Decidable (_ ∧ (_ ∨ ∃ record ∈ payload.records.rows, _)))

/-- A sheltered message survives the pruning of a payload with no more messages and records
than the call adds. -/
theorem Sheltered.lookup_saved {payload : Payload} {now : ℚ}
    (h : Sheltered before now call message)
    (hstored : payload.messages.lookup message.messageId = some message)
    (hmessages : payload.messages.rows.countP (fun other => message.sequence ≤ other.sequence) ≤
      before.messages.rows.countP (fun other => message.sequence ≤ other.sequence) + call.adds)
    (hmem : ∀ record ∈ before.records.rows, record ∈ payload.records.rows)
    (hrecords : ∀ p : ChatRecord → Bool, payload.records.rows.countP p ≤
      before.records.rows.countP p + call.way.notes) :
    (saved now payload).messages.lookup message.messageId = some message := by
  rw [lookup_messages_saved]
  refine lookup_prune hstored (.inr h.1) (.inr ?_)
  rcases h.2 with hrecent | ⟨record, hrecord, habout, hyoung, hcount⟩
  · exact .inr (hmessages.trans hrecent)
  · refine .inl (mem_filterMap.2 ⟨record, ?_, habout⟩)
    exact mem_prune_records (hmem record hrecord) hyoung ((hrecords _).trans hcount)

theorem Notes.mem_insert {record : ChatRecord} (h : Notes issued before record)
    (hfresh : ∀ id ∈ issued, ∀ old ∈ before.records.rows, old.recordId ≠ recordName id)
    {old : ChatRecord} (hold : old ∈ before.records.rows) :
    old ∈ (before.records.insert record).rows := by
  obtain ⟨id, hid, hname⟩ := h.name
  have hne : old.recordId ≠ record.recordId := by
    rw [hname]
    exact hfresh id hid old hold
  have hlookup : (before.records.insert record).lookup old.recordId = some old := by
    rw [lookup_insert, if_neg hne]
    exact lookup_eq_some_iff.2 ⟨hold, rfl⟩
  exact (lookup_eq_some_iff.1 hlookup).1

theorem Puts.countP_le {adds : ℕ} {other : ChatMessage}
    (h : Puts issued before other adds) (n : ℤ) :
    (before.messages.insert other).rows.countP (fun x => n ≤ x.sequence) ≤
      before.messages.rows.countP (fun x => n ≤ x.sequence) + adds := by
  cases h with
  | new _ _ _ _ => exact countP_insert_le _ _ _
  | old old hold hsequence _ =>
    exact (countP_insert_of_lookup hold (by simp only [hsequence])).le

/-- The time at which a call prunes, if it starts at a tick. -/
def pruneTime (clock : ℕ → ℚ) (tick : ℕ) (call : ChatCall) : ℚ := clock (tick + call.way.readings)

variable {clock : ℕ → ℚ} {tick : ℕ}

theorem Writes.keeps_sheltered (h : Writes call issued times before after put)
    (htimes : ∀ n t, times[n]? = some t → t = clock (tick + n))
    (hother : ∀ other ∈ put, message.messageId ≠ other.messageId)
    (hstored : before.messages.lookup message.messageId = some message)
    (hfresh : ∀ id ∈ issued, ∀ old ∈ before.records.rows, old.recordId ≠ recordName id)
    (hsheltered : Sheltered before (pruneTime clock tick call) call message) :
    after.messages.lookup message.messageId = some message := by
  have hprune {n : ℕ} {now : ℚ} (hnow : times[n]? = some now) (hn : call.way.readings = n) :
      now = pruneTime clock tick call := by
    rw [pruneTime, hn]
    exact htimes n now hnow
  cases h with
  | @put _ other record _ _ _ now hway hputs _ hnotes _ _ =>
    rw [hprune (n := 2) rfl (by rw [hway]; rfl)]
    refine hsheltered.lookup_saved ?_ (hputs.countP_le _) (fun _ => hnotes.mem_insert hfresh) ?_
    · rw [lookup_insert, if_neg (hother other rfl)]
      exact hstored
    · intro p
      rw [hway]
      exact countP_insert_le _ _ _
  | @note _ record _ now hway hnotes =>
    rw [hprune (n := 1) rfl (by rw [hway]; rfl)]
    refine hsheltered.lookup_saved hstored (Nat.le_add_right _ _)
      (fun _ => hnotes.mem_insert hfresh) fun p => ?_
    rw [hway]
    exact countP_insert_le _ _ _
  | @prune _ now hway =>
    rw [hprune (n := 0) rfl (by rw [hway]; rfl)]
    exact hsheltered.lookup_saved hstored (Nat.le_add_right _ _) (fun _ h => h)
      fun p => Nat.le_add_right _ _

theorem Writes.keeps_put {content : Option ChatFile}
    (h : Writes call issued times (loadPayload content) after (some message))
    (hid : message.messageId ≠ "")
    (hclock : Monotone clock) (htimes : ∀ n t, times[n]? = some t → t = clock (tick + n))
    (hprompt : pruneTime clock tick call - chatRetentionSeconds ≤ clock tick) :
    after.messages.lookup message.messageId = some message := by
  cases h with
  | @put _ _ record _ t₀ t₁ now hway hputs hupdated hnotes habout hcreated =>
    have hstart : t₀ = clock tick := htimes 0 t₀ rfl
    have hyoung : now - chatRetentionSeconds ≤ t₀ := by
      rw [hstart, htimes 2 now rfl]
      rwa [pruneTime, hway] at hprompt
    have hle : t₀ ≤ t₁ := by
      rw [hstart, htimes 1 t₁ rfl]
      exact hclock (Nat.le_add_right _ _)
    rw [lookup_messages_saved]
    refine lookup_prune ?_ (.inr ?_) (.inr (.inl ?_))
    · rw [lookup_insert, if_pos rfl]
    · rw [hupdated]
      exact hyoung.trans (le_max_right _ _)
    · have hmem : record ∈ ((loadPayload content).records.insert record).rows :=
        (lookup_eq_some_iff.1 (lookup_insert_self _ record)).1
      refine mem_filterMap.2 ⟨record, mem_prune_records hmem ?_ ?_, ?_⟩
      · rw [hcreated]
        exact hyoung.trans hle
      · -- all other records have smaller numbers
        have hnone : (loadPayload content).records.rows.countP
            (fun other => record.sequence ≤ other.sequence) = 0 := by
          refine countP_eq_zero.2 fun other hother => ?_
          have hlt := sequence_lt_loadPayload content hother
          rw [hnotes.sequence, decide_eq_true_eq]
          omega
        refine (countP_insert_le _ _ _).trans ?_
        rw [hnone]
        decide
      · rw [ChatRecord.about, habout, Option.filter_some, if_pos (by simpa using hid)]

end Writes

variable {π σ : Type} [DecidableEq π]

/-- A world, and for each message the row that was returned last. -/
structure History (π σ : Type) where
  world : World π σ
  latest : Messages

def answered (latest : Messages) : Except Error ChatAnswer → Messages
  | .ok answer => answer.message.elim latest latest.insert
  | .error _ => latest

variable (env : Env) (floatText : ℚ → String) (process : π) (file : StateFile σ ChatFile)

def perform (s : History π σ) (call : ChatCall) : History π σ :=
  let ended := (call.prog floatText process file).run (exec env) s.world
  ⟨ended.2, answered s.latest ended.1⟩

def payloadOf (w : World π σ) : Except Error Payload := (chatFile file).view (w.files file.path)

def InFile (w : World π σ) (message : ChatMessage) : Prop :=
  ∃ payload, payloadOf file w = .ok payload ∧
    payload.messages.lookup message.messageId = some message

/-- What a call does: it leaves the file as it is and returns, if a message, one of the
file; or it writes. -/
inductive Performs (s s' : History π σ) (call : ChatCall) : Prop
  | rests (hfile : payloadOf file s'.world = payloadOf file s.world)
      (hissued : s.world.issued ≤ s'.world.issued)
      (hlatest : ∀ message, s'.latest.lookup message.messageId = some message →
        s.latest.lookup message.messageId = some message ∨ InFile file s.world message)
  | writes (before after : Payload) (put : Option ChatMessage) (issued : List String)
      (times : List ℚ) (hbefore : payloadOf file s.world = .ok before)
      (hafter : payloadOf file s'.world = .ok after)
      (hwrites : Writes call issued times before after put)
      (htarget : ∀ message ∈ put, ∀ id ∈ call.target, message.messageId = id)
      (htimes : ∀ n t, times[n]? = some t → t = env.clock (s.world.tick + n))
      (hle : s.world.issued ≤ s'.world.issued)
      (hissued : ∀ id ∈ issued, ∃ n, s.world.issued ≤ n ∧ n < s'.world.issued ∧ id = env.ids n)
      (hlatest : s'.latest = put.elim s.latest s.latest.insert)

theorem perform_performs (s : History π σ) (call : ChatCall) :
    Performs env file s (perform env floatText process file s call) call := by
  obtain ⟨m, halone, hsaved⟩ := alone_run env (call.meets floatText process file) s.world
  unfold perform
  generalize (call.prog floatText process file).run (exec env) s.world = ended at halone hsaved ⊢
  obtain ⟨r, w⟩ := ended
  have hcount : w.issued = s.world.issued + m.issued.length := halone.count
  have hle : s.world.issued ≤ w.issued := hcount ▸ Nat.le_add_right _ _
  have hrests (hwrote : m.wrote = none) : payloadOf file w = payloadOf file s.world :=
    congrArg (chatFile file).view (halone.unwritten hwrote)
  cases r with
  | error e => exact .rests (hrests hsaved) hle fun _ h => .inl h
  | ok answer =>
    rcases hsaved with ⟨hwrote, hshown⟩ | ⟨before, after, hwrote, hwrites, htarget, -⟩
    · refine .rests (hrests hwrote) hle fun message hmessage => ?_
      change (answer.message.elim s.latest s.latest.insert).lookup _ = _ at hmessage
      cases hanswer : answer.message with
      | none =>
        rw [hanswer] at hmessage
        exact .inl hmessage
      | some shown =>
        obtain ⟨-, payload, hseen, hstored⟩ := hshown shown hanswer
        rw [hanswer, Option.elim_some, lookup_insert] at hmessage
        split at hmessage
        · cases hmessage
          exact .inr ⟨payload, halone.seen payload hseen hwrote, hstored⟩
        · exact .inl hmessage
    · obtain ⟨hbefore, hafter⟩ := halone.written before after hwrote
      refine .writes before after answer.message m.issued m.times hbefore hafter hwrites htarget
        halone.times hle ?_ rfl
      intro id hid
      obtain ⟨n, hn⟩ := mem_iff_getElem?.1 hid
      have hlt := (List.getElem?_eq_some_iff.1 hn).1
      refine ⟨s.world.issued + n, Nat.le_add_right _ _, ?_, halone.issued n id hn⟩
      rw [hcount]
      omega

/-- The file can be read, its record identifiers are known, and the active messages are in
it. `initial` are the identifiers of the records at the start. -/
structure Tracked (initial : Set String) (s : History π σ) : Prop where
  readable : ∃ payload, payloadOf file s.world = .ok payload
  records : ∀ payload, payloadOf file s.world = .ok payload → ∀ record ∈ payload.records.rows,
    record.recordId ∈ initial ∨ ∃ n < s.world.issued, record.recordId = recordName (env.ids n)
  active : ∀ message, s.latest.lookup message.messageId = some message →
    message.status.isActive = true → InFile file s.world message

variable {env file} {initial : Set String} {s s' : History π σ} {call : ChatCall}

omit [DecidableEq π] in
theorem remains_of_latest {put : Option ChatMessage} {before : Payload} {message : ChatMessage}
    (hbefore : payloadOf file s.world = .ok before)
    (hlatest : s'.latest = put.elim s.latest s.latest.insert)
    (hmessage : s'.latest.lookup message.messageId = some message)
    (hold : s.latest.lookup message.messageId = some message → InFile file s.world message) :
    Remains before put message := by
  have hkept (h : s.latest.lookup message.messageId = some message) :
      before.messages.lookup message.messageId = some message := by
    obtain ⟨payload, hpayload, hstored⟩ := hold h
    rw [hbefore] at hpayload
    cases hpayload
    exact hstored
  cases put with
  | none =>
    rw [hlatest] at hmessage
    exact .inr ⟨fun _ h => (nomatch h), hkept hmessage⟩
  | some other =>
    rw [hlatest, Option.elim_some, lookup_insert] at hmessage
    split at hmessage
    · cases hmessage
      exact .inl rfl
    · rename_i hne
      refine .inr ⟨?_, hkept hmessage⟩
      rintro _ ⟨⟩
      exact hne

omit [DecidableEq π] in
theorem Tracked.step (h : Tracked env file initial s) (hperforms : Performs env file s s' call) :
    Tracked env file initial s' := by
  cases hperforms with
  | rests hfile hissued hlatest =>
    constructor
    · rw [hfile]
      exact h.readable
    · intro payload hpayload record hrecord
      rw [hfile] at hpayload
      refine (h.records payload hpayload record hrecord).imp_right ?_
      rintro ⟨n, hn, hname⟩
      exact ⟨n, by omega, hname⟩
    · intro message hmessage hactive
      rw [InFile, hfile]
      rcases hlatest message hmessage with hold | hfound
      · exact h.active message hold hactive
      · exact hfound
  | writes before after put issued times hbefore hafter hwrites _ _ hle hissued hlatest =>
    refine ⟨⟨after, hafter⟩, ?_, ?_⟩
    · intro payload hpayload record hrecord
      rw [hafter] at hpayload
      cases hpayload
      rcases hwrites.mem_records hrecord with hold | ⟨id, hid, hname⟩
      · refine (h.records before hbefore record hold).imp_right ?_
        rintro ⟨n, hn, hname⟩
        exact ⟨n, by omega, hname⟩
      · obtain ⟨n, -, hn, rfl⟩ := hissued id hid
        exact .inr ⟨n, hn, hname⟩
    · intro message hmessage hactive
      have hremains := remains_of_latest hbefore hlatest hmessage fun hold =>
        h.active message hold hactive
      obtain ⟨payload, now, rfl, hstored⟩ := hwrites.unpruned hremains
      have hid := (mem_activeMessageIds hstored).2 hactive
      refine ⟨_, hafter, ?_⟩
      rw [lookup_messages_saved]
      exact lookup_prune hstored (.inl hid) (.inl hid)

variable (env file) in
/-- The call takes at most three days, and if it is not about the message `id`, claimed by
somebody, then the message is sheltered. -/
def Spared (id : String) (s : History π σ) (call : ChatCall) : Prop :=
  pruneTime env.clock s.world.tick call - chatRetentionSeconds ≤ env.clock s.world.tick ∧
    ∀ payload ∈ (payloadOf file s.world).toOption, ∀ message ∈ payload.messages.lookup id,
      message.status = .claimed → call.target ≠ some id →
      Sheltered payload (pruneTime env.clock s.world.tick call) call message

instance (id : String) (s : History π σ) (call : ChatCall) :
    Decidable (Spared env file id s call) :=
  inferInstanceAs (Decidable (_ ∧ ∀ payload ∈ (payloadOf file s.world).toOption,
    ∀ message ∈ payload.messages.lookup id, _))

variable (file) in
def Held (id : String) (s : History π σ) : Prop :=
  ∀ message, s.latest.lookup id = some message → message.status = .claimed →
    InFile file s.world message

variable {w : World π σ} {payload : Payload} (h : payloadOf file w = .ok payload)

include h in
omit [DecidableEq π] in
theorem read_of_payloadOf :
    ∃ content, file.read (w.files file.path) = .ok content ∧ loadPayload content = payload := by
  have hread : (file.read (w.files file.path)).map loadPayload = .ok payload := h
  cases hcontent : file.read (w.files file.path) with
  | error e =>
    rw [hcontent] at hread
    cases hread
  | ok content =>
    rw [hcontent] at hread
    exact ⟨content, rfl, Except.ok.inj hread⟩

omit [DecidableEq π] in
theorem Held.step (hids : Function.Injective env.ids) (hclock : Monotone env.clock)
    (hnew : ∀ n, recordName (env.ids n) ∉ initial) {id : String} (hid : id ≠ "")
    (htracked : Tracked env file initial s) (h : Held file id s)
    (hspared : Spared env file id s call)
    (hperforms : Performs env file s s' call) : Held file id s' := by
  intro message hmessage hclaimed
  have hkey : message.messageId = id := key_of_lookup hmessage
  rw [← hkey] at hmessage h hspared hid
  cases hperforms with
  | rests hfile _ hlatest =>
    rw [InFile, hfile]
    rcases hlatest message hmessage with hold | hfound
    · exact h message hold hclaimed
    · exact hfound
  | writes before after put issued times hbefore hafter hwrites htarget htimes _ hissued hlatest =>
    refine ⟨after, hafter, ?_⟩
    rcases remains_of_latest hbefore hlatest hmessage fun hold => h message hold hclaimed with
      hsame | ⟨hother, hstored⟩
    · rw [hsame] at hwrites
      obtain ⟨content, -, rfl⟩ := read_of_payloadOf hbefore
      exact hwrites.keeps_put hid hclock htimes hspared.1
    · refine hwrites.keeps_sheltered htimes hother hstored ?_ ?_
      · -- the identifier of the new record is not among those in the file
        intro u hu old hold heq
        obtain ⟨n, hn, -, rfl⟩ := hissued u hu
        rcases htracked.records before hbefore old hold with hinitial | ⟨k, hk, hname⟩
        · exact hnew n (heq ▸ hinitial)
        · have hsame : recordName (env.ids k) = recordName (env.ids n) := hname.symm.trans heq
          have := hids ((String.append_right_inj "rec_").1 hsame)
          omega
      · refine hspared.2 before (by rw [hbefore]; rfl) message hstored hclaimed ?_
        intro htargeted
        cases hput : put with
        | none =>
          rw [hput] at hwrites
          cases hwrites with
          | note hway _ | prune hway =>
            cases call with
            | appendRecord | pruneNow => cases htargeted
            | _ => cases hway
        | some other =>
          exact hother other hput (htarget other hput message.messageId htargeted).symm

include h in
theorem run_load :
    (ChatStore.load file : FileProg π σ Payload).run (exec env) w = (.ok payload, w) := by
  obtain ⟨content, hcontent, rfl⟩ := read_of_payloadOf h
  change (Prog.ofExcept (file.read (w.files file.path)) >>= _ : FileProg π σ Payload).run
    (exec env) w = _
  rw [hcontent]
  rfl

theorem run_put_status (payload : Payload) (message : ChatMessage) (next : ℤ) {text : String}
    (htext : ¬ maxChatTextLength < text.length) (source : String) (data : RecordData)
    (w : World π σ) :
    ((ChatStore.put file payload message next "status" text .system source data :
      FileProg π σ Unit).run (exec env) w).1 = .ok () := by
  have htype : RecordType.ofName "status" = some .status := by decide
  have hrole : (some ChatRole.system.name).map ChatRole.ofName = some (some .system) := by decide
  rw [put, newRecord, htype, hrole]
  dsimp only
  rw [if_neg htext]
  rfl

theorem completionText_length (role : ChatRole) :
    ¬ maxChatTextLength < (ChatStore.completionText role).length := by
  cases role <;> decide

variable (env) in
theorem run_complete {w : World π σ} {message : ChatMessage} (h : InFile file w message)
    (text : Option String) :
    ((ChatStore.complete process file message.messageId text).run (exec env) w).1 =
      if text.any (fun text => maxChatTextLength < text.length) then
        .error ⟨.valueError, "chat text is too long"⟩
      else .ok { message with
        text := text.getD message.text, status := .completed, updatedAt := env.clock w.tick
        completedAt := some (env.clock w.tick) } := by
  obtain ⟨payload, hpayload, hstored⟩ := h
  have hacquired : payloadOf file (exec env (.acquire process file.path) w).2 =
      .ok payload := hpayload
  rw [complete, lockedStateFile, Prog.run_between]
  dsimp only
  rw [Prog.run_bind_ok (run_load hacquired)]
  rw [hstored]
  dsimp only
  split
  · rfl
  · rw [Prog.run_bind_of_ok (p := time) (a := env.clock w.tick) rfl]
    rw [Prog.run_bind_of_ok (run_put_status _ _ _ (completionText_length _) _ _ _)]
    rfl

omit [DecidableEq π] in
theorem tracked_start {w : World π σ} {payload : Payload} (hread : payloadOf file w = .ok payload) :
    Tracked env file { id | ∃ record ∈ payload.records.rows, record.recordId = id }
      ⟨w, payload.messages⟩ := by
  refine ⟨⟨payload, hread⟩, ?_, fun message hstored _ => ⟨payload, hread, hstored⟩⟩
  intro payload' hread' record hrecord
  rw [hread] at hread'
  cases hread'
  exact .inl ⟨record, hrecord, rfl⟩

variable (env) in
/-- Queued and streaming messages are kept as they were last returned, and so are the
claimed ones that every call spares: these can be completed. -/
theorem in_flight_kept (hids : Function.Injective env.ids) (hclock : Monotone env.clock)
    (floatText : ℚ → String) (process : π) (file : StateFile σ ChatFile) (w : World π σ)
    (initial : Payload) (hread : payloadOf file w = .ok initial)
    (hnew : ∀ n, ∀ record ∈ initial.records.rows, record.recordId ≠ recordName (env.ids n))
    (calls : List ChatCall) :
    let s := calls.foldl (perform env floatText process file) ⟨w, initial.messages⟩
    (∀ message, s.latest.lookup message.messageId = some message →
        message.status.isActive = true → InFile file s.world message) ∧
      ∀ id, id ≠ "" →
        Along (perform env floatText process file) (Spared env file id) ⟨w,
          initial.messages⟩ calls →
        ∀ message, s.latest.lookup id = some message → message.status = .claimed →
          InFile file s.world message ∧ ∀ text key,
            ((complete process file id text).run (exec env) s.world).1 ≠
              .error ⟨.keyError, key⟩ := by
  have hnew' : ∀ n, recordName (env.ids n) ∉
      { id | ∃ record ∈ initial.records.rows, record.recordId = id } := by
    rintro n ⟨record, hrecord, hname⟩
    exact hnew n record hrecord hname
  have htracked : Tracked env file _ (calls.foldl (perform env floatText process file)
      ⟨w, initial.messages⟩) :=
    foldlRecOn calls _ (tracked_start hread) fun s h call _ =>
      h.step (perform_performs env floatText process file s call)
  refine ⟨htracked.active, fun id hid hspared message hmessage hclaimed => ?_⟩
  have hheld : Held file id (calls.foldl (perform env floatText process file)
      ⟨w, initial.messages⟩) := by
    refine (Along.invariant (fun s => Tracked env file _ s ∧ Held file id s) ?_
      ⟨tracked_start hread, ?_⟩ hspared).2
    · intro s call h hspared
      have hperforms := perform_performs env floatText process file s call
      exact ⟨h.1.step hperforms, h.2.step hids hclock hnew' hid h.1 hspared hperforms⟩
    · intro message hstored _
      have hkey : message.messageId = id := key_of_lookup hstored
      exact ⟨initial, hread, hkey ▸ hstored⟩
  have hin := hheld message hmessage hclaimed
  refine ⟨hin, fun text key => ?_⟩
  have hcompleted := run_complete env process hin text
  rw [show message.messageId = id from key_of_lookup hmessage] at hcompleted
  rw [hcompleted]
  split
  · intro herror
    cases herror
  · intro herror
    cases herror

def plainChat : StateFile ChatFile ChatFile := ⟨"control_chat.json", id, .ok, fun _ => rfl⟩

def fourDaysLater : Env where
  clock n := if n < 6 then 0 else 4 * 24 * 3600
  ids n := String.ofList (List.replicate n '0')

def noChat : World Unit ChatFile := ⟨fun _ => none, fun _ => false, 0, 0⟩

def askAndClaim : List ChatCall :=
  [.append { role := "user", text := "book the flight" }, .nextUserMessage true]

def afterCalls (calls : List ChatCall) : History Unit ChatFile :=
  calls.foldl (perform fourDaysLater (fun _ => "") () plainChat) ⟨noChat, .empty⟩

theorem fourDaysLater_ids_injective : Function.Injective fourDaysLater.ids := fun _ _ h =>
  replicate_left_injective '0' (String.ofList_injective h)

theorem fourDaysLater_clock_monotone : Monotone fourDaysLater.clock := by
  intro m n hmn
  unfold fourDaysLater
  dsimp only
  split_ifs <;> first | omega | norm_num

/-- A message is added and claimed, and can be completed. -/
theorem in_flight_kept_claimed :
    let s := afterCalls askAndClaim
    (s.latest.lookup "msg_").map ChatMessage.status = some .claimed ∧
      ∀ text key, ((complete () plainChat "msg_" text).run (exec fourDaysLater) s.world).1 ≠
        .error ⟨.keyError, key⟩ := by
  have hstatus : ((afterCalls askAndClaim).latest.lookup "msg_").map ChatMessage.status =
      some .claimed := by
    decide +kernel
  obtain ⟨message, hmessage, hclaimed⟩ := Option.map_eq_some_iff.1 hstatus
  have hkept := in_flight_kept fourDaysLater fourDaysLater_ids_injective
    fourDaysLater_clock_monotone (fun _ => "") () plainChat noChat (loadPayload none) rfl
    (fun _ _ h => (not_mem_nil h).elim) askAndClaim
  exact ⟨hstatus, (hkept.2 "msg_" (by decide) (by decide +kernel) message hmessage hclaimed).2⟩

/-- Four days after it was claimed the message is pruned, and completing it fails. -/
theorem claimed_message_pruned :
    let s := afterCalls (askAndClaim ++ [.pruneNow])
    Monotone fourDaysLater.clock ∧ (s.latest.lookup "msg_").map ChatMessage.status = some .claimed ∧
      ((complete () plainChat "msg_" none).run (exec fourDaysLater) s.world).1 =
        .error ⟨.keyError, "msg_"⟩ := by
  exact ⟨fourDaysLater_clock_monotone, by decide +kernel, by decide +kernel⟩

end OmniDoer.Chat
