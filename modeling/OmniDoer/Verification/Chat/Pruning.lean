import OmniDoer.Verification.Chat.Calls

/-! # Pruning

What a save keeps: the active messages, and the young ones that are recent or that a kept
record is about. -/

namespace OmniDoer.Chat

open Tables Queues StateIo List Table

theorem le_foldl_max (l : List ℤ) (a : ℤ) : a ≤ l.foldl max a ∧ ∀ s ∈ l, s ≤ l.foldl max a := by
  induction l generalizing a with
  | nil => simp
  | cons x rest ih =>
    obtain ⟨hx, hrest⟩ := ih (max a x)
    constructor
    · exact (le_max_left a x).trans hx
    · intro s hs
      rcases mem_cons.1 hs with rfl | hs
      · exact (le_max_right a s).trans hx
      · exact hrest s hs

theorem lt_nextAfter {next s : ℤ} {l : List ℤ} (hs : s ∈ l) : s < nextAfter next l := by
  cases l with
  | nil => cases hs
  | cons x rest =>
    obtain ⟨hx, hrest⟩ := le_foldl_max rest x
    have hle : s ≤ rest.foldl max x := by
      rcases mem_cons.1 hs with rfl | hs
      · exact hx
      · exact hrest s hs
    simp only [nextAfter]
    omega

variable {record : ChatRecord}

theorem sequence_lt_loadPayload (content : Option ChatFile)
    (h : record ∈ (loadPayload content).records.rows) :
    record.sequence < (loadPayload content).nextRecordSequence := by
  match content, h with
  | some (.payload _ _ _ records), h => exact lt_nextAfter (mem_map.2 ⟨record, h, rfl⟩)

variable {α : Type}

theorem mem_lastBySequence {sequence : α → ℤ} {n : ℕ} {rows : List α} {a : α} (ha : a ∈ rows)
    (hcount : rows.countP (fun b => sequence a ≤ sequence b) ≤ n) :
    a ∈ lastBySequence sequence n rows := by
  have hperm := perm_insertionSort (fun a b => sequence a ≤ sequence b) rows
  have hsorted := pairwise_insertionSort (fun a b => sequence a ≤ sequence b) rows
  unfold lastBySequence
  generalize rows.insertionSort (fun a b => sequence a ≤ sequence b) = sorted at hperm hsorted ⊢
  rw [← hperm.countP_eq] at hcount
  rw [← hperm.mem_iff] at ha
  by_contra hdropped
  -- otherwise all of the last `n` reach it, and it counts itself
  have htaken : a ∈ sorted.take (sorted.length - n) := by
    rw [← take_append_drop (sorted.length - n) sorted, mem_append] at ha
    exact ha.resolve_right hdropped
  have hle : ∀ b ∈ sorted.drop (sorted.length - n), sequence a ≤ sequence b := by
    rw [← take_append_drop (sorted.length - n) sorted, pairwise_append] at hsorted
    exact hsorted.2.2 a htaken
  have hdrop : (sorted.drop (sorted.length - n)).countP (fun b => sequence a ≤ sequence b) =
      (sorted.drop (sorted.length - n)).length :=
    countP_eq_length.2 fun b hb => decide_eq_true (hle b hb)
  have htake : 0 < (sorted.take (sorted.length - n)).countP (fun b => sequence a ≤ sequence b) :=
    countP_pos_iff.2 ⟨a, htaken, by simp⟩
  have hlength : 0 < (sorted.take (sorted.length - n)).length := length_pos_of_mem htaken
  rw [← take_append_drop (sorted.length - n) sorted, countP_append, hdrop] at hcount
  rw [length_take] at hlength
  rw [length_drop] at hcount
  omega

variable {now : ℚ} {messages : Messages} {records : Records}

variable {message : ChatMessage} {id : String}

theorem mem_activeMessageIds
    (h : messages.lookup id = some message) : id ∈ activeMessageIds messages ↔
      message.status.isActive = true := by
  rw [activeMessageIds, mem_map]
  constructor
  · rintro ⟨found, hfound, hid⟩
    rw [mem_filter] at hfound
    have hsame : messages.lookup id = some found := lookup_eq_some_iff.2 ⟨hfound.1, hid⟩
    rw [h] at hsame
    rw [Option.some.inj hsame]
    exact hfound.2
  · intro hactive
    obtain ⟨hmem, hid⟩ := lookup_eq_some_iff.1 h
    exact ⟨message, mem_filter.2 ⟨hmem, hactive⟩, hid⟩

theorem lookup_prune (h : messages.lookup id = some message)
    (hyoung : id ∈ activeMessageIds messages ∨
      now - chatRetentionSeconds ≤ max message.createdAt message.updatedAt)
    (hretained : id ∈ activeMessageIds messages ∨
      id ∈ (prune now messages records).2.rows.filterMap ChatRecord.about ∨
      messages.rows.countP (fun other => message.sequence ≤ other.sequence) ≤ maxChatMessages) :
    (prune now messages records).1.lookup id = some message := by
  have hid : message.messageId = id := key_of_lookup h
  have hfirst : (messages.filter fun message =>
      message.messageId ∈ activeMessageIds messages ||
        decide (now - chatRetentionSeconds ≤ max message.createdAt message.updatedAt)).lookup id =
      some message := by
    refine lookup_filter_of_pos h ?_
    rw [hid, Bool.or_eq_true, decide_eq_true_eq, decide_eq_true_eq]
    exact hyoung
  refine lookup_filter_of_pos hfirst ?_
  rw [hid]
  simp only [Bool.or_eq_true, decide_eq_true_eq]
  rcases hretained with hactive | hreferenced | hcount
  · exact .inl (.inl hactive)
  · exact .inl (.inr hreferenced)
  · refine .inr (mem_map.2 ⟨message, ?_, hid⟩)
    refine mem_lastBySequence (lookup_eq_some_iff.1 hfirst).1 (le_trans ?_ hcount)
    exact Sublist.countP_le filter_sublist

theorem mem_prune_records (h : record ∈ records.rows)
    (hyoung : now - chatRetentionSeconds ≤ record.createdAt)
    (hcount : records.rows.countP (fun other => record.sequence ≤ other.sequence) ≤
      maxChatRecords) :
    record ∈ (prune now messages records).2.rows := by
  have hfirst : record ∈ records.rows.filter fun record =>
      record.about.any (· ∈ activeMessageIds messages) ||
        decide (now - chatRetentionSeconds ≤ record.createdAt) := by
    refine mem_filter.2 ⟨h, ?_⟩
    rw [Bool.or_eq_true, decide_eq_true_eq]
    exact .inr hyoung
  refine mem_filter.2 ⟨hfirst, decide_eq_true ?_⟩
  refine mem_map.2 ⟨record, mem_lastBySequence hfirst (le_trans ?_ hcount), rfl⟩
  exact Sublist.countP_le filter_sublist

theorem lookup_messages_saved (payload : Payload) (id : String) :
    (saved now payload).messages.lookup id =
      (prune now payload.messages payload.records).1.lookup id :=
  lookup_sorted _ _

theorem lookup_of_saved {payload : Payload}
    (h : (saved now payload).messages.lookup id = some message) :
    payload.messages.lookup id = some message := by
  rw [lookup_messages_saved] at h
  simp only [prune, pruneMessages, lookup_filter, Option.filter_eq_some_iff] at h
  exact h.1.1

theorem mem_records_of_saved {payload : Payload}
    (h : record ∈ (saved now payload).records.rows) : record ∈ payload.records.rows := by
  have hpruned : record ∈ (prune now payload.messages payload.records).2.rows :=
    (perm_insertionSort _ _).mem_iff.1 h
  exact mem_of_mem_filter (mem_of_mem_filter hpruned)

end OmniDoer.Chat
