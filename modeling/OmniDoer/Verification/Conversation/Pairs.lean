import OmniDoer.Model.ResponseItem
import Mathlib.Data.List.InsertIdx
import Mathlib.Logic.Function.Iterate

/-! # Calls and outputs of a prompt

What the two passes over a prompt leave: each call with an id has an output of its kind, each output
a call, and everything else is as it was. -/

namespace OmniDoer.Conversation

open Rust List ResponseItem

variable {δ : Type}

theorem insertIdx_append_length {α : Type} (p l : List α) (n : ℕ) (y : α) :
    (p ++ l).insertIdx (p.length + n) y = p ++ l.insertIdx n y := by
  induction p with
  | nil => simp
  | cons x p ih =>
    rw [cons_append, length_cons, Nat.add_right_comm, insertIdx_succ_cons, ih, cons_append]

theorem foldl_insertIdx_eq_flatMap {α : Type} (f : α → Option α) (l : List α) :
    (l.zipIdx.filterMap fun (x, i) => (f x).map (i, ·)).reverse.foldl
      (fun acc (i, y) => acc.insertIdx (i + 1) y) l =
      l.flatMap fun x => x :: (f x).toList := by
  -- inside a longer list, whose first part gives the offset
  have hinside (p : List α) :
      ((l.zipIdx p.length).filterMap fun (x, i) => (f x).map (i, ·)).foldr
        (fun (i, y) acc => acc.insertIdx (i + 1) y)
        (p ++ l) = p ++ l.flatMap fun x => x :: (f x).toList := by
    induction l generalizing p with
    | nil => simp
    | cons x l ih =>
      have hrest := ih (p ++ [x])
      rw [append_assoc, singleton_append, length_append, length_singleton] at hrest
      rw [zipIdx_cons, filterMap_cons, flatMap_cons]
      cases hx : f x with
      | none => simpa [hx] using hrest
      | some y =>
        simp only [hx, Option.map_some, foldr_cons]
        rw [hrest, append_assoc, insertIdx_append_length]
        simp
  simpa using hinside []

inductive CallKind where
  | function
  | toolSearch
  | custom
  deriving DecidableEq

namespace ResponseItem

/-- The kind and the id of a call. A shell call is answered as a function call. -/
def call? : ResponseItem δ → Option (CallKind × Text)
  | .functionCall _ callId _ => some (.function, callId)
  | .localShellCall _ callId _ => callId.map (.function, ·)
  | .toolSearchCall _ callId _ => callId.map (.toolSearch, ·)
  | .customToolCall _ callId _ => some (.custom, callId)
  | _ => none

/-- The kind and the id of the call that an output answers. -/
def output? : ResponseItem δ → Option (CallKind × Text)
  | .functionCallOutput _ callId _ _ => some (.function, callId)
  | .toolSearchOutput _ callId _ _ _ _ => callId.map (.toolSearch, ·)
  | .customToolCallOutput _ callId _ _ _ => some (.custom, callId)
  | _ => none

def isOutput : ResponseItem δ → Bool
  | .functionCallOutput .. | .toolSearchOutput .. | .customToolCallOutput .. => true
  | _ => false

def isServerOutput : ResponseItem δ → Bool
  | .toolSearchOutput _ _ _ execution _ _ => execution = "server".toList
  | _ => false

end ResponseItem

variable {items : List (ResponseItem δ)} {item output : ResponseItem δ} {key : CallKind × Text}
  {uuidV5 : Text → Text}

def Called (items : List (ResponseItem δ)) (key : CallKind × Text) : Prop :=
  ∃ call ∈ items, call.call? = some key

def Answered (items : List (ResponseItem δ)) (key : CallKind × Text) : Prop :=
  ∃ output ∈ items, output.output? = some key

variable {callId : Text}

theorem mem_functionOutputIds :
    callId ∈ functionOutputIds items ↔ Answered items (.function, callId) := by
  simp only [functionOutputIds, mem_filterMap, Answered]
  refine exists_congr fun item => and_congr_right fun _ => ?_
  cases item <;> simp [output?]

theorem mem_toolSearchOutputIds :
    callId ∈ toolSearchOutputIds items ↔ Answered items (.toolSearch, callId) := by
  simp only [toolSearchOutputIds, mem_filterMap, Answered]
  refine exists_congr fun item => and_congr_right fun _ => ?_
  cases item <;> simp [output?]

theorem mem_customToolOutputIds :
    callId ∈ customToolOutputIds items ↔ Answered items (.custom, callId) := by
  simp only [customToolOutputIds, mem_filterMap, Answered]
  refine exists_congr fun item => and_congr_right fun _ => ?_
  cases item <;> simp [output?]

theorem mem_functionCallIds :
    callId ∈ functionCallIds items ∨ callId ∈ localShellCallIds items ↔ Called items
    (.function, callId) := by
  simp only [functionCallIds, localShellCallIds, mem_filterMap, Called, ← exists_or, ← and_or_left]
  refine exists_congr fun item => and_congr_right fun _ => ?_
  cases item <;> simp [call?]

theorem mem_toolSearchCallIds :
    callId ∈ toolSearchCallIds items ↔ Called items (.toolSearch, callId) := by
  simp only [toolSearchCallIds, mem_filterMap, Called]
  refine exists_congr fun item => and_congr_right fun _ => ?_
  cases item <;> simp [call?]

theorem mem_customToolCallIds :
    callId ∈ customToolCallIds items ↔ Called items (.custom, callId) := by
  simp only [customToolCallIds, mem_filterMap, Called]
  refine exists_congr fun item => and_congr_right fun _ => ?_
  cases item <;> simp [call?]

theorem missingOutput_eq_some (h : missingOutput uuidV5 items item = some output) :
    ∃ key, item.call? = some key ∧ output.output? = some key ∧ ¬ Answered items key := by
  unfold missingOutput at h
  split at h
  case h_5 => cases h
  all_goals
    split at h
    · cases h
    · rename_i hmissing
      cases h
      first
        | exact ⟨_, rfl, rfl, mt mem_functionOutputIds.2 hmissing⟩
        | exact ⟨_, rfl, rfl, mt mem_toolSearchOutputIds.2 hmissing⟩
        | exact ⟨_, rfl, rfl, mt mem_customToolOutputIds.2 hmissing⟩

theorem missingOutput_eq_none_iff :
    missingOutput uuidV5 items item = none ↔ ∀ key, item.call? = some key → Answered items key := by
  cases item with
  | functionCall id callId details =>
      simp only [missingOutput, ite_eq_left_iff, reduceCtorEq, imp_false, not_not, call?,
        Option.some.injEq, forall_eq', mem_functionOutputIds]
  | localShellCall id callId details =>
    cases callId with
    | none => simp [missingOutput, call?]
    | some callId =>
      simp only [missingOutput, ite_eq_left_iff, reduceCtorEq, imp_false, not_not, call?,
        Option.map_some, Option.some.injEq, forall_eq', mem_functionOutputIds]
  | toolSearchCall id callId details =>
    cases callId with
    | none => simp [missingOutput, call?]
    | some callId =>
      simp only [missingOutput, ite_eq_left_iff, reduceCtorEq, imp_false, not_not, call?,
        Option.map_some, Option.some.injEq, forall_eq', mem_toolSearchOutputIds]
  | customToolCall id callId details =>
    simp only [missingOutput, ite_eq_left_iff, reduceCtorEq, imp_false, not_not, call?,
      Option.some.injEq, forall_eq', mem_customToolOutputIds]
  | _ => simp [missingOutput, call?]

theorem retainsItem_iff : retainsItem items item = true ↔
    ∀ key, item.output? = some key → item.isServerOutput = false → Called items key := by
  cases item with
  | functionCallOutput id callId output metadata =>
      simp [retainsItem, output?, isServerOutput, mem_functionCallIds]
  | customToolCallOutput id callId name output metadata =>
    simp [retainsItem, output?, isServerOutput, mem_customToolCallIds]
  | toolSearchOutput id callId status execution tools metadata =>
    simp only [retainsItem, isServerOutput, decide_eq_false_iff_not]
    by_cases hserver : execution = "server".toList
    · rw [if_pos hserver]
      exact iff_of_true rfl fun _ _ h => absurd hserver h
    · rw [if_neg hserver]
      cases callId with
      | none => simp [output?]
      | some callId =>
        simp only [output?, decide_eq_true_eq, mem_toolSearchCallIds, Option.map_some,
          Option.some.injEq, forall_eq']
        exact ⟨fun h _ => h, fun h => h hserver⟩
  | _ => simp [retainsItem, output?]

section Passes

variable (uuidV5)

theorem ensureCallOutputsPresent_eq (items : List (ResponseItem δ)) :
    ensureCallOutputsPresent uuidV5 items = items.flatMap fun item =>
      item :: (missingOutput uuidV5 items item).toList :=
  foldl_insertIdx_eq_flatMap (missingOutput uuidV5 items) items

/-- The two passes in the order of `normalize_history`. -/
def normalized (items : List (ResponseItem δ)) : List (ResponseItem δ) :=
  removeOrphanOutputs (ensureCallOutputsPresent uuidV5 items)

theorem output_not_call (h : output.output? = some key) : output.call? = none := by
  cases output <;> first | rfl | cases h

theorem isOutput_of_output (h : output.output? = some key) : output.isOutput = true := by
  cases output <;> first | rfl | cases h

theorem filter_flatMap_cons {α : Type} {keep : α → Bool} {f : α → Option α} {l : List α}
    (h : ∀ x ∈ l, ∀ y, f x = some y → keep x = true ∧ keep y = true) :
    (l.flatMap fun x => x :: (f x).toList).filter keep = (l.filter keep).flatMap fun x =>
      x :: (f x).toList := by
  induction l with
  | nil => rfl
  | cons x l ih =>
    rw [flatMap_cons, filter_append, ih fun x hx => h x (mem_cons_of_mem _ hx)]
    cases hx : f x with
    | none => cases hkeep : keep x <;> simp [hx, hkeep]
    | some y =>
      obtain ⟨hkeepx, hkeepy⟩ := h x mem_cons_self y hx
      simp [hx, hkeepx, hkeepy]

theorem called_ensure : Called (ensureCallOutputsPresent uuidV5 items) key ↔ Called items key := by
  simp only [Called, ensureCallOutputsPresent_eq, mem_flatMap, mem_cons, Option.mem_toList]
  constructor
  · rintro ⟨call, ⟨item, hitem, rfl | hmissing⟩, hcall⟩
    · exact ⟨_, hitem, hcall⟩
    · obtain ⟨_, -, houtput, -⟩ := missingOutput_eq_some hmissing
      rw [output_not_call houtput] at hcall
      cases hcall
  · rintro ⟨call, hmem, hcall⟩
    exact ⟨call, ⟨call, hmem, .inl rfl⟩, hcall⟩

theorem normalized_eq (items : List (ResponseItem δ)) :
    normalized uuidV5 items =
      (items.filter (retainsItem items)).flatMap fun item =>
        item :: (missingOutput uuidV5 items item).toList := by
  have hretains (item : ResponseItem δ) :
      retainsItem (ensureCallOutputsPresent uuidV5 items) item = retainsItem items item := by
    rw [Bool.eq_iff_iff, retainsItem_iff, retainsItem_iff]
    simp only [called_ensure]
  rw [normalized, removeOrphanOutputs, funext hretains]
  -- an output that was missing has its call, and an item that lacks one is a call itself
  have hadded (item : ResponseItem δ) (hitem : item ∈ items) (output : ResponseItem δ)
      (h : missingOutput uuidV5 items item = some output) :
      retainsItem items item = true ∧ retainsItem items output = true := by
    obtain ⟨key, hcall, houtput, -⟩ := missingOutput_eq_some h
    constructor
    · rw [retainsItem_iff]
      intro key' houtput'
      rw [output_not_call houtput'] at hcall
      cases hcall
    · rw [retainsItem_iff]
      intro key' houtput' _
      rw [houtput] at houtput'
      cases houtput'
      exact ⟨item, hitem, hcall⟩
  rw [ensureCallOutputsPresent_eq, filter_flatMap_cons hadded]

theorem answered_normalized (h : Called (normalized uuidV5 items) key) :
    Answered (normalized uuidV5 items) key := by
  rw [normalized_eq] at h ⊢
  simp only [Called, Answered, mem_flatMap, mem_filter, mem_cons, Option.mem_toList] at h ⊢
  obtain ⟨call, ⟨item, ⟨hitem, hretained⟩, rfl | hmissing⟩, hcall⟩ := h
  · cases hmissing : missingOutput uuidV5 items call with
    | some output =>
      obtain ⟨_, hcall', houtput, -⟩ := missingOutput_eq_some hmissing
      rw [hcall] at hcall'
      cases hcall'
      exact ⟨output, ⟨call, ⟨hitem, hretained⟩, .inr hmissing⟩, houtput⟩
    | none =>
      obtain ⟨output, hmem, houtput⟩ := missingOutput_eq_none_iff.1 hmissing key hcall
      refine ⟨output, ⟨output, ⟨hmem, ?_⟩, .inl rfl⟩, houtput⟩
      rw [retainsItem_iff]
      intro key' houtput' _
      rw [houtput] at houtput'
      cases houtput'
      exact ⟨call, hitem, hcall⟩
  · obtain ⟨_, -, houtput, -⟩ := missingOutput_eq_some hmissing
    rw [output_not_call houtput] at hcall
    cases hcall

theorem called_normalized : Called (normalized uuidV5 items) key ↔ Called items key := by
  refine Iff.trans ?_ (called_ensure uuidV5)
  simp only [Called, normalized, removeOrphanOutputs, mem_filter]
  constructor
  · rintro ⟨call, ⟨hmem, -⟩, hcall⟩
    exact ⟨call, hmem, hcall⟩
  · rintro ⟨call, hmem, hcall⟩
    refine ⟨call, ⟨hmem, ?_⟩, hcall⟩
    rw [retainsItem_iff]
    intro key' houtput
    rw [output_not_call houtput] at hcall
    cases hcall

theorem normalized_of_paired (hanswered : ∀ key, Called items key → Answered items key)
    (hcalled : ∀ output ∈ items, ∀ key, output.output? = some key → output.isServerOutput = false →
      Called items key) :
    normalized uuidV5 items = items := by
  have hretains : items.filter (retainsItem items) = items :=
    filter_eq_self.2 fun item hitem => retainsItem_iff.2 (hcalled item hitem)
  rw [normalized_eq, hretains]
  have hnone (item : ResponseItem δ) (hitem : item ∈ items) :
      missingOutput uuidV5 items item = none :=
    missingOutput_eq_none_iff.2 fun key hcall => hanswered key ⟨item, hitem, hcall⟩
  calc items.flatMap (fun item => item :: (missingOutput uuidV5 items item).toList)
      = items.flatMap (fun item => [item]) := by
        refine flatMap_congr fun item hitem => ?_
        rw [hnone item hitem]
        rfl
    _ = items := by simp

theorem retainsItem_of_not_output (h : item.isOutput = false) : retainsItem items item = true := by
  rw [retainsItem_iff]
  intro key houtput
  rw [isOutput_of_output houtput] at h
  cases h

theorem filter_not_output_normalized :
    (normalized uuidV5 items).filter (!·.isOutput) = items.filter (!·.isOutput) := by
  have hadded (item : ResponseItem δ) :
      (item :: (missingOutput uuidV5 items item).toList).filter (!·.isOutput) =
        [item].filter (!·.isOutput) := by
    cases h : missingOutput uuidV5 items item with
    | none => rfl
    | some output =>
      obtain ⟨_, -, houtput, -⟩ := missingOutput_eq_some h
      simp [filter_cons, isOutput_of_output houtput]
  rw [normalized_eq, filter_flatMap]
  simp only [hadded]
  rw [← filter_flatMap, flatMap_singleton', filter_filter]
  refine filter_congr fun item _ => ?_
  cases hitem : item.isOutput with
  | true => rfl
  | false => simp [retainsItem_of_not_output hitem]

/-- After the two passes every call with an id has an output of its kind, and every output has a
call. The items that are no outputs, and the outputs that had a call, are kept in their order; an
added output directly follows its call. The passes change nothing the second time. -/
theorem prompt_calls_paired (items : List (ResponseItem δ)) :
    let result := normalized uuidV5 items
    (∀ key, Called result key → Answered result key) ∧
    (∀ output ∈ result, ∀ key, output.output? = some key → output.isServerOutput = false →
      Called result key) ∧
    result.filter (!·.isOutput) = items.filter (!·.isOutput) ∧
    (∃ (kept : ResponseItem δ → Bool) (added : ResponseItem δ → Option (ResponseItem δ)),
      result = (items.filter kept).flatMap (fun item => item :: (added item).toList) ∧
      (∀ item key, item.output? = some key → Called items key → kept item = true) ∧
      ∀ item output, added item = some output →
        ∃ key, item.call? = some key ∧ output.output? = some key ∧ ¬ Answered items key) ∧
    normalized uuidV5 result = result := by
  intro result
  have hanswered : ∀ key, Called result key → Answered result key :=
    fun key => answered_normalized uuidV5
  have hcalled : ∀ output ∈ result, ∀ key, output.output? = some key →
      output.isServerOutput = false → Called result key := by
    intro output hmem key houtput hclient
    change Called (normalized uuidV5 items) key
    rw [called_normalized, ← called_ensure uuidV5]
    change output ∈ normalized uuidV5 items at hmem
    rw [normalized, removeOrphanOutputs, mem_filter, retainsItem_iff] at hmem
    exact hmem.2 key houtput hclient
  refine ⟨hanswered, hcalled, filter_not_output_normalized uuidV5, ?_,
    normalized_of_paired uuidV5 hanswered hcalled⟩
  refine ⟨retainsItem items, missingOutput uuidV5 items, normalized_eq uuidV5 items, ?_, ?_⟩
  · intro item key houtput hcall
    rw [retainsItem_iff]
    intro key' houtput' _
    rw [houtput] at houtput'
    cases houtput'
    exact hcall
  · intro item output h
    exact missingOutput_eq_some h

end Passes

section Oldest

/-- Each call id is used by one call and by one output of its kind. -/
def Paired (items : List (ResponseItem δ)) : Prop :=
  ∀ key, items.countP (·.call? = some key) = items.countP (·.output? = some key) ∧
    items.countP (·.call? = some key) ≤ 1

/-- One of the two is a call, and the other one an output for it. -/
def Corresponds (item mate : ResponseItem δ) : Prop :=
  ∃ key, item.call? = some key ∧ mate.output? = some key ∨ item.output? = some key ∧
    mate.call? = some key

theorem call_not_output (h : item.call? = some key) : item.output? = none := by
  cases item <;> first | rfl | cases h

theorem corresponds_of_call {mate : ResponseItem δ} (h : item.call? = some key) :
    Corresponds item mate ↔ mate.output? = some key := by
  simp [Corresponds, h, call_not_output h]

theorem corresponds_of_output {mate : ResponseItem δ} (h : item.output? = some key) :
    Corresponds item mate ↔ mate.call? = some key := by
  simp [Corresponds, h, output_not_call h]

theorem removeCorrespondingFor_eq {mate : ResponseItem δ} (hmem : mate ∈ items)
    (hmate : Corresponds item mate) :
    ∃ before mate after, items = before ++ mate :: after ∧ Corresponds item mate ∧
      removeCorrespondingFor items item = before ++ after := by
  have hfirst {predicate : ResponseItem δ → Bool} {found : ResponseItem δ} (hmem : found ∈ items)
      (hfound : predicate found = true) (hsound : ∀ x, predicate x = true → Corresponds item x) :
      ∃ before mate after, items = before ++ mate :: after ∧ Corresponds item mate ∧
        removeFirstMatching items predicate = before ++ after := by
    obtain ⟨mate, before, after, -, hmate, hsplit, herase⟩ := exists_of_eraseP hmem hfound
    refine ⟨before, mate, after, hsplit, hsound mate hmate, herase ▸ ?_⟩
    rw [eraseP_eq_eraseIdx, removeFirstMatching]
    cases items.findIdx? predicate <;> rfl
  have houtput {predicate : ResponseItem δ →
      Bool} {key : CallKind × Text} (hcall : item.call? = some key)
      (h : ∀ x, predicate x = true ↔ x.output? = some key) :=
    hfirst hmem ((h mate).2 ((corresponds_of_call hcall).1 hmate)) fun x hx =>
      (corresponds_of_call hcall).2 ((h x).1 hx)
  have hcall {predicate : ResponseItem δ →
      Bool} {key : CallKind × Text} (houtput : item.output? = some key)
      (h : ∀ x, predicate x = true ↔ x.call? = some key) :=
    hfirst hmem ((h mate).2 ((corresponds_of_output houtput).1 hmate)) fun x hx =>
      (corresponds_of_output houtput).2 ((h x).1 hx)
  cases item with
  | functionCall id callId details =>
    exact houtput rfl fun x => by cases x <;> simp [isFunctionCallOutput, output?]
  | customToolCall id callId details => exact houtput rfl fun x => by cases x <;> simp [output?]
  | customToolCallOutput id callId => exact hcall rfl fun x => by cases x <;> simp [call?]
  | localShellCall id callId details =>
    cases callId with
    | none => simp [Corresponds, call?, output?] at hmate
    | some callId => exact houtput rfl fun x => by cases x <;> simp [isFunctionCallOutput, output?]
  | toolSearchCall id callId details =>
    cases callId with
    | none => simp [Corresponds, call?, output?] at hmate
    | some callId => exact houtput rfl fun x => by cases x <;> simp [output?]
  | toolSearchOutput id callId =>
    cases callId with
    | none => simp [Corresponds, call?, output?] at hmate
    | some callId => exact hcall rfl fun x => by cases x <;> simp [call?]
  | functionCallOutput id callId output metadata =>
    have hcorresponds (x : ResponseItem δ) :
        Corresponds (.functionCallOutput id callId output metadata) x ↔
        x.call? = some (.function, callId) := corresponds_of_output rfl
    rw [removeCorrespondingFor]
    split
    · rename_i pos hpos
      have hany := congrArg Option.isSome hpos
      rw [findIdx?_isSome, Option.isSome_some, any_eq_true] at hany
      obtain ⟨found, hmem, hfound⟩ := hany
      have hmates := hfirst hmem hfound fun x => by rw [hcorresponds]; cases x <;>
          simp [isFunctionCall, call?]
      rwa [removeFirstMatching, hpos] at hmates
    · rename_i hnone
      rw [findIdx?_eq_none_iff] at hnone
      refine hfirst hmem ?_ fun x => by rw [hcorresponds]; cases x <;> simp [call?]
      have hnot := hnone mate hmem
      rw [hcorresponds] at hmate
      revert hmate hnot
      cases mate <;> simp +contextual [isFunctionCall, call?]
  | _ => simp [Corresponds, call?, output?] at hmate

theorem removeCorrespondingFor_other (hcall : item.call? = none) (houtput : item.output? = none) :
    removeCorrespondingFor items item = items := by
  cases item with
  | localShellCall id callId details
  | toolSearchCall id callId details
  | toolSearchOutput id callId =>
    cases callId with
    | none => rfl
    | some callId => simp [call?, output?] at hcall houtput
  | _ => first | rfl | simp [call?, output?] at hcall houtput

theorem Paired.removeFirstItem (h : Paired items) :
    Paired (removeFirstItem items) ∧ (removeFirstItem items).Sublist items := by
  cases items with
  | nil => exact ⟨h, .refl _⟩
  | cons item items =>
    rw [Conversation.removeFirstItem]
    by_cases hkey : ∃ key, item.call? = some key ∨ item.output? = some key
    · -- the other one of the pair is among the items that are left
      have hmate : ∃ mate ∈ items, Corresponds item mate := by
        obtain ⟨key, hcall | houtput⟩ := hkey
        · have hcount := (h key).1
          rw [countP_cons_of_pos (by simpa using hcall),
            countP_cons_of_neg (by simp [call_not_output hcall])] at hcount
          obtain ⟨mate, hmem, hmate⟩ :=
            countP_pos_iff.1 (Nat.lt_of_lt_of_eq (Nat.succ_pos _) hcount)
          exact ⟨mate, hmem, key, .inl ⟨hcall, by simpa using hmate⟩⟩
        · have hcount := (h key).1
          rw [countP_cons_of_neg (by simp [output_not_call houtput]),
            countP_cons_of_pos (by simpa using houtput)] at hcount
          obtain ⟨mate, hmem, hmate⟩ :=
            countP_pos_iff.1 (Nat.lt_of_lt_of_eq (Nat.succ_pos _) hcount.symm)
          exact ⟨mate, hmem, key, .inr ⟨houtput, by simpa using hmate⟩⟩
      obtain ⟨mate, hmem, hmate⟩ := hmate
      obtain ⟨before, mate, after, rfl, ⟨key, hkeys⟩, hresult⟩ :=
        removeCorrespondingFor_eq hmem hmate
      rw [hresult]
      refine ⟨fun key' => ?_, .cons _ ((sublist_cons_self _ _).append_left before)⟩
      have hcount := h key'
      rcases hkeys with ⟨hcall, houtput⟩ | ⟨houtput, hcall⟩
      all_goals
        have hnone := output_not_call houtput
        have hnone' := call_not_output hcall
        simp only [countP_cons, countP_append, hcall, houtput, hnone, hnone', reduceCtorEq,
          decide_false, Bool.false_eq_true, if_false] at hcount ⊢
        omega
    · simp only [not_exists, not_or] at hkey
      rw [removeCorrespondingFor_other (Option.eq_none_iff_forall_ne_some.2 fun key => (hkey key).1)
        (Option.eq_none_iff_forall_ne_some.2 fun key => (hkey key).2)]
      refine ⟨fun key => ?_, sublist_cons_self _ _⟩
      have hcount := h key
      rwa [countP_cons_of_neg (by simpa using (hkey key).1),
        countP_cons_of_neg (by simpa using (hkey key).2)] at hcount

/-- Whatever number of oldest items is removed, the calls and outputs that are left are paired, and
the items that are left are as they were. -/
theorem oldest_removed_paired (h : Paired items) (n : ℕ) :
    Paired (removeFirstItem^[n] items) ∧ (removeFirstItem^[n] items).Sublist items := by
  induction n generalizing items with
  | zero => exact ⟨h, .refl _⟩
  | succ n ih =>
    obtain ⟨hpaired, hsublist⟩ := h.removeFirstItem
    exact ⟨(ih hpaired).1, (ih hpaired).2.trans hsublist⟩

/-- An item between a call and its output. -/
theorem oldest_removed_paired_call :
    let call : ResponseItem Unit := .functionCall none ['a'] ()
    let output : ResponseItem Unit := .functionCallOutput none ['a'] (.fromText []) none
    Paired [call, .other, output] ∧ removeFirstItem^[1] [call, .other, output] = [.other] ∧
      Paired [(.other : ResponseItem Unit)] := by
  intro call output
  have hpaired : Paired [call, .other, output] := by
    intro key
    by_cases hkey : (CallKind.function, ['a']) = key <;> simp [call, output, call?, output?, hkey]
  exact ⟨hpaired, rfl, (oldest_removed_paired hpaired 1).1⟩

end Oldest

end OmniDoer.Conversation
