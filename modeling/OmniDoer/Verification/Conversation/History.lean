import OmniDoer.Model.RolloutReconstruction
import Mathlib.Data.List.DropRight
import Mathlib.Data.List.Basic

/-! # Dropping the last turns of a history

Where a rollback cuts a history: at an instruction boundary, and then back over the context updates
directly before it, but never before the first boundary. -/

namespace OmniDoer.Conversation

open Rust List

variable {δ : Type} {rules : Recognizers δ} {items items' L post : List (ResponseItem δ)}
  {b item : ResponseItem δ}

theorem isPreTurnContextUpdate_of_boundary (h : isUserTurnBoundary rules item = true) :
    isPreTurnContextUpdate rules item = false := by
  cases item with
  | message id role content phase metadata =>
    simp only [isUserTurnBoundary, Bool.or_eq_true, Bool.and_eq_true, decide_eq_true_eq] at h
    simp only [isPreTurnContextUpdate, Bool.or_eq_false_iff, Bool.and_eq_false_imp]
    rcases h with ⟨rfl, hcontent⟩ | ⟨rfl, -⟩
    · exact ⟨fun hrole => absurd hrole (by decide), fun _ => by simpa using hcontent⟩
    · exact ⟨fun hrole => absurd hrole (by decide), fun hrole => absurd hrole (by decide)⟩
  | _ => rfl

theorem positions_zipIdx (items : List (ResponseItem δ)) (k : ℕ) :
    ((items.zipIdx k).filterMap fun (item, idx) =>
      if isUserTurnBoundary rules item then some idx else none) =
      (userMessagePositions rules items).map (k + ·) := by
  rw [zipIdx_eq_map_add, filterMap_map, userMessagePositions, map_filterMap]
  refine filterMap_congr fun entry _ => ?_
  obtain ⟨item, idx⟩ := entry
  cases h : isUserTurnBoundary rules item <;> simp

theorem positions_append :
    userMessagePositions rules (items ++ items') =
      userMessagePositions rules items ++ (userMessagePositions rules items').map
        (items.length + ·) := by
  rw [userMessagePositions, zipIdx_append, filterMap_append, Nat.zero_add, positions_zipIdx items']
  rfl

theorem positions_cons :
    userMessagePositions rules (item :: items) =
      (if isUserTurnBoundary rules item then [0] else []) ++ (userMessagePositions rules items).map
        (1 + ·) := by
  rw [← singleton_append, positions_append]
  cases h : isUserTurnBoundary rules item <;> simp [userMessagePositions, h]

theorem length_positions : (userMessagePositions rules items).length =
    (items.filter (isUserTurnBoundary rules)).length := by
  induction items with
  | nil => rfl
  | cons item items ih =>
    rw [positions_cons, filter_cons]
    cases isUserTurnBoundary rules item <;> simp [ih]

theorem positions_eq_nil_iff :
    userMessagePositions rules items = [] ↔ items.any (isUserTurnBoundary rules) = false := by
  rw [← length_eq_zero_iff, length_positions, length_eq_zero_iff, filter_eq_nil_iff, any_eq_false]

theorem boundary_of_mem_positions {k : ℕ} (h : k ∈ userMessagePositions rules items) :
    ∃ item, items[k]? = some item ∧ isUserTurnBoundary rules item = true := by
  simp only [userMessagePositions, mem_filterMap, Prod.exists, Option.ite_none_right_eq_some,
    Option.some.injEq] at h
  obtain ⟨item, idx, hmem, hboundary, rfl⟩ := h
  exact ⟨item, mem_zipIdx_iff_getElem?.1 hmem, hboundary⟩

theorem filter_take_position {i k : ℕ} (h : (userMessagePositions rules items)[i]? = some k) :
    (items.take k).filter (isUserTurnBoundary rules) =
      (items.filter (isUserTurnBoundary rules)).take i ∧
      k < items.length := by
  induction items generalizing i k with
  | nil => cases h
  | cons item items ih =>
    rw [positions_cons] at h
    cases hitem : isUserTurnBoundary rules item with
    | false =>
      simp only [hitem, Bool.false_eq_true, if_false, nil_append, getElem?_map,
        Option.map_eq_some_iff] at h
      obtain ⟨k, hk, rfl⟩ := h
      obtain ⟨hfilter, hlt⟩ := ih hk
      rw [Nat.add_comm]
      simp [hitem, hfilter]
      omega
    | true =>
      simp only [hitem, if_true, singleton_append] at h
      cases i with
      | zero =>
        cases h
        simp
      | succ i =>
        rw [getElem?_cons_succ, getElem?_map, Option.map_eq_some_iff] at h
        obtain ⟨k, hk, rfl⟩ := h
        obtain ⟨hfilter, hlt⟩ := ih hk
        rw [Nat.add_comm]
        simp [hitem, hfilter]
        omega

theorem take_trim {f k : ℕ} (hfk : f ≤ k) (hk : k ≤ items.length) :
    items.take (trimPreTurnContextUpdates rules items f k) =
      items.take f ++ ((items.take k).drop f).rdropWhile (isPreTurnContextUpdate rules) := by
  induction k with
  | zero =>
    obtain rfl : f = 0 := by omega
    simp [trimPreTurnContextUpdates]
  | succ k ih =>
    obtain ⟨item, hitem⟩ : ∃ item, items[k]? = some item := ⟨items[k], getElem?_eq_getElem hk⟩
    have htake : items.take (k + 1) = items.take k ++ [item] := by
      rw [take_add_one, hitem]
      rfl
    rw [trimPreTurnContextUpdates, hitem, Option.any_some]
    rcases Nat.lt_or_ge f (k + 1) with hlt | hge
    · have hdrop : (items.take (k + 1)).drop f = (items.take k).drop f ++ [item] := by
        rw [htake, drop_append_of_le_length]
        rw [length_take]
        omega
      rw [hdrop]
      cases hpre : isPreTurnContextUpdate rules item with
      | true =>
        rw [if_pos ⟨hlt, rfl⟩, ih (by omega) (by omega), rdropWhile_concat_pos _ _ _ hpre]
      | false =>
        rw [if_neg (fun h => Bool.false_ne_true h.2),
          rdropWhile_concat_neg _ _ _ (by simp [hpre]), ← hdrop]
        have hsplit := take_append_drop f (items.take (k + 1))
        rw [take_take, Nat.min_eq_left hfk] at hsplit
        exact hsplit.symm
    · obtain rfl : f = k + 1 := by omega
      simp

theorem positions_sorted : (userMessagePositions rules items).Pairwise (· < ·) := by
  induction items with
  | nil => exact Pairwise.nil
  | cons item items ih =>
    have hshift : ((userMessagePositions rules items).map (1 + ·)).Pairwise (· < ·) := by
      rw [pairwise_map]
      exact ih.imp fun h => Nat.add_lt_add_left h 1
    rw [positions_cons]
    cases isUserTurnBoundary rules item with
    | false => simpa using hshift
    | true =>
      refine pairwise_cons.2 ⟨fun k hk => ?_, hshift⟩
      obtain ⟨j, -, rfl⟩ := mem_map.1 hk
      omega

theorem dropLastNUserTurns_of_none {n : ℕ} (hnone : items.any (isUserTurnBoundary rules) = false) :
    dropLastNUserTurns rules items n = items := by
  rw [dropLastNUserTurns, positions_eq_nil_iff.2 hnone]
  split <;> rfl

theorem dropLastNUserTurns_eq {n : ℕ} (hn : n ≠ 0)
    (hany : items.any (isUserTurnBoundary rules) = true) :
    ∃ first cut, (userMessagePositions rules items)[0]? = some first ∧
      (userMessagePositions rules items)[(userMessagePositions rules items).length - n]? =
        some cut ∧ first ≤ cut ∧
      dropLastNUserTurns rules items n =
        items.take first ++ ((items.take cut).drop first).rdropWhile
          (isPreTurnContextUpdate rules) := by
  rw [dropLastNUserTurns, if_neg hn]
  have hsorted : (userMessagePositions rules items).Pairwise (· < ·) := positions_sorted
  cases hpositions : userMessagePositions rules items with
  | nil =>
    rw [positions_eq_nil_iff.1 hpositions] at hany
    cases hany
  | cons first rest =>
    rw [hpositions] at hsorted
    have hlast : (first :: rest).length - n < (first :: rest).length := by
      simp only [length_cons]
      omega
    obtain ⟨cut, hcut⟩ : ∃ cut, (first :: rest)[(first :: rest).length - n]? = some cut :=
      ⟨_, getElem?_eq_getElem hlast⟩
    have hle : first ≤ cut := by
      rcases mem_cons.1 (mem_of_getElem? hcut) with rfl | hmem
      · exact Nat.le_refl _
      · exact Nat.le_of_lt (rel_of_pairwise_cons hsorted hmem)
    have hcutlt : cut < items.length := (filter_take_position (hpositions ▸ hcut)).2
    refine ⟨first, cut, rfl, hcut, hle, ?_⟩
    rw [← take_trim hle (Nat.le_of_lt hcutlt)]
    dsimp only
    congr 2
    split
    · rename_i hge
      rw [Nat.sub_eq_zero_of_le hge] at hcut
      exact Option.some.inj hcut
    · rw [getD_eq_getElem?_getD, hcut]
      rfl

theorem filter_dropLastNUserTurns (items : List (ResponseItem δ)) (n : ℕ) :
    (dropLastNUserTurns rules items n).filter (isUserTurnBoundary rules) =
      (items.filter (isUserTurnBoundary rules)).take
        ((items.filter (isUserTurnBoundary rules)).length - n) := by
  by_cases hn : n = 0
  · simp [dropLastNUserTurns, hn]
  · cases hany : items.any (isUserTurnBoundary rules) with
    | false =>
      have hnil : items.filter (isUserTurnBoundary rules) = [] := by
        simpa using hany
      rw [dropLastNUserTurns_of_none hany, hnil, take_nil]
    | true =>
      obtain ⟨first, cut, -, hcut, hle, heq⟩ := dropLastNUserTurns_eq hn hany
      rw [← length_positions, ← (filter_take_position hcut).1, heq]
      -- what is trimmed before the cut holds no boundary
      have htrim (l : List (ResponseItem δ)) :
          (l.rdropWhile (isPreTurnContextUpdate rules)).filter (isUserTurnBoundary rules) =
            l.filter (isUserTurnBoundary rules) := by
        induction l using reverseRecOn with
        | nil => rfl
        | append_singleton l item ih =>
          cases hpre : isPreTurnContextUpdate rules item with
          | false => rw [rdropWhile_concat_neg _ _ _ (by simp [hpre])]
          | true =>
            rw [rdropWhile_concat_pos _ _ _ hpre, ih]
            cases hboundary : isUserTurnBoundary rules item with
            | false => simp [hboundary]
            | true =>
              rw [isPreTurnContextUpdate_of_boundary hboundary] at hpre
              cases hpre
      rw [filter_append, htrim, ← filter_append]
      have hsplit := take_append_drop first (items.take cut)
      rw [take_take, Nat.min_eq_left hle] at hsplit
      rw [hsplit]

theorem takeWhile_eq_take {first : ℕ} (h : (userMessagePositions rules items)[0]? = some first) :
    items.takeWhile (!isUserTurnBoundary rules ·) = items.take first := by
  induction items generalizing first with
  | nil => cases h
  | cons item items ih =>
    rw [positions_cons] at h
    cases hitem : isUserTurnBoundary rules item with
    | true =>
      obtain rfl : 0 = first := by simpa [hitem] using h
      simp [hitem]
    | false =>
      simp only [hitem, Bool.false_eq_true, if_false, nil_append, getElem?_map,
        Option.map_eq_some_iff] at h
      obtain ⟨k, hk, rfl⟩ := h
      rw [Nat.add_comm, take_succ_cons, takeWhile_cons, hitem, ih hk]
      rfl

variable (rules) in
theorem exists_dropLastNUserTurns_append (items : List (ResponseItem δ)) (n : ℕ) :
    ∃ dropped, dropLastNUserTurns rules items n ++ dropped = items := by
  rw [dropLastNUserTurns]
  split
  · exact ⟨[], append_nil items⟩
  · dsimp only
    split
    · exact ⟨[], append_nil items⟩
    · exact ⟨_, take_append_drop _ items⟩

variable (rules) in
theorem positions_dropLastNUserTurns (items : List (ResponseItem δ)) (n : ℕ) :
    userMessagePositions rules (dropLastNUserTurns rules items n) =
      (userMessagePositions rules items).take ((userMessagePositions rules items).length - n) := by
  have hlength : (userMessagePositions rules (dropLastNUserTurns rules items n)).length =
      (userMessagePositions rules items).length - n := by
    rw [length_positions, filter_dropLastNUserTurns, length_take, length_positions]
    omega
  obtain ⟨dropped, hdropped⟩ := exists_dropLastNUserTurns_append rules items n
  have hsplit : userMessagePositions rules (dropLastNUserTurns rules items n ++ dropped) = _ :=
    positions_append
  rw [hdropped] at hsplit
  rw [← hlength, hsplit, take_left]

theorem dropLastNUserTurns_add (items : List (ResponseItem δ)) (n m : ℕ) :
    dropLastNUserTurns rules (dropLastNUserTurns rules items n) m =
      dropLastNUserTurns rules items (n + m) := by
  by_cases hn : n = 0
  · subst hn
    rw [Nat.zero_add, dropLastNUserTurns.eq_def rules items 0, if_pos rfl]
  by_cases hm : m = 0
  · subst hm
    rw [dropLastNUserTurns, if_pos rfl, Nat.add_zero]
  cases hany : items.any (isUserTurnBoundary rules) with
  | false => rw [dropLastNUserTurns_of_none hany, dropLastNUserTurns_of_none hany,
    dropLastNUserTurns_of_none hany]
  | true =>
    obtain ⟨first, cut, hfirst, hcut, -, heq⟩ := dropLastNUserTurns_eq hn hany
    obtain ⟨first', cut', hfirst', hcut', hle, heq'⟩ :=
      dropLastNUserTurns_eq (n := n + m) (by omega) hany
    obtain rfl : first = first' := Option.some.inj (hfirst.symm.trans hfirst')
    have hpositions := positions_dropLastNUserTurns rules items n
    cases hleft : (dropLastNUserTurns rules items n).any (isUserTurnBoundary rules) with
    | false =>
      -- the first drop has taken every turn, and both cuts are at the first boundary
      rw [positions_eq_nil_iff.2 hleft, eq_comm, take_eq_nil_iff] at hpositions
      have hnone : (userMessagePositions rules items).length - n = 0 := by
        refine hpositions.resolve_right fun hnil => ?_
        rw [hnil] at hfirst
        cases hfirst
      rw [hnone, hfirst] at hcut
      rw [← Nat.sub_sub, hnone, Nat.zero_sub, hfirst] at hcut'
      rw [dropLastNUserTurns_of_none hleft, heq, heq', Option.some.inj (hcut.symm.trans hcut')]
    | true =>
      obtain ⟨first', cut'', hfirst', hcut'', -, heq''⟩ := dropLastNUserTurns_eq hm hleft
      have hlt := (filter_take_position hcut'').2
      rw [hpositions, length_take, Nat.min_eq_left (Nat.sub_le _ _), Nat.sub_sub,
        getElem?_take] at hcut''
      rw [hpositions, getElem?_take] at hfirst'
      obtain rfl : first' = first := by
        split at hfirst'
        · exact Option.some.inj (hfirst'.symm.trans hfirst)
        · cases hfirst'
      obtain rfl : cut'' = cut' := by
        split at hcut''
        · exact Option.some.inj (hcut''.symm.trans hcut')
        · cases hcut''
      obtain ⟨dropped, hdropped⟩ := exists_dropLastNUserTurns_append rules items n
      have htake {k : ℕ} (hk : k ≤ (dropLastNUserTurns rules items n).length) :
          (dropLastNUserTurns rules items n).take k = items.take k :=
        (take_append_of_le_length hk).symm.trans (congrArg (take k) hdropped)
      rw [heq'', heq', htake (Nat.le_of_lt hlt), htake (Nat.le_trans hle (Nat.le_of_lt hlt))]

/-- Two rollbacks drop the turns of both. What is left is the start of the history, with what stands
before its first turn. -/
theorem rollbacks_compose (rules : Recognizers δ) (h : List (ResponseItem δ)) (n m : ℕ) :
    let result := dropLastNUserTurns rules (dropLastNUserTurns rules h n) m
    result = dropLastNUserTurns rules h (n + m) ∧ result <+: h ∧
      (result.filter (isUserTurnBoundary rules)).length =
        (h.filter (isUserTurnBoundary rules)).length - n - m ∧
      h.takeWhile (!isUserTurnBoundary rules ·) <+: result := by
  intro result
  have hresult : result = dropLastNUserTurns rules h (n + m) := dropLastNUserTurns_add h n m
  refine ⟨hresult, ?_, ?_, ?_⟩
  · rw [hresult]
    exact exists_dropLastNUserTurns_append rules h (n + m)
  · rw [hresult, filter_dropLastNUserTurns, length_take]
    omega
  · rw [hresult]
    by_cases hzero : n + m = 0
    · rw [dropLastNUserTurns, if_pos hzero]
      exact takeWhile_prefix _
    cases hany : h.any (isUserTurnBoundary rules) with
    | false =>
      rw [dropLastNUserTurns_of_none hany]
      exact takeWhile_prefix _
    | true =>
      obtain ⟨first, cut, hfirst, -, -, heq⟩ := dropLastNUserTurns_eq hzero hany
      rw [heq, takeWhile_eq_take hfirst]
      exact prefix_append _ _

theorem positions_eq_nil_of_not (hpost : ∀ item ∈ post, isUserTurnBoundary rules item = false) :
    userMessagePositions rules post = [] := by
  rw [positions_eq_nil_iff, any_eq_false]
  intro item hitem
  rw [hpost item hitem]
  exact Bool.false_ne_true

theorem dropLast_one (hb : isUserTurnBoundary rules b = true)
    (hpost : ∀ item ∈ post, isUserTurnBoundary rules item = false) :
    dropLastNUserTurns rules (L ++ b :: post) 1 =
      L.take ((userMessagePositions rules L).headD L.length) ++
        (L.drop ((userMessagePositions rules L).headD L.length)).rdropWhile
          (isPreTurnContextUpdate rules) := by
  have hany : (L ++ b :: post).any (isUserTurnBoundary rules) = true := by simp [hb]
  have hpositions : userMessagePositions rules (L ++ b :: post) =
      userMessagePositions rules L ++ [L.length] := by
    rw [positions_append, positions_cons, if_pos hb, positions_eq_nil_of_not hpost]
    rfl
  obtain ⟨first, cut, hfirst, hcut, hle, heq⟩ := dropLastNUserTurns_eq Nat.one_ne_zero hany
  rw [hpositions] at hfirst hcut
  obtain rfl : L.length = cut := by simpa using hcut
  obtain rfl : (userMessagePositions rules L).headD L.length = first := by
    cases h : userMessagePositions rules L with
    | nil | cons => simpa [h] using hfirst
  rw [heq, take_left, take_append_of_le_length hle]

theorem exists_last_boundary (h : items.any (isUserTurnBoundary rules) = true) :
    ∃ first boundary post, items = first ++ boundary :: post ∧
      isUserTurnBoundary rules boundary = true ∧
      ∀ item ∈ post, isUserTurnBoundary rules item = false := by
  induction items with
  | nil => cases h
  | cons item items ih =>
    by_cases hlater : items.any (isUserTurnBoundary rules) = true
    · obtain ⟨first, boundary, post, rfl, hboundary, hpost⟩ := ih hlater
      exact ⟨item :: first, boundary, post, rfl, hboundary, hpost⟩
    · rw [Bool.not_eq_true] at hlater
      rw [any_cons, hlater, Bool.or_false] at h
      exact ⟨[], item, items, rfl, h,
        fun item hitem => Bool.eq_false_iff.2 (any_eq_false.1 hlater item hitem)⟩

theorem rdropWhile_append_eq_left_iff {α : Type} {p : α → Bool} {l l' : List α} :
    (l ++ l').rdropWhile p = l ↔ (∀ x ∈ l', p x = true) ∧ l.getLast?.any p = false := by
  induction l' using reverseRecOn with
  | nil =>
    cases l using reverseRecOn with
    | nil | append_singleton => simp
  | append_singleton l' x ih =>
    rw [← append_assoc]
    cases hx : p x with
    | true =>
      rw [rdropWhile_concat_pos _ _ _ hx, ih]
      simp [or_imp, forall_and, hx]
    | false =>
      rw [rdropWhile_concat_neg _ _ _ (by simp [hx])]
      refine iff_of_false ?_ ?_
      · intro h
        have hlength := congrArg length h
        simp at hlength
      · rintro ⟨h, -⟩
        rw [h x (by simp)] at hx
        cases hx

/-- Dropping a turn gives the history before it just when the items before the turn's boundary are
trimmed, and nothing older is. -/
theorem dropLast_one_eq_iff {H pre : List (ResponseItem δ)} (hb : isUserTurnBoundary rules b = true)
    (hpost : ∀ item ∈ post, isUserTurnBoundary rules item = false) :
    dropLastNUserTurns rules (H ++ pre ++ b :: post) 1 = H ↔
      if H.any (isUserTurnBoundary rules) then
        (∀ item ∈ pre, isPreTurnContextUpdate rules item = true) ∧
          H.getLast?.any (isPreTurnContextUpdate rules) = false
      else pre = [] := by
  rw [dropLast_one hb hpost, positions_append]
  cases hH : userMessagePositions rules H with
  | cons first rest =>
    have hany : H.any (isUserTurnBoundary rules) = true := by
      by_contra hnot
      rw [positions_eq_nil_iff.2 (by simpa using hnot)] at hH
      cases hH
    have hfirst : (userMessagePositions rules H)[0]? = some first := by rw [hH]; rfl
    have hlt : first < H.length := (filter_take_position hfirst).2
    have hlast : (H.drop first).getLast? = H.getLast? := by
      rw [getLast?_drop, if_neg (by omega)]
    rw [if_pos hany, cons_append, headD_cons, take_append_of_le_length (Nat.le_of_lt hlt),
      drop_append_of_le_length (Nat.le_of_lt hlt), ← hlast, ← rdropWhile_append_eq_left_iff]
    nth_rewrite 3 [← take_append_drop first H]
    rw [append_cancel_left_eq]
  | nil =>
    rw [if_neg (by rw [positions_eq_nil_iff.1 hH]; exact Bool.false_ne_true), nil_append]
    cases hpre : userMessagePositions rules pre with
    | nil =>
      rw [map_nil, headD_nil, take_length]
      simp
    | cons g rest =>
      -- the walk stops at the first boundary among the items before the last one
      obtain ⟨item, hitem, hboundary⟩ := boundary_of_mem_positions (hpre ▸ mem_cons_self)
      rw [map_cons, headD_cons, take_length_add_append, drop_length_add_append]
      have hmem : item ∈ pre.drop g := by
        have hzero : (pre.drop g)[0]? = some item := by rw [getElem?_drop, Nat.add_zero, hitem]
        exact mem_of_getElem? hzero
      refine iff_of_false ?_ ?_
      · intro h
        have hnil : pre.take g ++ (pre.drop g).rdropWhile (isPreTurnContextUpdate rules) = [] := by
          rw [append_assoc] at h
          exact append_right_eq_self.1 h
        have hall := rdropWhile_eq_nil_iff.1 (append_eq_nil_iff.1 hnil).2 item hmem
        rw [isPreTurnContextUpdate_of_boundary hboundary] at hall
        cases hall
      · rintro rfl
        cases hpre

end OmniDoer.Conversation
