import OmniDoer.Library.PyJson

/-! Lookups in dictionaries. -/

namespace Py.Dict

open List

/-- The dictionary after `d.pop(key, None)`. -/
def pop (d : Dict) (key : String) : Dict := d.filter fun m => m.1 != key

@[simp] theorem get?_nil (k : String) : get? [] k = none := rfl

theorem get?_cons (k key : String) (v : Json) (d : Dict) :
    get? ((key, v) :: d) k = if k = key then some v else get? d k := by
  unfold get?
  rw [lookup_cons]
  split <;> simp_all

theorem get?_set (d : Dict) (key k : String) (v : Json) :
    get? (set d key v) k = if k = key then some v else get? d k := by
  induction d with
  | nil => exact get?_cons k key v []
  | cons m rest ih =>
    obtain ⟨key', v'⟩ := m
    unfold set
    split
    · rename_i hkey
      rw [get?_cons, get?_cons, hkey]
      split <;> rfl
    · rename_i hkey
      rw [get?_cons, get?_cons, ih]
      split
      · rename_i hk
        rw [if_neg (hk ▸ hkey)]
      · rfl

variable {d : Dict}

theorem set_of_notMem {key : String} (h : key ∉ d.map Prod.fst) (v : Json) :
    set d key v = d ++ [(key, v)] := by
  induction d with
  | nil => rfl
  | cons m d ih =>
    rw [map_cons, mem_cons, not_or] at h
    rw [set, if_neg (Ne.symm h.1), ih h.2, cons_append]

theorem get?_append (d d' : Dict) (k : String) : get? (d ++ d') k = (get? d k).or (get? d' k) := by
  induction d with
  | nil => rfl
  | cons m d ih =>
    rw [cons_append, get?_cons, get?_cons, ih]
    split <;> rfl

theorem get?_eq_none_iff {k : String} : get? d k = none ↔ k ∉ d.map Prod.fst := by
  induction d with
  | nil => simp
  | cons m d ih =>
    rw [get?_cons]
    split <;> simp [*]

theorem pop_append (d d' : Dict) (k : String) : pop (d ++ d') k = pop d k ++ pop d' k :=
  filter_append ..

theorem pop_of_notMem {k : String} (h : k ∉ d.map Prod.fst) : pop d k = d := by
  rw [pop, filter_eq_self]
  intro m hm
  have hne : m.1 ≠ k := fun he => h (mem_map.2 ⟨m, hm, he⟩)
  simpa using hne

theorem mem_keys_set {key k : String} {v : Json}
    (h : k ∈ (set d key v).map Prod.fst) : k = key ∨ k ∈ d.map Prod.fst := by
  induction d with
  | nil => exact .inl (by simpa [set] using h)
  | cons m rest ih =>
    obtain ⟨key', v'⟩ := m
    unfold set at h
    split at h
    · exact .inr h
    · rcases mem_cons.1 h with h | h
      · exact .inr (h ▸ mem_cons_self)
      · exact (ih h).imp_right (mem_cons_of_mem _)

theorem nodup_set (h : (d.map Prod.fst).Nodup) (key : String) (v : Json) :
    ((set d key v).map Prod.fst).Nodup := by
  induction d with
  | nil => exact nodup_singleton key
  | cons m rest ih =>
    obtain ⟨key', v'⟩ := m
    rw [map_cons, nodup_cons] at h
    unfold set
    split
    · rw [map_cons, nodup_cons]
      exact h
    · rename_i hkey
      rw [map_cons, nodup_cons]
      refine ⟨fun hmem => ?_, ih h.2⟩
      rcases mem_keys_set hmem with he | he
      · exact hkey he
      · exact h.1 he

theorem get?_foldl_set (members d : Dict) (k : String) (hk : k ∉ members.map Prod.fst) :
    get? (members.foldl (fun d m => set d m.1 m.2) d) k = get? d k := by
  induction members generalizing d with
  | nil => rfl
  | cons m members ih =>
    rw [map_cons, mem_cons, not_or] at hk
    rw [foldl_cons, ih _ hk.2, get?_set, if_neg hk.1]

theorem nodup_foldl_set (members : Dict) (h : (d.map Prod.fst).Nodup) :
    ((members.foldl (fun d m => set d m.1 m.2) d).map Prod.fst).Nodup := by
  induction members generalizing d with
  | nil => exact h
  | cons m members ih => exact ih (nodup_set h m.1 m.2)

theorem forall_mem_set {p : Json → Prop} (h : ∀ m ∈ d, p m.2) {key : String} {v : Json}
    (hv : p v) : ∀ m ∈ set d key v, p m.2 := by
  induction d with
  | nil =>
    intro m hm
    rw [mem_singleton.1 hm]
    exact hv
  | cons m rest ih =>
    obtain ⟨key', v'⟩ := m
    unfold set
    split
    · intro m hm
      rcases mem_cons.1 hm with rfl | hm
      · exact hv
      · exact h m (mem_cons_of_mem _ hm)
    · intro m hm
      rcases mem_cons.1 hm with rfl | hm
      · exact h _ mem_cons_self
      · exact ih (fun m hm => h m (mem_cons_of_mem _ hm)) m hm

theorem forall_mem_foldl_set {members d : Dict} {p : Json → Prop} (hm : ∀ m ∈ members, p m.2)
    (hd : ∀ m ∈ d, p m.2) : ∀ m ∈ members.foldl (fun d m => set d m.1 m.2) d, p m.2 := by
  induction members generalizing d with
  | nil => exact hd
  | cons m members ih =>
    rw [forall_mem_cons] at hm
    exact ih hm.2 (forall_mem_set hd hm.1)

theorem get?_eq_some_iff (h : (d.map Prod.fst).Nodup) (k : String) (v : Json) :
    get? d k = some v ↔ (k, v) ∈ d := by
  induction d with
  | nil => simp
  | cons m rest ih =>
    obtain ⟨key, v'⟩ := m
    rw [map_cons, nodup_cons] at h
    rw [get?_cons]
    by_cases hk : k = key
    · subst k
      have hnot : (key, v) ∉ rest := fun hm => h.1 (mem_map.2 ⟨_, hm, rfl⟩)
      simp [hnot, eq_comm]
    · simp [hk, ih h.2]

theorem get?_perm {d d' : Dict} (h : (d.map Prod.fst).Nodup) (hperm : d.Perm d') (k : String) :
    get? d k = get? d' k := by
  have h' : (d'.map Prod.fst).Nodup := (hperm.map Prod.fst).nodup_iff.1 h
  apply Option.ext
  intro v
  rw [get?_eq_some_iff h, get?_eq_some_iff h', hperm.mem_iff]

end Py.Dict
