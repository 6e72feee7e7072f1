import Mathlib.Data.Set.Basic
import Mathlib.Data.List.Basic

/-! A queue that its writers replace as a whole, each at most once. Items wait until a
writer takes them. A writer adds only items whose keys it was given, and no key is given
twice. If every write replaces what is there, no item is taken twice. -/

namespace Queues

variable {ι τ κ : Type*}

/-- The items of a queue, and those of them that wait. -/
structure Queue (τ κ : Type*) where
  present : τ → Set κ
  waiting : τ → Set κ
  waiting_subset : ∀ t, waiting t ⊆ present t

/-- The keys that a writer was given, and what it wrote over what. -/
structure Entry (τ κ : Type*) where
  given : List κ
  wrote : Option (τ × τ)

/-- The keys of a writer that has written are in use. -/
def Entry.Owns (e : Entry τ κ) (k : κ) : Prop := e.wrote.isSome = true ∧ k ∈ e.given

variable (Q : Queue τ κ)

/-- The write after which the item no longer waits. -/
def Entry.Takes (e : Entry τ κ) (k : κ) : Prop :=
  ∃ before after, e.wrote = some (before, after) ∧ k ∈ Q.waiting before ∧ k ∉ Q.waiting after

theorem Entry.isSome_of_takes {e : Entry τ κ} {k : κ} (h : e.Takes Q k) :
    e.wrote.isSome = true := by
  obtain ⟨before, after, hwrote, -⟩ := h
  rw [hwrote]
  rfl

/-- What is new in the queue has one of the keys; nothing waits again. -/
structure Replaces (given : List κ) (before after : τ) : Prop where
  present : ∀ k ∈ Q.present after, k ∈ Q.present before ∨ k ∈ given
  waiting : ∀ k ∈ Q.waiting after, k ∈ Q.waiting before ∨ k ∈ given

/-- The writes add up. The queue may be unreadable. -/
structure Settled (initial : Set κ) (now : Option τ) (entries : ι → Entry τ κ) : Prop where
  fresh : ∀ i, ∀ k ∈ (entries i).given, k ∉ initial
  separate : ∀ i j k, k ∈ (entries i).given → k ∈ (entries j).given → i = j
  known : ∀ t ∈ now, ∀ k ∈ Q.present t, k ∈ initial ∨ ∃ j, (entries j).Owns k
  taken : ∀ j k, (entries j).Takes Q k →
    (∀ t ∈ now, k ∉ Q.waiting t) ∧ (k ∈ initial ∨ ∃ i, (entries i).Owns k)
  once : ∀ i j k, (entries i).Takes Q k → (entries j).Takes Q k → i = j

variable {Q} {initial : Set κ} {now : Option τ} {entries entries' : ι → Entry τ κ}

theorem Settled.start (now : Option τ) (hnow : ∀ t ∈ now, Q.present t ⊆ initial)
    (hentries : ∀ i, entries i = ⟨[], none⟩) : Settled Q initial now entries where
  fresh i k hk := by simp [hentries] at hk
  separate i j k hk := by simp [hentries] at hk
  known t ht k hk := .inl (hnow t ht hk)
  taken j k hk := by simpa [hentries] using Entry.isSome_of_takes Q hk
  once i j k hk := by simpa [hentries] using Entry.isSome_of_takes Q hk

/-- A writer is given a key that nobody has. -/
theorem Settled.give (h : Settled Q initial now entries) {i : ι} {k : κ} (hinitial : k ∉ initial)
    (hnobody : ∀ j, k ∉ (entries j).given)
    (hself : entries' i = ⟨(entries i).given ++ [k], (entries i).wrote⟩)
    (hother : ∀ j, j ≠ i → entries' j = entries j) : Settled Q initial now entries' := by
  have hwrote (j : ι) : (entries' j).wrote = (entries j).wrote := by
    by_cases hj : j = i
    · rw [hj, hself]
    · rw [hother j hj]
  have hgiven (j : ι) (k' : κ) (hk' : k' ∈ (entries' j).given) :
      k' ∈ (entries j).given ∨ j = i ∧ k' = k := by
    by_cases hj : j = i
    · subst hj
      rw [hself, List.mem_append, List.mem_singleton] at hk'
      exact hk'.imp_right fun hk => ⟨rfl, hk⟩
    · rw [hother j hj] at hk'
      exact .inl hk'
  have howns (j : ι) (k' : κ) (hk' : (entries j).Owns k') : (entries' j).Owns k' := by
    refine ⟨by rw [hwrote, hk'.1], ?_⟩
    by_cases hj : j = i
    · subst hj
      rw [hself]
      exact List.mem_append_left _ hk'.2
    · rw [hother j hj]
      exact hk'.2
  have htakes (j : ι) (k' : κ) (hk' : (entries' j).Takes Q k') : (entries j).Takes Q k' := by
    rwa [Entry.Takes, hwrote] at hk'
  constructor
  · intro j k' hk'
    rcases hgiven j k' hk' with hold | ⟨-, rfl⟩
    · exact h.fresh j k' hold
    · exact hinitial
  · intro j j' k' hk hk'
    rcases hgiven j k' hk with hj | ⟨rfl, rfl⟩
    · rcases hgiven j' k' hk' with hj' | ⟨-, rfl⟩
      · exact h.separate j j' k' hj hj'
      · exact (hnobody j hj).elim
    · rcases hgiven j' k' hk' with hj' | ⟨rfl, -⟩
      · exact (hnobody j' hj').elim
      · rfl
  · exact fun t ht k' hk' => (h.known t ht k' hk').imp_right fun ⟨j, hj⟩ => ⟨j, howns j k' hj⟩
  · intro j k' hk'
    obtain ⟨hwaiting, hknown⟩ := h.taken j k' (htakes j k' hk')
    exact ⟨hwaiting, hknown.imp_right fun ⟨j, hj⟩ => ⟨j, howns j k' hj⟩⟩
  · exact fun j j' k' hk hk' => h.once j j' k' (htakes j k' hk) (htakes j' k' hk')

/-- A writer replaces what is there. -/
theorem Settled.write {before after : τ} (h : Settled Q initial (some before) entries) {i : ι}
    (hfirst : (entries i).wrote = none) (hreplaces : Replaces Q (entries i).given before after)
    (hself : entries' i = ⟨(entries i).given, some (before, after)⟩)
    (hother : ∀ j, j ≠ i → entries' j = entries j) : Settled Q initial (some after) entries' := by
  have hgiven (j : ι) : (entries' j).given = (entries j).given := by
    by_cases hj : j = i
    · rw [hj, hself]
    · rw [hother j hj]
  have hne (j : ι) (hj : (entries j).wrote.isSome = true) : j ≠ i := by
    rintro rfl
    rw [hfirst] at hj
    cases hj
  have howns (j : ι) (k : κ) (hk : (entries j).Owns k) : (entries' j).Owns k := by
    rw [hother j (hne j hk.1)]
    exact hk
  have hknown (k : κ) (hk : k ∈ Q.present before) : k ∈ initial ∨ ∃ j, (entries' j).Owns k :=
    (h.known before rfl k hk).imp_right fun ⟨j, hj⟩ => ⟨j, howns j k hj⟩
  -- a key that is taken or in use is not one of those that the writer was given
  have hforeign (j : ι) (k : κ) (hk : (entries j).Takes Q k) : k ∉ (entries i).given := by
    intro hmem
    rcases (h.taken j k hk).2 with hinitial | ⟨m, hm⟩
    · exact h.fresh i k hmem hinitial
    · exact hne m hm.1 (h.separate m i k hm.2 hmem)
  have htakes (j : ι) (k : κ) (hk : (entries' j).Takes Q k) :
      j = i ∧ k ∈ Q.waiting before ∧ k ∉ Q.waiting after ∨ (entries j).Takes Q k := by
    by_cases hj : j = i
    · obtain ⟨b, a, hwrote, hb, ha⟩ := hk
      rw [hj, hself] at hwrote
      cases hwrote
      exact .inl ⟨hj, hb, ha⟩
    · rw [hother j hj] at hk
      exact .inr hk
  constructor
  · intro j k hk
    rw [hgiven] at hk
    exact h.fresh j k hk
  · intro j j' k hk hk'
    rw [hgiven] at hk hk'
    exact h.separate j j' k hk hk'
  · rintro t ⟨⟩ k hk
    rcases hreplaces.present k hk with hk | hk
    · exact hknown k hk
    · refine .inr ⟨i, ?_⟩
      rw [hself]
      exact ⟨rfl, hk⟩
  · intro j k hk
    rcases htakes j k hk with ⟨-, hb, ha⟩ | hold
    · exact ⟨by rintro t ⟨⟩; exact ha, hknown k (Q.waiting_subset _ hb)⟩
    · obtain ⟨hwaiting, hused⟩ := h.taken j k hold
      refine ⟨?_, hused.imp_right fun ⟨m, hm⟩ => ⟨m, howns m k hm⟩⟩
      rintro t ⟨⟩ ha
      rcases hreplaces.waiting k ha with hb | hmem
      · exact hwaiting before rfl hb
      · exact hforeign j k hold hmem
  · intro j j' k hk hk'
    rcases htakes j k hk with ⟨hj, hb, -⟩ | hold
    · rcases htakes j' k hk' with ⟨hj', -⟩ | hold'
      · rw [hj, hj']
      · exact ((h.taken j' k hold').1 before rfl hb).elim
    · rcases htakes j' k hk' with ⟨-, hb, -⟩ | hold'
      · exact ((h.taken j k hold).1 before rfl hb).elim
      · exact h.once j j' k hold hold'

end Queues
