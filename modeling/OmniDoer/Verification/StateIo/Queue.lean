import OmniDoer.Library.ClaimQueue
import OmniDoer.Verification.StateIo.Updates

/-! # Queues in state files

A state file read as a queue. As long as its writes are changes of what the file holds,
nothing is taken from the queue twice; and if no change drops anything, what was written
stays. -/

namespace OmniDoer.StateIo

open Py Effects Queues

variable {ι π σ τ α : Type} [DecidableEq ι] [DecidableEq π]

/-- The calls of a store on its queue: the items are named after fresh identifiers. -/
structure QueueRules (Q : Queue τ String) (name : String → String)
    (Change : Memory π τ → τ → τ → Prop) : Prop where
  name_injective : Function.Injective name
  replaces : ∀ m before after, Change m before after → Replaces Q (m.issued.map name) before after

variable (X : Shared σ τ) (Q : Queue τ String) (name : String → String)

def current (w : World π σ) : Option τ := (X.view (w.files X.path)).toOption

def itemsOf (w : World π σ) : Set String := {k | ∃ t ∈ current X w, k ∈ Q.present t}

/-- What thread `i` was given and wrote. -/
def entryOf (pool : FilePool ι π σ α) (i : ι) : Entry τ String :=
  ⟨(memoryOf X pool i).issued.map name, (memoryOf X pool i).wrote⟩

/-- The queue is settled, and every identifier in use was issued. -/
structure Kept (env : Env) (initial : Set String) (pool : FilePool ι π σ α) : Prop where
  drawn : ∀ i, ∀ u ∈ (memoryOf X pool i).issued, ∃ n < pool.state.issued, u = env.ids n
  settled : Settled Q initial (current X pool.state) (entryOf X name pool)

variable {X Q name} {env : Env} {initial : Set String} {Change : Memory π τ → τ → τ → Prop}
variable {pool pool' : FilePool ι π σ α} {i : ι}

omit [DecidableEq π] in
theorem kept_start (hlog : pool.log = []) : Kept X Q name env (itemsOf X Q pool.state) pool where
  drawn := by
    intro i u hu
    rw [memoryOf, hlog] at hu
    cases hu
  settled := by
    refine .start _ (fun t ht k hk => ⟨t, ht, hk⟩) fun i => ?_
    rw [entryOf, memoryOf, hlog]
    rfl

omit [DecidableEq π] in
/-- A move keeps the queue settled: this is the step of the abstract queue that it is. -/
theorem Kept.moves (hids : Function.Injective env.ids) (hrules : QueueRules Q name Change)
    (hnew : ∀ n, name (env.ids n) ∉ initial) (h : Kept X Q name env initial pool)
    (hmoves : Moves env X Change pool pool' i) : Kept X Q name env initial pool' := by
  cases hmoves with
  | quiet hfile hissued hsame =>
    have hentries : entryOf X name pool' = entryOf X name pool := by
      funext j
      rw [entryOf, (hsame j).1, (hsame j).2, entryOf]
    constructor
    · intro j u hu
      rw [(hsame j).1] at hu
      rw [hissued]
      exact h.drawn j u hu
    · rw [hentries, current, hfile]
      exact h.settled
  | uuid hfile hissued hself hother hsame =>
    constructor
    · intro j u hu
      rw [hissued]
      have hold (hu : u ∈ (memoryOf X pool j).issued) :
          ∃ n < pool.state.issued + 1, u = env.ids n := by
        obtain ⟨n, hn, he⟩ := h.drawn j u hu
        exact ⟨n, by omega, he⟩
      by_cases hj : j = i
      · subst hj
        rw [hself, List.mem_append, List.mem_singleton] at hu
        rcases hu with hu | hu
        · exact hold hu
        · exact ⟨_, Nat.lt_succ_self _, hu⟩
      · rw [hother j hj] at hu
        exact hold hu
    · have hcurrent : current X pool'.state = current X pool.state := by
        rw [current, hfile, current]
      rw [hcurrent]
      refine h.settled.give (hnew pool.state.issued) ?_ (i := i) ?_ ?_
      · intro j hj
        obtain ⟨u, hu, he⟩ := List.mem_map.1 hj
        obtain ⟨n, hn, hun⟩ := h.drawn j u hu
        rw [hun] at he
        have := hids (hrules.name_injective he)
        omega
      · simp only [entryOf, hself, hsame, List.map_append, List.map_cons, List.map_nil]
      · intro j hj
        simp only [entryOf, hother j hj, hsame]
  | write before after hbefore hafter hchange hfirst hissued hself hother hsame =>
    constructor
    · intro j u hu
      rw [hsame] at hu
      rw [hissued]
      exact h.drawn j u hu
    · have hsettled := h.settled
      rw [current, hbefore] at hsettled
      rw [current, hafter]
      refine hsettled.write hfirst (hrules.replaces _ _ _ hchange) (i := i) ?_ ?_
      · simp only [entryOf, hself, hsame]
      · intro j hj
        simp only [entryOf, hother j hj, hsame]

variable (X Q) in
/-- What the file held at the start and what was written is still there. -/
structure Retained (first : World π σ) (pool : FilePool ι π σ α) : Prop where
  first : ∀ t ∈ current X first, ∃ now ∈ current X pool.state, Q.present t ⊆ Q.present now
  written : ∀ i before after, (memoryOf X pool i).wrote = some (before, after) →
    ∃ now ∈ current X pool.state, Q.present after ⊆ Q.present now

omit [DecidableEq π] in
theorem retained_start (hlog : pool.log = []) : Retained X Q pool.state pool where
  first t ht := ⟨t, ht, Set.Subset.rfl⟩
  written i before after hwrote := by
    rw [memoryOf, hlog] at hwrote
    cases hwrote

variable (hretains : ∀ m before after, Change m before after → Q.present before ⊆ Q.present after)

include hretains in
omit [DecidableEq π] in
theorem Retained.moves
    {first : World π σ} (h : Retained X Q first pool) (hmoves : Moves env X Change pool pool' i) :
    Retained X Q first pool' := by
  -- moves that leave the file alone
  have hcarried (hfile : pool'.state.files X.path = pool.state.files X.path)
      (hsame : ∀ j, (memoryOf X pool' j).wrote = (memoryOf X pool j).wrote) :
        Retained X Q first pool' := by
    have hcurrent : current X pool'.state = current X pool.state := by rw [current, hfile, current]
    constructor
    · rw [hcurrent]
      exact h.first
    · intro j before after hwrote
      rw [hsame] at hwrote
      rw [hcurrent]
      exact h.written j before after hwrote
  cases hmoves with
  | quiet hfile _ hsame => exact hcarried hfile fun j => (hsame j).2
  | uuid hfile _ _ _ hsame => exact hcarried hfile hsame
  | write before after hbefore hafter hchange hfirst _ hself hother _ =>
    have hnow : current X pool'.state = some after := by rw [current, hafter]; rfl
    have hthen : current X pool.state = some before := by rw [current, hbefore]; rfl
    -- whatever was there is in the content that is replaced, and so in the new one
    have hstays {s : Set String} (hs : ∃ now ∈ current X pool.state, s ⊆ Q.present now) :
        ∃ now ∈ current X pool'.state, s ⊆ Q.present now := by
      obtain ⟨now, hmem, hsub⟩ := hs
      rw [hthen] at hmem
      cases hmem
      exact ⟨after, hnow, hsub.trans (hretains _ _ _ hchange)⟩
    constructor
    · exact fun t ht => hstays (h.first t ht)
    · intro j b a hwrote
      by_cases hj : j = i
      · subst hj
        rw [hself] at hwrote
        cases hwrote
        exact ⟨after, hnow, Set.Subset.rfl⟩
      · rw [hother j hj] at hwrote
        exact hstays (h.written j b a hwrote)

variable (pool) {proc : ι → π} {post : ι → Memory π τ → Except Error α → Prop}
  (hlog : pool.log = [])
variable (hstart : ∀ i, (pool.threads i).Meets (touching X (proc i) Change) (post i) .start)
  {schedule : List ι}
variable (hschedule : Pool.Throughout (exec env)
  (fun pool i => Permitted locking pool i ∧ Undisturbed proc pool i) pool schedule)

include hlog hstart hschedule

theorem kept_run (hids : Function.Injective env.ids) (hrules : QueueRules Q name Change)
    (hnew : ∀ n, name (env.ids n) ∉ itemsOf X Q pool.state) :
    Shares X proc Change post (pool.run (exec env) schedule) ∧
      Kept X Q name env (itemsOf X Q pool.state) (pool.run (exec env) schedule) := by
  refine Along.invariant
    (fun p => Shares X proc Change post p ∧ Kept X Q name env (itemsOf X Q pool.state) p)
    (fun p i h hside => ?_) ⟨.start hlog hstart, kept_start hlog⟩ hschedule
  exact ⟨h.1.step env hside.1 hside.2, h.2.moves hids hrules hnew (h.1.moves env hside.2)⟩

include hretains in
theorem retained_run :
    Shares X proc Change post (pool.run (exec env) schedule) ∧
      Retained X Q pool.state (pool.run (exec env) schedule) := by
  refine Along.invariant (fun p => Shares X proc Change post p ∧ Retained X Q pool.state p)
    (fun p i h hside => ?_) ⟨.start hlog hstart, retained_start hlog⟩ hschedule
  exact ⟨h.1.step env hside.1 hside.2, h.2.moves hretains (h.1.moves env hside.2)⟩

end OmniDoer.StateIo
