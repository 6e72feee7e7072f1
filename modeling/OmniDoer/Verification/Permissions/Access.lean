import OmniDoer.Model.Permissions
import OmniDoer.Library.NearestRule

/-! # Access by the nearest entry

The access of a path under a restricted policy is that of the nearest resolved entry at or above
it, the greatest where several lead to one place. -/

namespace OmniDoer.Permissions

open Rust Unix Rules List

/-- Surroundings that know no directory and no pattern. -/
def bareEnv : Env := ⟨⟨none, none⟩, none, false, fun _ => none⟩

theorem FileSystemAccessMode.deny_le_iff {a : FileSystemAccessMode} : .deny ≤ a ↔ a = .deny := by
  cases a <;> decide

theorem foldl_precedence (rest : List ResolvedFileSystemEntry) (first : ResolvedFileSystemEntry) :
    let best := rest.foldl (fun best e => if best.precedence ≤ e.precedence then e else best) first
    (best = first ∨ best ∈ rest) ∧ first.precedence ≤ best.precedence ∧
      ∀ e ∈ rest, e.precedence ≤ best.precedence := by
  induction rest generalizing first with
  | nil => simp
  | cons next rest ih =>
    simp only [foldl_cons, mem_cons, forall_eq_or_imp]
    by_cases h : first.precedence ≤ next.precedence
    · obtain ⟨hmem, hnext, hrest⟩ := ih next
      rw [if_pos h]
      exact ⟨.inr hmem, h.trans hnext, hnext, hrest⟩
    · obtain ⟨hmem, hfirst, hrest⟩ := ih first
      rw [if_neg h]
      exact ⟨hmem.imp_right .inr, hfirst, (le_of_not_ge h).trans hfirst, hrest⟩

theorem mostSpecific_eq_some {entries : List ResolvedFileSystemEntry}
    {best : ResolvedFileSystemEntry} (h : mostSpecific entries = some best) :
    best ∈ entries ∧ ∀ e ∈ entries, e.precedence ≤ best.precedence := by
  cases entries with
  | nil => cases h
  | cons first rest =>
    cases h
    obtain ⟨hmem, hfirst, hrest⟩ := foldl_precedence rest first
    exact ⟨mem_cons.2 hmem, forall_mem_cons.2 ⟨hfirst, hrest⟩⟩

theorem mostSpecific_eq_none {entries : List ResolvedFileSystemEntry} :
    mostSpecific entries = none ↔ entries = [] := by
  cases entries <;> simp [mostSpecific]

namespace FileSystemSandboxPolicy

variable {policy : FileSystemSandboxPolicy} {env : Env} {p q cwd : AbsolutePath}
  {a : FileSystemAccessMode}

/-- An entry of the policy leads to `q` and gives the access `a`. -/
def Rule (policy : FileSystemSandboxPolicy) (env : Env) (cwd q : AbsolutePath)
    (a : FileSystemAccessMode) : Prop :=
  ⟨q, a⟩ ∈ policy.resolvedEntriesWithCwd env cwd

theorem rule_iff : policy.Rule env cwd q a ↔
    ∃ e ∈ policy.entries, resolveEntryPath env e.path cwd = some q ∧ e.access = a := by
  simp [Rule, resolvedEntriesWithCwd]

section

variable (hkind : policy.kind = .restricted)
include hkind

theorem resolveAccess_cases (p : AbsolutePath) :
    (∃ q, Nearest (policy.Rule env cwd) p q (policy.resolveAccessWithCwd env p cwd)) ∨
      ((∀ q a, policy.Rule env cwd q a → ¬ q <+: p) ∧
        policy.resolveAccessWithCwd env p cwd = .deny) := by
  rw [resolveAccessWithCwd, hkind]
  cases hbest : mostSpecific
    ((policy.resolvedEntriesWithCwd env cwd).filter (·.path.isPrefixOf p)) with
  | none =>
    right
    refine ⟨fun q a hrule habove => ?_, rfl⟩
    rw [mostSpecific_eq_none, filter_eq_nil_iff] at hbest
    exact hbest _ hrule (List.isPrefixOf_iff_prefix.2 habove)
  | some best =>
    left
    obtain ⟨hmem, hle⟩ := mostSpecific_eq_some hbest
    obtain ⟨hmem, habove⟩ := mem_filter.1 hmem
    rw [List.isPrefixOf_iff_prefix] at habove
    have hprecedence (y : AbsolutePath) (c : FileSystemAccessMode) (hrule : policy.Rule env cwd y c)
        (hy : y <+: p) :
        y.length < best.path.length ∨ y.length = best.path.length ∧ c ≤ best.access := by
      have h := hle ⟨y, c⟩ (mem_filter.2 ⟨hrule, List.isPrefixOf_iff_prefix.2 hy⟩)
      rw [ResolvedFileSystemEntry.precedence, ResolvedFileSystemEntry.precedence,
        Prod.Lex.toLex_le_toLex] at h
      simpa using h
    refine ⟨best.path, habove, hmem, fun c hc => ?_, fun y c hy hyp => ?_⟩
    · rcases hprecedence _ _ hc habove with h | h
      · exact absurd h (lt_irrefl _)
      · exact h.2
    · refine prefix_of_prefix_length_le hyp habove ?_
      rcases hprecedence _ _ hy hyp with h | h
      · exact h.le
      · exact h.1.le

theorem resolveAccess_eq (h : Nearest (policy.Rule env cwd) p q a) :
    policy.resolveAccessWithCwd env p cwd = a := by
  rcases resolveAccess_cases hkind p with ⟨q', h'⟩ | ⟨hnone, -⟩
  · exact (h'.unique h).2
  · exact absurd h.above (hnone q a h.rule)

theorem exists_nearest (hrule : policy.Rule env cwd q a) (hq : q <+: p) :
    ∃ q', Nearest (policy.Rule env cwd) p q' (policy.resolveAccessWithCwd env p cwd) := by
  rcases resolveAccess_cases hkind p with h | ⟨hnone, -⟩
  · exact h
  · exact absurd hq (hnone q a hrule)

theorem exists_nearest_of_ne_deny (h : policy.resolveAccessWithCwd env p cwd ≠ .deny) :
    ∃ q, Nearest (policy.Rule env cwd) p q (policy.resolveAccessWithCwd env p cwd) := by
  rcases resolveAccess_cases hkind p with h' | ⟨-, hdeny⟩
  · exact h'
  · exact absurd hdeny h

theorem exists_nearest_write (h : policy.resolveAccessWithCwd env p cwd = .write) :
    ∃ q, Nearest (policy.Rule env cwd) p q .write := by
  rw [← h]
  refine exists_nearest_of_ne_deny hkind ?_
  rw [h]
  exact nofun

end

theorem resolveAccess_of_ne_restricted (hkind : policy.kind ≠ .restricted) (p : AbsolutePath) :
    policy.resolveAccessWithCwd env p cwd = .write := by
  rw [resolveAccessWithCwd]
  cases h : policy.kind with
  | restricted => exact absurd h hkind
  | unrestricted | externalSandbox => rfl

end FileSystemSandboxPolicy

end OmniDoer.Permissions
