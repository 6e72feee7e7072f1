import OmniDoer.Verification.Permissions.Additional
import Mathlib.Data.List.Permutation

/-! # The order of the entries

The nearest entry decides wherever it stands in the list. Of the protected directories on the way to
a path only the first one of the list is asked about, and another order may ask about another. -/

namespace OmniDoer.Permissions.FileSystemSandboxPolicy

open Rust Unix Rules

variable {policy P Q : FileSystemSandboxPolicy} {env : Env} {p m w cwd : AbsolutePath} {n : Text}

/-- Write access leads back into a protected directory on the way to a path. -/
def Opened (policy : FileSystemSandboxPolicy) (env : Env) (cwd p m : AbsolutePath) : Prop :=
  ∃ w, policy.Rule env cwd w .write ∧ m <+: w ∧ w <+: p

/-- The protected directory `w/n` lies on the way to a path, below an entry with write access. -/
def Protects (policy : FileSystemSandboxPolicy) (env : Env) (cwd p w : AbsolutePath)
    (n : Text) : Prop :=
  policy.Rule env cwd w .write ∧ n ∈ protectedMetadataPathNames ∧ w ++ [n] <+: p

/-- The nearest entry gives write access, and of two protected directories on the way to the path
one is opened again and one is not. -/
def Contested (policy : FileSystemSandboxPolicy) (env : Env) (cwd p : AbsolutePath) : Prop :=
  (∃ q, Nearest (policy.Rule env cwd) p q .write) ∧ policy.hasFullDiskWriteAccess = false ∧
    ∃ w n w' n', policy.Protects env cwd p w n ∧ policy.Protects env cwd p w' n' ∧
      policy.Opened env cwd p (w ++ [n]) ∧ ¬ policy.Opened env cwd p (w' ++ [n'])

theorem denied_iff (hkind : policy.kind = .restricted) :
    policy.isMetadataWriteDenied env p cwd = true ↔
    ∃ m n, policy.metadataChildOfWritableRoot env p cwd = some (m, n) ∧
      ¬ policy.Opened env cwd p m := by
  rw [isMetadataWriteDenied_iff hkind]
  simp [Opened]

/-- Directories that agree can be asked about in any order. -/
theorem denied_iff_of_agree (hkind : policy.kind = .restricted)
    (hagree : ∀ w n w' n', policy.Protects env cwd p w n → policy.Protects env cwd p w' n' →
      policy.Opened env cwd p (w ++ [n]) → policy.Opened env cwd p (w' ++ [n'])) :
    policy.isMetadataWriteDenied env p cwd = true ↔
      ∃ w n, policy.Protects env cwd p w n ∧ ¬ policy.Opened env cwd p (w ++ [n]) := by
  rw [denied_iff hkind]
  constructor
  · rintro ⟨_, n, hchild, hnot⟩
    obtain ⟨w, hrule, rfl, hname, habove⟩ := metadataChild_spec hchild
    exact ⟨w, n, ⟨hrule, hname, habove⟩, hnot⟩
  · rintro ⟨w, n, hprotects, hnot⟩
    obtain ⟨_, n', hchild⟩ := exists_metadataChild hprotects.1 hprotects.2.1 hprotects.2.2
    obtain ⟨w', hrule, rfl, hname, habove⟩ := metadataChild_spec hchild
    exact ⟨_, n', hchild,
      fun hopened => hnot (hagree w' n' w n ⟨hrule, hname, habove⟩ hprotects hopened)⟩

/-- The entry of a protected directory put first. -/
theorem exists_first (h : policy.Protects env cwd p w n) : ∃ entries, entries.Perm policy.entries ∧
    { policy with entries }.metadataChildOfWritableRoot env p cwd = some (w ++ [n], n) := by
  obtain ⟨hrule, hname, habove⟩ := h
  obtain ⟨e, he, hpath, haccess⟩ := rule_iff.1 hrule
  refine ⟨e :: policy.entries.erase e, (List.perm_cons_erase he).symm, ?_⟩
  have hchild : entryChild env cwd p e = some (w ++ [n], n) := by
    rw [entryChild, haccess, hpath]
    exact protectedChild_eq_some.2 ⟨hname, rfl, habove⟩
  rw [metadataChild_eq_findSome?, List.findSome?_cons, hchild]

/-- No order of the entries changes what may be read, and none changes what may be written just when
the protected directories on the way to the path agree. -/
theorem order_irrelevant_iff (policy : FileSystemSandboxPolicy) (env : Env) (cwd p : AbsolutePath)
    (hkind : policy.kind = .restricted) :
    (∀ entries, entries.Perm policy.entries →
      { policy with entries }.canReadPathWithCwd env p cwd = policy.canReadPathWithCwd env p cwd ∧
      { policy with entries }.canWritePathWithCwd env p cwd =
        policy.canWritePathWithCwd env p cwd) ↔
      ¬ policy.Contested env cwd p := by
  have hsame {entries : List FileSystemSandboxEntry} (h : entries.Perm policy.entries) :
      { policy with entries }.SameEntries policy := ⟨rfl, fun _ => h.mem_iff⟩
  constructor
  · rintro h ⟨⟨q, hnearest⟩, hfull, w, n, w', n', hw, hw', hopened, hnot⟩
    have hwrites {entries : List FileSystemSandboxEntry} (hperm : entries.Perm policy.entries) :
        policy.canWritePathWithCwd env p cwd = true ↔
          { policy with entries }.isMetadataWriteDenied env p cwd = false := by
      rw [← (h entries hperm).2, canWrite_iff ((hsame hperm).hasFullDiskWriteAccess_eq.trans hfull),
        (hsame hperm).resolveAccess_eq, resolveAccess_eq hkind hnearest]
      exact and_iff_right rfl
    have hopens {entries : List FileSystemSandboxEntry} (hperm : entries.Perm policy.entries)
        (m : AbsolutePath) :
        { policy with entries }.Opened env cwd p m ↔ policy.Opened env cwd p m := by
      simp only [Opened, (hsame hperm).rule_iff]
    -- with the opened directory first the path is written, with the other one first it is not
    obtain ⟨entries, hperm, hchild⟩ := exists_first hw
    obtain ⟨entries', hperm', hchild'⟩ := exists_first hw'
    have hwritten : policy.canWritePathWithCwd env p cwd = true := by
      rw [hwrites hperm, Bool.eq_false_iff, ne_eq,
        denied_iff (show { policy with entries }.kind = _ from hkind)]
      rintro ⟨m, k, hm, hclosed⟩
      cases hchild.symm.trans hm
      exact hclosed ((hopens hperm _).2 hopened)
    have hdenied := (denied_iff (show { policy with entries := entries' }.kind = _ from hkind)).2
      ⟨_, n', hchild', fun ho => hnot ((hopens hperm' _).1 ho)⟩
    rw [hwrites hperm', hdenied] at hwritten
    cases hwritten
  · intro hnot entries hperm
    have hP := hsame hperm
    refine ⟨hP.canRead_eq, ?_⟩
    rw [Bool.eq_iff_iff, canWrite_eq_true_iff, canWrite_eq_true_iff, hP.resolveAccess_eq,
      hP.hasFullDiskWriteAccess_eq]
    refine and_congr_right fun hwrite => not_congr (and_congr_right fun hfull => ?_)
    have hagree : ∀ w n w' n', policy.Protects env cwd p w n → policy.Protects env cwd p w' n' →
        policy.Opened env cwd p (w ++ [n]) → policy.Opened env cwd p (w' ++ [n']) := by
      intro w n w' n' hw hw' hopened
      by_contra hclosed
      exact hnot ⟨exists_nearest_write hkind hwrite, hfull, w, n, w', n', hw, hw', hopened, hclosed⟩
    rw [denied_iff_of_agree hkind hagree,
      denied_iff_of_agree (show { policy with entries }.kind = _ from hkind)]
    · simp only [Protects, Opened, hP.rule_iff]
    · simpa only [Protects, Opened, hP.rule_iff] using hagree

/-- A writable directory with a read-only one in it. -/
theorem order_irrelevant_iff_pair :
    let policy : FileSystemSandboxPolicy :=
      .restricted [⟨.path ["a".toList], .write, none⟩,
        ⟨.path ["a".toList, "b".toList], .read, none⟩]
    ¬ policy.Contested bareEnv [] ["a".toList, ".git".toList] := by
  refine (order_irrelevant_iff _ _ _ _ rfl).1 fun entries hperm => ?_
  rcases List.perm_pair.1 hperm with rfl | rfl
  · exact ⟨rfl, rfl⟩
  · decide +kernel

/-- A writable directory within a protected one, on the way to a protected one of its own. -/
theorem order_changes_write :
    let outer : FileSystemSandboxEntry := ⟨.path ["a".toList], .write, none⟩
    let inner : FileSystemSandboxEntry :=
      ⟨.path ["a".toList, ".git".toList, "b".toList], .write, none⟩
    let env := bareEnv
    let p := ["a".toList, ".git".toList, "b".toList, ".git".toList]
    [outer, inner].Perm [inner, outer] ∧
      (restricted [outer, inner]).canWritePathWithCwd env p [] = true ∧
      (restricted [inner, outer]).canWritePathWithCwd env p [] = false := by
  exact ⟨.swap _ _ _, by decide +kernel, by decide +kernel⟩

end OmniDoer.Permissions.FileSystemSandboxPolicy
