import OmniDoer.Model.Policy

/-! # Origins as keys of URLs

An origin joins a scheme, a host and a port into one text. The text determines the
scheme, and it determines host and port when no host can end in a colon and digits;
a bracketed IPv6 host can, because the brackets are gone by then. -/

namespace OmniDoer.Policy

open Py List

/-- The scheme, the host up to ASCII case and the port of a URL, each as given. -/
structure Authority where
  scheme : String
  host : String
  port : Option ℕ
  deriving DecidableEq

def authority (py : Interpreter) (url : String) : Except Error Authority := do
  let parsed ← SplitUrl.parse py url
  let port ← parsed.port
  return ⟨parsed.scheme, asciiLower parsed.rawHost, port⟩

/-- What an origin is put together from; `written` is the host before it is lowered. -/
structure OriginParts where
  scheme : String
  written : String
  host : String
  port : Option ℕ
  scheme_colon : ':' ∉ scheme.toList

def OriginParts.text (a : OriginParts) : String :=
  a.scheme ++ "://" ++ a.host ++ portSuffix a.port

def OriginParts.authority (a : OriginParts) : Authority := ⟨a.scheme, asciiLower a.written, a.port⟩

def originParts (py : Interpreter) (url : String) : Except Error (Option OriginParts) := do
  let parsed ← SplitUrl.parse py url
  if parsed.scheme = "" then return none
  match parsed.hostname py with
  | none => return none
  | some hostname =>
    let port ← parsed.port
    return some ⟨parsed.scheme, parsed.rawHost, py.lower hostname, port, parsed.scheme_colon⟩

theorem portSuffix_toList (port : Option ℕ) :
    (portSuffix port = "" ∧ (port = none ∨ port = some 0)) ∨
      ∃ n, n ≠ 0 ∧ port = some n ∧ (portSuffix port).toList = ':' :: Nat.toDigits 10 n := by
  cases port with
  | none => simp [portSuffix]
  | some n =>
    by_cases hn : n = 0
    · simp [portSuffix, hn]
    · right
      refine ⟨n, hn, rfl, ?_⟩
      simp only [portSuffix, if_neg hn, String.toList_append]
      rw [show toString n = n.repr from rfl, Nat.toList_repr]
      rfl

theorem colon_notMem_toDigits (n : ℕ) : ':' ∉ Nat.toDigits 10 n := by
  intro h
  exact absurd (Nat.isDigit_of_mem_toDigits (by decide) (by decide) h) (by decide)

theorem host_port_inj {x y : List Char} {m n : ℕ}
    (h : x ++ ':' :: Nat.toDigits 10 m = y ++ ':' :: Nat.toDigits 10 n) : x = y ∧ m = n := by
  have hrev := congrArg reverse h
  simp only [reverse_append, reverse_cons, append_assoc] at hrev
  obtain ⟨hdigits, hhost⟩ := append_sep_inj (by simpa using colon_notMem_toDigits m)
    (by simpa using colon_notMem_toDigits n) hrev
  refine ⟨reverse_injective hhost, ?_⟩
  rw [← Nat.ofDigitChars_ten_toDigits (n := m), (reverse_injective hdigits),
    Nat.ofDigitChars_ten_toDigits]

theorem OriginParts.text_eq_iff (a b : OriginParts) :
    a.text = b.text ↔
      a.scheme = b.scheme ∧ a.host ++ portSuffix a.port = b.host ++ portSuffix b.port := by
  constructor
  · intro h
    have hlist := congrArg String.toList h
    simp only [text, String.toList_append, append_assoc] at hlist
    obtain ⟨hscheme, hrest⟩ := append_sep_inj a.scheme_colon b.scheme_colon hlist
    refine ⟨String.toList_inj.1 hscheme, String.toList_inj.1 ?_⟩
    simpa using hrest
  · rintro ⟨hscheme, hrest⟩
    simp only [text, String.append_assoc, hscheme, hrest]

/-- The ways in which two URLs with different authorities share an origin. -/
inductive Confusable (a b : OriginParts) : Prop where
  /-- Port 0 is left out like an absent port. -/
  | portZero (hscheme : a.scheme = b.scheme) (hhost : a.host = b.host)
      (ha : a.port = none) (hb : b.port = some 0)
  /-- The host of `b` ends in the port of `a`, as an IPv6 address may. -/
  | portInHost (n : ℕ) (hscheme : a.scheme = b.scheme) (hn : n ≠ 0) (ha : a.port = some n)
      (hb : b.port = none ∨ b.port = some 0) (hhost : b.host = a.host ++ portSuffix (some n))
  /-- The written hosts differ by more than the case of ASCII letters. -/
  | unicodeCase (hscheme : a.scheme = b.scheme) (hhost : a.host = b.host)
      (hport : a.port = b.port) (hwritten : asciiLower a.written ≠ asciiLower b.written)

variable {a b : OriginParts}

theorem Confusable.text_eq (h : Confusable a b) : a.text = b.text := by
  apply (a.text_eq_iff b).2
  cases h with
  | portZero hscheme hhost ha hb => exact ⟨hscheme, by rw [hhost, ha, hb]; rfl⟩
  | portInHost n hscheme hn ha hb hhost =>
    refine ⟨hscheme, ?_⟩
    rcases hb with hb | hb <;> rw [hhost, ha, hb] <;> simp [portSuffix]
  | unicodeCase hscheme hhost hport _ => exact ⟨hscheme, by rw [hhost, hport]⟩

theorem Confusable.authority_ne (h : Confusable a b) : a.authority ≠ b.authority := by
  intro heq
  simp only [OriginParts.authority, Authority.mk.injEq] at heq
  obtain ⟨_, hwritten, hport⟩ := heq
  cases h with
  | portZero _ _ ha hb => simp [ha, hb] at hport
  | portInHost n _ hn ha hb _ => rcases hb with hb | hb <;> simp_all
  | unicodeCase _ _ _ hne => exact hne hwritten

theorem OriginParts.confusable_of_text_eq (h : a.text = b.text) :
    a.authority = b.authority ∨ Confusable a b ∨ Confusable b a := by
  obtain ⟨hscheme, hrest⟩ := (a.text_eq_iff b).1 h
  have hauthority (hhost : a.host = b.host) (hport : a.port = b.port) :
      a.authority = b.authority ∨ Confusable a b ∨ Confusable b a := by
    by_cases hwritten : asciiLower a.written = asciiLower b.written
    · exact .inl (by rw [authority, authority, hscheme, hwritten, hport])
    · exact .inr (.inl (.unicodeCase hscheme hhost hport hwritten))
  rcases portSuffix_toList a.port with ⟨hsa, hpa⟩ | ⟨m, hm, hpa, hsa⟩ <;>
    rcases portSuffix_toList b.port with ⟨hsb, hpb⟩ | ⟨n, hn, hpb, hsb⟩
  · have hhost : a.host = b.host := by simpa [hsa, hsb] using hrest
    rcases hpa with ha | ha <;> rcases hpb with hb | hb
    · exact hauthority hhost (ha.trans hb.symm)
    · exact .inr (.inl (.portZero hscheme hhost ha hb))
    · exact .inr (.inr (.portZero hscheme.symm hhost.symm hb ha))
    · exact hauthority hhost (ha.trans hb.symm)
  · refine .inr (.inr (.portInHost n hscheme.symm hn hpb hpa ?_))
    rw [← hpb, ← hrest, hsa, String.append_empty]
  · refine .inr (.inl (.portInHost m hscheme hm hpa hpb ?_))
    rw [← hpa, hrest, hsb, String.append_empty]
  · have hlist := congrArg String.toList hrest
    rw [String.toList_append, String.toList_append, hsa, hsb] at hlist
    obtain ⟨hhost, rfl⟩ := host_port_inj hlist
    exact hauthority (String.toList_inj.1 hhost) (hpa.trans hpb.symm)

theorem originFromUrl_eq (py : Interpreter) (url : String) :
    originFromUrl py url = (originParts py url).map (Option.map OriginParts.text) := by
  unfold originFromUrl originParts
  cases SplitUrl.parse py url with
  | error e => rfl
  | ok parsed =>
    simp only [bind, Except.bind, asciiLower_eq_self parsed.scheme_lower]
    split
    · rfl
    · cases parsed.hostname py with
      | none => rfl
      | some hostname => cases parsed.port <;> rfl

theorem authority_of_originParts {py : Interpreter} {url : String} {a : OriginParts}
    (h : originParts py url = .ok (some a)) : authority py url = .ok a.authority := by
  unfold originParts at h
  unfold authority
  cases hparsed : SplitUrl.parse py url with
  | error e => simp [hparsed, bind, Except.bind] at h
  | ok parsed =>
    simp only [hparsed, bind, Except.bind, pure, Except.pure] at h ⊢
    split at h
    · simp at h
    · cases hhost : parsed.hostname py with
      | none => simp [hhost] at h
      | some hostname =>
        cases hport : parsed.port with
        | error e => simp [hhost, hport] at h
        | ok port =>
          simp only [hhost, hport, Except.ok.injEq, Option.some.injEq] at h
          rw [← h]
          rfl

theorem originParts_of_originFromUrl {py : Interpreter} {url origin : String}
    (h : originFromUrl py url = .ok (some origin)) :
    ∃ a, originParts py url = .ok (some a) ∧ a.text = origin := by
  rw [originFromUrl_eq] at h
  cases hparts : originParts py url with
  | error e => simp [hparts, Except.map] at h
  | ok parts =>
    cases parts with
    | none => simp [hparts, Except.map] at h
    | some a => exact ⟨a, rfl, by simpa [hparts, Except.map] using h⟩

def SameAuthority (py : Interpreter) (u v : String) : Prop :=
  ∃ t, authority py u = .ok t ∧ authority py v = .ok t

def OriginFaithful (py : Interpreter) (u v : String) : Prop :=
  ∀ origin, originFromUrl py u = .ok (some origin) → originFromUrl py v = .ok (some origin) →
    SameAuthority py u v

/-- No confusion arises between the two URLs, in either direction. -/
def Unconfusable (py : Interpreter) (u v : String) : Prop :=
  ∀ a b, originParts py u = .ok (some a) → originParts py v = .ok (some b) →
    ¬ Confusable a b ∧ ¬ Confusable b a

theorem originFaithful_iff (py : Interpreter) (u v : String) :
    OriginFaithful py u v ↔ Unconfusable py u v := by
  constructor
  · intro hfaithful a b ha hb
    have key (htext : a.text = b.text) : a.authority = b.authority := by
      obtain ⟨t, hu, hv⟩ := hfaithful a.text (by rw [originFromUrl_eq, ha]; rfl)
        (by rw [originFromUrl_eq, hb, htext]; rfl)
      rw [authority_of_originParts ha] at hu
      rw [authority_of_originParts hb] at hv
      exact (Except.ok.inj hu).trans (Except.ok.inj hv).symm
    exact ⟨fun h => h.authority_ne (key h.text_eq),
      fun h => h.authority_ne (key h.text_eq.symm).symm⟩
  · intro hclear origin hu hv
    obtain ⟨a, ha, htext⟩ := originParts_of_originFromUrl hu
    obtain ⟨b, hb, rfl⟩ := originParts_of_originFromUrl hv
    obtain ⟨hab, hba⟩ := hclear a b ha hb
    rcases OriginParts.confusable_of_text_eq htext with h | h | h
    · exact ⟨a.authority, authority_of_originParts ha, by rw [authority_of_originParts hb, h]⟩
    · exact absurd h hab
    · exact absurd h hba

theorem evaluateCredentialFill_allow {py : Interpreter} {currentUrl : String}
    {allowedOrigins : List String} {topLevelFrame : Bool} {formActionUrl : Option String}
    {allowLoopbackHttp : Bool} {d : PolicyDecision}
    (h : evaluateCredentialFill py currentUrl allowedOrigins topLevelFrame formActionUrl
      allowLoopbackHttp = .ok d) (hd : d.decision = .allow) :
    ∃ origin, originFromUrl py currentUrl = .ok (some origin) ∧ origin ∈ allowedOrigins ∧
      topLevelFrame = true ∧ formActionMismatch py origin formActionUrl = .ok false := by
  have blocked {reason : String} {o : Option String}
      (h : (pure ⟨.block, reason, o⟩ : Except Error PolicyDecision) = .ok d) : False := by
    rw [← Except.pure_eq_ok.1 h] at hd
    cases hd
  obtain ⟨origin?, hcurrent, h⟩ := Except.bind_eq_ok.1 h
  cases origin? with
  | none => exact (blocked h).elim
  | some origin =>
    obtain ⟨reason?, _, h⟩ := Except.bind_eq_ok.1 h
    cases reason? with
    | some reason => exact (blocked h).elim
    | none =>
      simp only at h
      split at h
      · exact (blocked h).elim
      · rename_i hmem
        obtain ⟨http, _, h⟩ := Except.bind_eq_ok.1 h
        split at h
        · exact (blocked h).elim
        · split at h
          · exact (blocked h).elim
          · rename_i hframe
            obtain ⟨mismatch, hform, h⟩ := Except.bind_eq_ok.1 h
            split at h
            · exact (blocked h).elim
            · rename_i hmismatch
              refine ⟨origin, hcurrent, by simpa using hmem, by simpa using hframe, ?_⟩
              rw [hform, Bool.eq_false_iff.2 hmismatch]

/-- Equal origins identify the authority of two URLs exactly when the URLs are not
confusable. An allowed page has the authority of some URL with an allowed origin, and
of one of the URLs that the allowed origins were taken from when it is confusable with
none of them. -/
theorem originFromUrl_faithful_iff (py : Interpreter) (u v : String) :
    (OriginFaithful py u v ↔ Unconfusable py u v) ∧
      ∀ allowedOrigins topLevelFrame formActionUrl allowLoopbackHttp d,
        evaluateCredentialFill py u allowedOrigins topLevelFrame formActionUrl allowLoopbackHttp =
          .ok d → d.decision = .allow →
        (∃ w, ∃ origin ∈ allowedOrigins,
          originFromUrl py w = .ok (some origin) ∧ SameAuthority py u w) ∧
        ∀ granted : List String,
          (∀ origin ∈ allowedOrigins, ∃ w ∈ granted, originFromUrl py w = .ok (some origin)) →
          (∀ w ∈ granted, Unconfusable py u w) → ∃ w ∈ granted, SameAuthority py u w := by
  refine ⟨originFaithful_iff py u v, ?_⟩
  intro allowedOrigins topLevelFrame formActionUrl allowLoopbackHttp d h hd
  obtain ⟨origin, hu, hmem, _, _⟩ := evaluateCredentialFill_allow h hd
  obtain ⟨a, ha, _⟩ := originParts_of_originFromUrl hu
  have hself := authority_of_originParts ha
  refine ⟨⟨u, origin, hmem, hu, a.authority, hself, hself⟩, ?_⟩
  intro granted hgranted hclear
  obtain ⟨w, hw, horigin⟩ := hgranted origin hmem
  exact ⟨w, hw, (originFaithful_iff py u w).2 (hclear w hw) origin hu horigin⟩

/-- Two IPv6 hosts, one with a port, share an origin, and a credential granted to the
first is filled on the second. -/
theorem originFromUrl_ipv6_collision :
    originFromUrl .ascii "https://[2001:db8::1]:8443/login" =
        .ok (some "https://2001:db8::1:8443") ∧
      originFromUrl .ascii "https://[2001:db8::1:8443]/login" =
        .ok (some "https://2001:db8::1:8443") ∧
      authority .ascii "https://[2001:db8::1]:8443/login" =
        .ok ⟨"https", "2001:db8::1", some 8443⟩ ∧
      authority .ascii "https://[2001:db8::1:8443]/login" =
        .ok ⟨"https", "2001:db8::1:8443", none⟩ ∧
      ¬ OriginFaithful .ascii "https://[2001:db8::1]:8443/login"
        "https://[2001:db8::1:8443]/login" ∧
      (evaluateCredentialFill .ascii "https://[2001:db8::1:8443]/login"
        ["https://2001:db8::1:8443"] true none true).map PolicyDecision.decision = .ok .allow := by
  have hu : originFromUrl .ascii "https://[2001:db8::1]:8443/login" =
      .ok (some "https://2001:db8::1:8443") := by decide +kernel
  have hv : originFromUrl .ascii "https://[2001:db8::1:8443]/login" =
      .ok (some "https://2001:db8::1:8443") := by decide +kernel
  have hau : authority .ascii "https://[2001:db8::1]:8443/login" =
      .ok ⟨"https", "2001:db8::1", some 8443⟩ := by decide +kernel
  have hav : authority .ascii "https://[2001:db8::1:8443]/login" =
      .ok ⟨"https", "2001:db8::1:8443", none⟩ := by decide +kernel
  refine ⟨hu, hv, hau, hav, ?_, by decide +kernel⟩
  intro hfaithful
  obtain ⟨t, ht, ht'⟩ := hfaithful _ hu hv
  rw [← ht] at ht'
  exact absurd ht' (by decide)

end OmniDoer.Policy
