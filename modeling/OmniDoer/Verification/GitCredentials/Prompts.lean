import OmniDoer.Model.GitCredentials
import Mathlib.Data.List.Infix

/-! # Prompts of git

Git asks for a user name or a password with the address of the remote between quotes, and
the decoded user name is part of the address. `askpass_response` takes the first quoted
http or https URL for the address, and the word that it finds first for what is asked. -/

namespace OmniDoer.GitCredentials

open Py Re Re.Pattern Policy Vault

inductive Field where
  | username
  | password
  deriving DecidableEq, Repr

def Field.word : Field → String
  | .username => "Username"
  | .password => "Password"

def Field.of (field : Field) (secret : CredentialSecret) : String :=
  match field with
  | .username => secret.username
  | .password => secret.password

structure GitPrompt where
  field : Field
  scheme : String
  user : Option String
  host : String
  deriving DecidableEq, Repr

namespace GitPrompt

def site (p : GitPrompt) : String := p.scheme ++ "://" ++ p.host

def address (p : GitPrompt) : String :=
  p.scheme ++ "://" ++ (p.user.elim "" (· ++ "@")) ++ p.host

def text (p : GitPrompt) : String := p.field.word ++ " for '" ++ p.address ++ "':"

end GitPrompt

/-- `https?://` and at least one more character. -/
def isHttpUrl (part : List Char) : Bool :=
  ["http://".toList, "https://".toList].any fun start =>
    start.isPrefixOf part && start.length < part.length

/-- The address cut at its quotes: the first part that is an http or https URL. -/
def GitPrompt.firstUrl (p : GitPrompt) : Option (List Char) :=
  (p.address.toList.splitOnP isQuote).find? isHttpUrl

section Search

variable {word : Char → Bool}

theorem prefix_append_quote_iff {start part rest : List Char} {q : Char}
    (hstart : ∀ c ∈ start, isQuote c = false) (hq : isQuote q = true) :
    start <+: part ++ q :: rest ↔ start <+: part := by
  induction start generalizing part with
  | nil => simp
  | cons a start ih =>
    cases part with
    | nil =>
      have ha : a ≠ q := by
        intro ha
        rw [← ha, hstart a List.mem_cons_self] at hq
        cases hq
      simp [ha]
    | cons c part =>
      rw [List.cons_append, List.cons_prefix_cons, List.cons_prefix_cons,
        ih fun d hd => hstart d (List.mem_cons_of_mem a hd)]

variable {part rest : List Char}

variable (hpart : ∀ c ∈ part, isQuote c = false)

include hpart in
theorem results_rest {q : Char} (hq : isQuote q = true) (prev : Option Char) :
    (concat [lit "://", plus (.char fun c => !isQuote c), .char isQuote]).results word
        ⟨prev, part ++ q :: rest⟩ =
      if "://".toList <+: part ∧ 3 < part.length then [⟨some q, rest⟩] else [] := by
  have hnext (prev : Option Char) (c : Char) (rest : List Char) (hc : (!isQuote c) = true) :
      (concat [.char isQuote]).results word ⟨prev, c :: rest⟩ = [] := by
    rw [results_concat_cons, results_char_cons, if_neg (by simpa using hc)]
    rfl
  rw [results_concat_cons]
  by_cases hstart : "://".toList <+: part
  · obtain ⟨run, rfl⟩ := hstart
    have hrun : ∀ c ∈ run, (!isQuote c) = true := by
      intro c hc
      simpa using hpart c (List.mem_append_right _ hc)
    rw [List.append_assoc, results_lit_append, List.flatMap_singleton, results_concat_cons,
      flatMap_results_plus_char hnext (by simpa using hq) hrun, results_concat_cons,
      results_char_cons, if_pos hq]
    cases run with
    | nil => simp
    | cons c run => simp [concat, results]
  · rw [results_lit_of_not_start, if_neg fun h => hstart h.1]
    · rfl
    · rwa [prefix_append_quote_iff (List.forall_iff_forall_mem.1 (by decide)) hq]

theorem isHttpUrl_iff (part : List Char) :
    isHttpUrl part = true ↔ ("http://".toList <+: part ∧ 7 < part.length) ∨
      ("https://".toList <+: part ∧ 8 < part.length) := by
  simp [isHttpUrl]

theorem isHttpUrl_append_iff (part : List Char) :
    isHttpUrl ("http".toList ++ part) = true ↔ ("://".toList <+: part ∧ 3 < part.length) ∨
      ("s://".toList <+: part ∧ 4 < part.length) := by
  have hlength : ("http".toList ++ part).length = part.length + 4 := by simp
  have hplain : 7 < part.length + 4 ↔ 3 < part.length := by omega
  have hsecure : 8 < part.length + 4 ↔ 4 < part.length := by omega
  rw [isHttpUrl_iff, hlength, hplain, hsecure]
  simp

include hpart in
theorem results_promptUrlRe {q q' : Char} (hq : isQuote q = true) (hq' : isQuote q' = true)
    (prev : Option Char) :
    promptUrlRe.results word ⟨prev, q :: (part ++ q' :: rest)⟩ =
      if isHttpUrl part then [⟨some q', rest⟩] else [] := by
  rw [promptUrlRe, results_concat_cons, results_char_cons, if_pos hq, List.flatMap_singleton,
    results_concat_cons]
  by_cases hstart : "http".toList <+: part
  · obtain ⟨part, rfl⟩ := hstart
    have hpart : ∀ c ∈ part, isQuote c = false := fun c hc => hpart c (List.mem_append_right _ hc)
    rw [List.append_assoc, results_lit_append, List.flatMap_singleton, results_concat_cons]
    simp only [isHttpUrl_append_iff]
    by_cases hs : "s".toList <+: part
    · obtain ⟨part, rfl⟩ := hs
      have hrest : ∀ c ∈ part, isQuote c = false := fun c hc => hpart c (List.mem_append_right _ hc)
      rw [results_opt, List.flatMap_append, List.append_assoc, results_lit_append,
        List.flatMap_singleton, List.flatMap_singleton, ← List.append_assoc, results_rest hrest hq',
        results_rest hpart hq']
      · have hlength : 4 < part.length + 1 ↔ 3 < part.length := by omega
        simp [hlength]
      · rw [List.append_assoc, results_lit_append]
        simp
    · have hnone (prev : Option Char) : (lit "s").results word ⟨prev, part ++ q' :: rest⟩ = [] :=
        results_lit_of_not_start _ _ <| by
          rwa [prefix_append_quote_iff (List.forall_iff_forall_mem.1 (by decide)) hq']
      have hsecure : ¬ "s://".toList <+: part := fun h =>
        hs ((show "s".toList <+: "s://".toList by decide).trans h)
      rw [results_opt (by simp only [hnone, List.not_mem_nil, false_implies, implies_true]), hnone,
        List.nil_append, List.flatMap_singleton, results_rest hpart hq']
      simp only [hsecure, false_and, or_false]
  · have hurl : isHttpUrl part = false := by
      rw [Bool.eq_false_iff, Ne, isHttpUrl_iff]
      rintro (⟨h, -⟩ | ⟨h, -⟩)
      · exact hstart ((show "http".toList <+: "http://".toList by decide).trans h)
      · exact hstart ((show "http".toList <+: "https://".toList by decide).trans h)
    rw [results_lit_of_not_start, hurl]
    · rfl
    · rwa [prefix_append_quote_iff (List.forall_iff_forall_mem.1 (by decide)) hq']

theorem results_promptUrlRe_of_not_quote {c : Char} (hc : isQuote c = false) (prev : Option Char)
    (rest : List Char) : promptUrlRe.results word ⟨prev, c :: rest⟩ = [] := by
  rw [promptUrlRe, results_concat_cons, results_char_cons, hc]
  rfl

include hpart in
theorem findFrom_part {q q' : Char} (hq : isQuote q = true) (hq' : isQuote q' = true)
    (prev : Option Char) :
    (promptUrlRe.findFrom word prev (q :: (part ++ q' :: rest))).map group1 =
      if isHttpUrl part then some part
      else (promptUrlRe.findFrom word (part.getLast?.or (some q)) (q' :: rest)).map group1 := by
  have hresults : promptUrlRe.results word ⟨prev, q :: (part ++ q' :: rest)⟩ = _ :=
    results_promptUrlRe hpart hq hq' prev
  split
  · rename_i hurl
    rw [if_pos hurl] at hresults
    have hmatch := findFrom_of_match (q := ⟨some q', rest⟩) (m := part ++ [q'])
      (by simpa using hresults)
    simp only [List.append_assoc, List.singleton_append] at hmatch
    rw [hmatch]
    simp [group1]
  · rename_i hurl
    rw [if_neg hurl] at hresults
    rw [findFrom, hresults, List.head?_nil]
    rw [findFrom_append fun c hc => results_promptUrlRe_of_not_quote (hpart c hc)]

theorem findFrom_promptUrlRe {part : List Char} (hpart : ∀ c ∈ part, isQuote c = false)
    (text : List Char) {q : Char} (hq : isQuote q = true) (prev : Option Char) :
    (promptUrlRe.findFrom word prev (q :: (part ++ text ++ ['\'', ':']))).map group1 =
      ((part ++ text).splitOnP isQuote).find? isHttpUrl := by
  induction text generalizing part q prev with
  | nil =>
    have hend (prev : Option Char) : promptUrlRe.findFrom word prev ['\'', ':'] = none := rfl
    rw [List.append_nil, List.splitOnP_eq_singleton hpart, List.find?_singleton,
      findFrom_part hpart hq (by decide)]
    rfl
  | cons c text ih =>
    by_cases hc : isQuote c = true
    · have hnil : ∀ c ∈ ([] : List Char), isQuote c = false := by simp
      rw [List.splitOnP_append_cons_of_forall_mem hpart _ hc, List.append_assoc, List.cons_append,
        findFrom_part hpart hq hc]
      split
      · rename_i hurl
        simp [hurl]
      · rename_i hurl
        simpa [hurl] using ih hnil hc _
    · have hpart' : ∀ d ∈ part ++ [c], isQuote d = false := by
        intro d hd
        rcases List.mem_append.1 hd with hd | hd
        · exact hpart d hd
        · rw [List.mem_singleton.1 hd]
          simpa using hc
      simpa using ih hpart' hq prev

end Search

theorem find_text (py : Interpreter) (p : GitPrompt) :
    (promptUrlRe.find py.isWord p.text.toList).map group1 = p.firstUrl := by
  have htext : p.text.toList =
      (p.field.word ++ " for ").toList ++ '\'' :: ([] ++ p.address.toList ++ ['\'', ':']) := by
    simp [GitPrompt.text]
  have hstart : ∀ c ∈ (p.field.word ++ " for ").toList, isQuote c = false := by
    cases p.field <;> exact List.forall_iff_forall_mem.1 (by decide)
  rw [find, htext, findFrom_append fun c hc => results_promptUrlRe_of_not_quote (hstart c hc),
    findFrom_promptUrlRe (by simp) _ (by decide)]
  rfl

theorem promptOrigin_text (py : Interpreter) (p : GitPrompt) :
    promptOrigin py p.text =
      p.firstUrl.elim (.ok none) fun url => originFromUrl py (String.ofList url) := by
  rw [← find_text py p, promptOrigin]
  cases promptUrlRe.find py.isWord p.text.toList with
  | none | some => rfl

/-- Letters of ASCII are lowered one by one, whatever follows them. -/
def LowersAscii (u : UnicodeData) : Prop :=
  ∀ a b : String, (∀ c ∈ a.toList, c.toNat < 128) →
    (asciiLower a).toList <+: (u.lower (a ++ b)).toList

theorem lowersAscii_ascii : LowersAscii .ascii := by
  intro a b _
  simp [UnicodeData.ascii, asciiLower]

theorem containsText_word {py : Interpreter} (hlower : LowersAscii py.toUnicodeData)
    (p : GitPrompt) :
    containsText (asciiLower p.field.word) (py.lower p.text) = true := by
  have hascii : ∀ c ∈ p.field.word.toList, c.toNat < 128 := by
    cases p.field <;> exact List.forall_iff_forall_mem.1 (by decide)
  have htext : p.text = p.field.word ++ (" for '" ++ p.address ++ "':") := by
    simp [GitPrompt.text, String.append_assoc]
  rw [htext]
  rw [containsText, List.any_eq_true]
  exact ⟨_, (List.mem_tails _ _).2 List.suffix_rfl,
    List.isPrefixOf_iff_prefix.2 (hlower _ _ hascii)⟩

def GitPrompt.namesUser (py : Interpreter) (p : GitPrompt) : Bool :=
  containsText "username" (py.lower p.text)

section Answers

variable {κ : Type} {py : Interpreter} {cipher : Cipher κ} {origin o : String}
  {vault : Option (Except Error (VaultObject κ))} {credentialId : Option String}

/-- The first quoted URL of the prompt, if there is one, has the granted origin or none. -/
def Released (py : Interpreter) (o : String) (p : GitPrompt) : Prop :=
  ∀ url ∈ p.firstUrl, originFromUrl py (String.ofList url) = .ok none ∨
    originFromUrl py (String.ofList url) = .ok (some o)

instance (py : Interpreter) (o : String) (p : GitPrompt) : Decidable (Released py o p) :=
  match h : p.firstUrl with
  | none => .isTrue fun url hurl => by rw [h] at hurl; cases hurl
  | some url =>
    decidable_of_iff (originFromUrl py (String.ofList url) = .ok none ∨
      originFromUrl py (String.ofList url) = .ok (some o)) (by simp [Released, h])

def GitPrompt.answered (py : Interpreter) (p : GitPrompt) : Field :=
  if p.namesUser py then .username else .password

theorem answered_of (hlower : LowersAscii py.toUnicodeData) (p : GitPrompt)
    (secret : CredentialSecret) :
    (if containsText "username" (py.lower p.text) then .ok secret.username
      else if containsText "password" (py.lower p.text) ||
          containsText "token" (py.lower p.text) then
        .ok secret.password
      else .ok "" : Except Error String) = .ok ((p.answered py).of secret) := by
  by_cases huser : containsText "username" (py.lower p.text) = true
  · simp [GitPrompt.answered, GitPrompt.namesUser, huser, Field.of]
  · have hword := containsText_word hlower p
    cases hfield : p.field with
    | username =>
      rw [hfield] at hword
      exact absurd hword huser
    | password =>
      rw [hfield] at hword
      have hpassword : containsText "password" (py.lower p.text) = true := hword
      simp [GitPrompt.answered, GitPrompt.namesUser, huser, hpassword, Field.of]

theorem answered_of_eq_iff (hlower : LowersAscii py.toUnicodeData) (p : GitPrompt)
    (secret : CredentialSecret) :
    (p.answered py).of secret = p.field.of secret ↔
      (p.field = .password → p.namesUser py = true → secret.username = secret.password) := by
  cases hfield : p.field with
  | username =>
    have hword := containsText_word hlower p
    rw [hfield] at hword
    have huser : p.namesUser py = true := hword
    simp [GitPrompt.answered, huser]
  | password =>
    by_cases huser : p.namesUser py = true
    · simp [GitPrompt.answered, huser, Field.of]
    · simp [GitPrompt.answered, huser]

theorem askpassResponse_eq_ok_iff (hlower : LowersAscii py.toUnicodeData)
    (hgranted : normalizeGitOrigin py origin = .ok o) (p : GitPrompt) (secret : CredentialSecret)
    (response : String) :
    askpassResponse py cipher p.text origin (some secret) vault credentialId = .ok response ↔
      Released py o p ∧ (p.answered py).of secret = response := by
  simp only [askpassResponse, hgranted, bind, Except.bind, answered_of hlower, promptOrigin_text]
  cases hurl : p.firstUrl with
  | none => simp [Released, hurl]
  | some url =>
    simp only [Released, hurl, Option.elim_some, Option.mem_def, Option.some.injEq, forall_eq']
    cases originFromUrl py (String.ofList url) with
    | error e => simp
    | ok seen =>
      cases seen with
      | none => simp
      | some seen => by_cases hseen : seen = o <;> simp [hseen]

/-- What is expected of an answer: a text is handed out to the granted origin only, and it
is what was asked for. -/
def Proper (py : Interpreter) (o : String) (p : GitPrompt) (secret : CredentialSecret)
    (response : String) : Prop :=
  (response ≠ "" → originFromUrl py p.site = .ok (some o)) ∧ response = p.field.of secret

/-- Every answer is proper, unless the first quoted URL does not stand for the remote, or a
password prompt contains the word for the user name. -/
theorem askpass_answers_proper (py : Interpreter) (hlower : LowersAscii py.toUnicodeData)
    (cipher : Cipher κ) (origin o : String) (hgranted : normalizeGitOrigin py origin = .ok o)
    (p : GitPrompt) (secret : CredentialSecret) (vault : Option (Except Error (VaultObject κ)))
    (credentialId : Option String) :
    (∀ response,
        askpassResponse py cipher p.text origin (some secret) vault credentialId = .ok response →
        Proper py o p secret response) ↔
      (Released py o p →
        (originFromUrl py p.site = .ok (some o) ∨ p.field.of secret = "") ∧
          (p.field = .password → p.namesUser py = true → secret.username = secret.password)) := by
  have hanswered := answered_of_eq_iff hlower p secret
  simp only [askpassResponse_eq_ok_iff hlower hgranted]
  constructor
  · intro h hreleased
    obtain ⟨hsite, hasked⟩ := h _ ⟨hreleased, rfl⟩
    refine ⟨?_, hanswered.1 hasked⟩
    rw [hasked] at hsite
    by_cases hempty : p.field.of secret = ""
    · exact .inr hempty
    · exact .inl (hsite hempty)
  · rintro h response ⟨hreleased, rfl⟩
    obtain ⟨hsite, hfield⟩ := h hreleased
    have hasked := hanswered.2 hfield
    refine ⟨fun hne => hsite.resolve_right ?_, hasked⟩
    rwa [hasked] at hne

def anneSecret : CredentialSecret := ⟨"anne", "pw", none⟩

/-- The answer to a password prompt when `a.io` is granted. -/
def askGranted (user host : String) : Except Error String :=
  askpassResponse .ascii plainCipher (GitPrompt.mk .password "https" (some user) host).text
    "https://a.io" (some anneSecret) none none

theorem askpass_answers_proper_anne :
    askGranted "anne" "a.io" = .ok "pw" ∧
      ∀ response, askGranted "anne" "a.io" = .ok response →
        Proper .ascii "https://a.io" ⟨.password, "https", some "anne", "a.io"⟩
          anneSecret response := by
  refine ⟨by decide +kernel, ?_⟩
  exact (askpass_answers_proper .ascii lowersAscii_ascii plainCipher
    _ _ (by decide +kernel) _ _ none
    none).2 (by decide +kernel)

/-- A quote in the user name ends the address early, and the word `username` asks for another
field. -/
theorem quoted_user_releases_password :
    askGranted "a.io'" "b.io" = .ok "pw" ∧
      originFromUrl .ascii (GitPrompt.mk .password "https" (some "a.io'") "b.io").site =
        .ok (some "https://b.io") ∧
      askGranted "username" "a.io" = .ok "anne" := by
  decide +kernel

end Answers

end OmniDoer.GitCredentials
