import OmniDoer.Model.Vault

/-! # Credentials of a vault that is used from several objects

When no save is overtaken by the save of another object, the file is at every moment the
result of the successful calls, one after the other in the order of their saves. -/

namespace OmniDoer.Vault

open Py Effects ChangeLogs List

/-- What an object remembers: what it has loaded or saved last, what it has written to the
file beside the vault since, the identifier it was given last and has not used, and what it
has saved. -/
structure Memory where
  base : Option VaultData
  pending : Option VaultData
  fresh : Option String
  saved : List Change

def Memory.start : Memory := ⟨none, none, none, []⟩

def Memory.next (m : Memory) : (o : VaultOp) → o.Ans → Memory
  | .readText, data => { m with base := some data, pending := none }
  | .writeTmp data, _ => { m with pending := some data }
  | .replace change, answer =>
    match answer with
    | .ok _ => ⟨m.pending, none, none, m.saved ++ [change]⟩
    | .error _ => m
  | .uuid, id => { m with fresh := some id }
  | .time, _ => m
  | .urandom, _ => m

/-- The identifier of a credential. -/
def credentialName (id : String) : String := "cred_" ++ id

/-- The data with a change made to the credentials. -/
def VaultData.change (data : VaultData) (change : Change) : VaultData :=
  { data with credentials := change.apply Credential.credentialId data.credentials }

/-- A new credential has the fresh identifier; other changes are about one of the file. -/
def Permits (m : Memory) (data : VaultData) : Change → Prop
  | .add c => ∃ id, m.fresh = some id ∧ c.credentialId = credentialName id
  | .update c => ∃ old ∈ data.credentials, old.credentialId = c.credentialId
  | .delete id => ∃ old ∈ data.credentials, old.credentialId = id

/-- A save writes one change of what was loaded or saved last. It relies on the salt, which
no change touches, and on the file beside the vault being there. -/
def saving (salt : String) : Prog.Contract VaultOp VaultOp.Ans Memory where
  guar m o :=
    match o with
    | .replace change =>
      ∃ base, m.base = some base ∧ m.pending = some (base.change change) ∧ Permits m base change
    | _ => True
  rely o x :=
    match o, x with
    | .readText, data => data.salt = salt
    | .replace _, answer => answer = .ok ()
    | _, _ => True
  next := Memory.next

variable {κ : Type} {py : Interpreter} {cipher : Cipher κ}

/-- The credential carries the secret of the arguments. -/
def Sealed (py : Interpreter) (cipher : Cipher κ) (key : κ) (args : SecretArgs) (c : Credential) :
    Prop :=
  c.secretCiphertext =
    cipher.encrypt key c.secretNonce ((secretJson args).dumpsSpaced py) c.credentialId

/-- The change that a successful call of an object with the key makes. -/
inductive Fulfils (py : Interpreter) (cipher : Cipher κ) (key : Option κ) :
    VaultCall × String → Change → Prop
  | add {args : SecretArgs} {k : κ} {c : Credential} {id : String} (hkey : key = some k)
      (hid : c.credentialId = id) (hsealed : Sealed py cipher k args c) :
      Fulfils py cipher key (.add args, id) (.add c)
  | update {args : SecretArgs} {k : κ} {c : Credential} {id : String} (hkey : key = some k)
      (hid : c.credentialId = id) (hsealed : Sealed py cipher k args c) :
      Fulfils py cipher key (.update id args, id) (.update c)
  | delete (id : String) : Fulfils py cipher key (.delete id, id) (.delete id)

/-- The call has failed and saved nothing, or it has saved its change. -/
def Ended (py : Interpreter) (cipher : Cipher κ) (key : Option κ) (saved : List Change)
    (call : VaultCall) (m : Memory) : Except Error String → Prop
  | .error _ => m.saved = saved
  | .ok id => ∃ change, m.saved = saved ++ [change] ∧ Fulfils py cipher key (call, id) change

/-- After a call the object is in step with what it remembers. -/
def CallDone (py : Interpreter) (cipher : Cipher κ) (vault : VaultObject κ) (saved : List Change)
    (call : VaultCall) (m : Memory)
    (r : Except Error (VaultObject κ × Except Error String)) : Prop :=
  ∃ vault' answer, r = .ok (vault', answer) ∧ m.base = some vault'.data ∧ vault'.key = vault.key ∧
    Ended py cipher vault.key saved call m answer

variable {salt : String} {vault : VaultObject κ} {m : Memory}

theorem save_meets {α : Type} {result : α} {change : Change} {m : Memory} {base : VaultData}
    {post : Memory → Except Error (VaultObject κ × Except Error α) → Prop} {vault : VaultObject κ}
    (hbase : m.base = some base) (hdata : vault.data = base.change change)
    (hpermits : Permits m base change)
    (hpost : post ⟨some vault.data, none, none, m.saved ++ [change]⟩ (.ok (vault, .ok result))) :
    (save vault change result).Meets (saving salt) post m := by
  refine ⟨trivial, fun _ _ => ⟨⟨base, hbase, congrArg some hdata, ?_⟩, ?_⟩⟩
  · cases change with
    | add | update | delete => exact hpermits
  · rintro _ rfl
    exact hpost

theorem call_meets (hbase : m.base = some vault.data) (call : VaultCall) :
    (call.prog py cipher vault).Meets (saving salt) (CallDone py cipher vault m.saved call) m := by
  cases call with
  | add args =>
    change (addCredential py cipher vault args).Meets _ _ _
    unfold addCredential
    cases hkey : vault.key with
    | none => exact ⟨vault, _, rfl, hbase, rfl, rfl⟩
    | some key =>
      refine ⟨trivial, fun id _ => ⟨trivial, fun nonce _ => ⟨trivial, fun createdAt _ => ?_⟩⟩⟩
      refine save_meets hbase rfl ⟨id, rfl, rfl⟩ ?_
      exact ⟨_, _, rfl, rfl, rfl, _, rfl, .add hkey rfl rfl⟩
  | update id args =>
    refine .map ?_
    unfold updateCredential
    cases hkey : vault.key with
    | none => exact ⟨vault, _, rfl, hbase, rfl, rfl⟩
    | some key =>
      dsimp only
      split
      · exact ⟨vault, _, rfl, hbase, rfl, rfl⟩
      · rename_i item hitem
        obtain rfl : item.credentialId = id := by simpa using find?_some hitem
        refine ⟨trivial, fun nonce _ => ⟨trivial, fun updatedAt _ => ?_⟩⟩
        refine save_meets hbase rfl ⟨item, mem_of_find?_eq_some hitem, rfl⟩ ?_
        exact ⟨_, _, rfl, rfl, rfl, _, rfl, .update hkey rfl rfl⟩
  | delete id =>
    refine .map ?_
    unfold deleteCredential
    dsimp only
    split
    · exact ⟨vault, _, rfl, hbase, rfl, rfl⟩
    · rename_i hlength
      have hfound : ∃ old ∈ vault.data.credentials, old.credentialId = id := by
        by_contra hnone
        refine hlength (congrArg length (filter_eq_self.2 fun c hc => ?_))
        rw [decide_eq_true_eq]
        exact fun hid => hnone ⟨c, hc, hid⟩
      refine save_meets hbase rfl hfound ?_
      exact ⟨_, _, rfl, rfl, rfl, _, rfl, .delete id⟩

/-- The calls that have succeeded, with what they report. -/
def successes (answers : List (VaultCall × Except Error String)) : List (VaultCall × String) :=
  answers.filterMap fun a => a.2.toOption.map fun id => (a.1, id)

theorem session_meets (hbase : m.base = some vault.data) (calls : List VaultCall) :
    (session py cipher calls vault).Meets (saving salt)
      (fun m' r => ∃ answers changes, r = .ok answers ∧
      m'.saved = m.saved ++ changes ∧
      List.Forall₂ (Fulfils py cipher vault.key) (successes answers) changes) m := by
  induction calls generalizing m vault with
  | nil => exact ⟨[], [], rfl, (append_nil _).symm, .nil⟩
  | cons call rest ih =>
    refine Prog.Meets.bind (call_meets hbase call) ?_ ?_
    · rintro m₁ _ ⟨vault', answer, ⟨⟩, hbase', hkey, hended⟩
      refine Prog.Meets.bind (ih hbase') ?_ ?_
      · rintro m₂ _ ⟨answers, changes, ⟨⟩, hsaved, hfulfils⟩
        rw [hkey] at hfulfils
        cases answer with
        | error e =>
          exact ⟨_, changes, rfl, by rw [hsaved, show m₁.saved = m.saved from hended], hfulfils⟩
        | ok id =>
          obtain ⟨change, hsaved₁, hchange⟩ := hended
          exact ⟨_, change :: changes, rfl, by rw [hsaved, hsaved₁, append_assoc]; rfl,
            .cons hchange hfulfils⟩
      · rintro m₂ e ⟨_, _, h, _⟩
        cases h
    · rintro m₁ e ⟨_, _, h, _⟩
      cases h

/-- The key of an object. -/
def keyOf (cipher : Cipher κ) (salt : String) (passphrase : Option String) : Option κ :=
  passphrase.map fun p => cipher.deriveKey p salt

/-- An object that has been used has saved the changes of its successful calls. -/
def Finished (py : Interpreter) (cipher : Cipher κ) (salt : String) (passphrase : Option String)
    (m : Memory) (r : Except Error (List (VaultCall × Except Error String))) : Prop :=
  ∃ answers, r = .ok answers ∧
    List.Forall₂ (Fulfils py cipher (keyOf cipher salt passphrase)) (successes answers) m.saved

theorem useVault_meets (passphrase : Option String) (calls : List VaultCall) :
    (useVault py cipher passphrase calls).Meets (saving salt)
      (Finished py cipher salt passphrase) .start := by
  refine ⟨trivial, fun data hsalt => ?_⟩
  have hsession : (session py cipher calls ⟨data, keyOf cipher data.salt passphrase⟩).Meets
      (saving salt) _ ⟨some data, none, none, []⟩ := session_meets rfl calls
  refine hsession.mono ?_
  rintro m r ⟨answers, changes, hr, hsaved, hfulfils⟩
  refine ⟨answers, hr, ?_⟩
  rw [hsaved, ← hsalt]
  exact hfulfils

section Pools

variable {ι : Type} [DecidableEq ι]

abbrev VaultPool (ι : Type) :=
  Pool ι World VaultOp VaultOp.Ans Error (List (VaultCall × Except Error String))

abbrev VaultLog (ι : Type) := List (ι × (o : VaultOp) × o.Ans)

/-- The change of a save that has succeeded. -/
def saveOf : (o : VaultOp) × o.Ans → Option Change
  | ⟨.replace change, answer⟩ =>
    match answer with
    | .ok _ => some change
    | .error _ => none
  | _ => none

/-- The successful saves, in their order. -/
def history (log : VaultLog ι) : List Change := log.filterMap fun e => saveOf e.2

/-- Whether object `i` is overtaken after an operation: its own load catches up, a write of
another object gets ahead. -/
def overtakes (i mover : ι) (stale : Bool) : VaultOp → Bool
  | .readText => if mover = i then false else stale
  | .writeTmp _ | .replace _ => if mover = i then stale else true
  | _ => stale

/-- Whether another object has written since object `i` loaded the file. -/
def overtaken (i : ι) (log : VaultLog ι) : Bool :=
  log.foldl (fun stale e => overtakes i e.1 stale e.2.1) false

/-- If object `i` is about to move its save over the file, no other object has written since
it loaded the file. -/
def Unovertaken (pool : VaultPool ι) (i : ι) : Prop :=
  match pool.threads i with
  | .op (.replace _) _ => overtaken i pool.log = false
  | _ => True

instance (pool : VaultPool ι) (i : ι) : Decidable (Unovertaken pool i) := by
  unfold Unovertaken
  split <;> infer_instance

def memoryOf (pool : VaultPool ι) (i : ι) : Memory := Pool.memory Memory.next i .start pool.log

/-- An object that is not overtaken knows the file, and what lies beside it. -/
def Synced (pool : VaultPool ι) (i : ι) : Prop :=
  overtaken i pool.log = false → ∀ base, (memoryOf pool i).base = some base →
    pool.state.file = base ∧ ∀ data, (memoryOf pool i).pending = some data →
      pool.state.tmp = some data

/-- The file is the result of the saves, which are legal, and nobody else has used the fresh
identifier of an object. -/
structure Serial (env : Env) (initial : VaultData) (pool : VaultPool ι) : Prop where
  synced : ∀ i, Synced pool i
  salt : pool.state.file.salt = initial.salt
  file : pool.state.file.credentials =
    applyAll Credential.credentialId initial.credentials (history pool.log)
  legal : Legal Credential.credentialId initial.credentials (history pool.log)
  used : ∀ id, ChangeLogs.Used Credential.credentialId initial.credentials (history pool.log) id →
    (∃ c ∈ initial.credentials, c.credentialId = id) ∨
      ∃ n < pool.state.issued, id = credentialName (env.ids n)
  fresh : ∀ i id, (memoryOf pool i).fresh = some id → (∃ n < pool.state.issued, id = env.ids n) ∧
    ¬ ChangeLogs.Used Credential.credentialId initial.credentials (history pool.log)
      (credentialName id)
  distinct : ∀ i j id, (memoryOf pool i).fresh = some id → (memoryOf pool j).fresh = some id → i = j

variable {env : Env} {initial : VaultData} {pool : VaultPool ι} {i : ι}

variable {o : VaultOp} {k : o.Ans → VaultProg (List (VaultCall × Except Error String))}

theorem history_step
    (ht : pool.threads i = .op o k) :
    history (pool.step (exec env) i).log =
      history pool.log ++ (saveOf ⟨o, (exec env o pool.state).1⟩).toList := by
  rw [Pool.step_of_op (exec env) ht]
  cases hsave : saveOf ⟨o, (exec env o pool.state).1⟩ with
  | none | some => simp [hsave, history]

theorem overtaken_step
    (ht : pool.threads i = .op o k) (j : ι) :
    overtaken j (pool.step (exec env) i).log = overtakes j i (overtaken j pool.log) o := by
  rw [Pool.step_of_op (exec env) ht, overtaken, foldl_append]
  rfl

theorem memoryOf_step
    (ht : pool.threads i = .op o k) (j : ι) :
    memoryOf (pool.step (exec env) i) j =
      if j = i then (memoryOf pool i).next o (exec env o pool.state).1 else memoryOf pool j :=
  Pool.memory_step (exec env) ht (fun _ => ⟨fun _ _ => True, fun _ _ => True, Memory.next⟩) .start j

theorem credentialName_injective : Function.Injective credentialName := fun _ _ h =>
  (String.append_right_inj "cred_").1 h

section Draws

variable (hids : Function.Injective env.ids)
  (hnew : ∀ n, ∀ c ∈ initial.credentials, c.credentialId ≠ credentialName (env.ids n))
include hids hnew

/-- A step that does not save, and draws an identifier at most. A drawn identifier is new. -/
theorem Serial.unsaved (h : Serial env initial pool) {pool' : VaultPool ι}
    (hhistory : history pool'.log = history pool.log) (hfile : pool'.state.file = pool.state.file)
    (hissued : pool.state.issued ≤ pool'.state.issued)
    (hfresh : ∀ j id, (memoryOf pool' j).fresh = some id → (memoryOf pool j).fresh = some id ∨
      j = i ∧ id = env.ids pool.state.issued ∧ pool.state.issued < pool'.state.issued)
    (hsynced : ∀ j, Synced pool' j) : Serial env initial pool' where
  synced := hsynced
  salt := hfile ▸ h.salt
  file := by rw [hfile, hhistory, h.file]
  legal := hhistory ▸ h.legal
  used id hid := by
    rw [hhistory] at hid
    exact (h.used id hid).imp_right fun ⟨n, hn, hname⟩ => ⟨n, hn.trans_le hissued, hname⟩
  fresh j id hid := by
    rw [hhistory]
    rcases hfresh j id hid with hold | ⟨-, rfl, hlt⟩
    · obtain ⟨⟨n, hn, hid⟩, hunused⟩ := h.fresh j id hold
      exact ⟨⟨n, hn.trans_le hissued, hid⟩, hunused⟩
    · refine ⟨⟨_, hlt, rfl⟩, fun hused => ?_⟩
      rcases h.used _ hused with ⟨c, hc, hid⟩ | ⟨n, hn, hname⟩
      · exact hnew _ c hc hid
      · exact hn.ne' (hids (credentialName_injective hname))
  distinct j j' id hj hj' := by
    have hclash {j : ι}
        (hj : (memoryOf pool j).fresh = some (env.ids pool.state.issued)) : False := by
      obtain ⟨n, hn, hid⟩ := (h.fresh j _ hj).1
      exact hn.ne' (hids hid)
    rcases hfresh j id hj with hold | ⟨rfl, rfl, -⟩
    · rcases hfresh j' id hj' with hold' | ⟨-, rfl, -⟩
      · exact h.distinct j j' id hold hold'
      · exact (hclash hold).elim
    · rcases hfresh j' _ hj' with hold' | ⟨rfl, -, -⟩
      · exact (hclash hold').elim
      · rfl

end Draws

variable {change : Change}

/-- The object that saves has a legal change of the file as it is. -/
theorem Serial.legalAfter (h : Serial env initial pool) {base : VaultData}
    (hbase : pool.state.file = base) (hpermits : Permits (memoryOf pool i) base change) :
    change.LegalAfter Credential.credentialId initial.credentials (history pool.log) := by
  have hfile : applyAll Credential.credentialId initial.credentials (history pool.log) =
      base.credentials := by
    rw [← h.file, hbase]
  cases change with
  | add c =>
    obtain ⟨id, hfresh, hname⟩ := hpermits
    change ¬ ChangeLogs.Used _ _ _ c.credentialId
    rw [hname]
    exact (h.fresh i id hfresh).2
  | update | delete =>
    obtain ⟨old, hold, hid⟩ := hpermits
    exact ⟨old, hfile ▸ hold, hid⟩

theorem used_snoc_iff {rows : List Credential} {log : List Change} {id : String} :
    ChangeLogs.Used Credential.credentialId rows (log ++ [change]) id ↔
      ChangeLogs.Used Credential.credentialId rows log id ∨
        change.target Credential.credentialId = id := by
  simp [ChangeLogs.Used, or_assoc]

/-- The target of a permitted change is in use, or it is the fresh identifier of the object. -/
theorem Serial.target (h : Serial env initial pool) {base : VaultData}
    (hbase : pool.state.file = base) (hpermits : Permits (memoryOf pool i) base change) :
    ChangeLogs.Used Credential.credentialId initial.credentials (history pool.log)
        (change.target Credential.credentialId) ∨
      ∃ id, (memoryOf pool i).fresh = some id ∧
        change.target Credential.credentialId = credentialName id := by
  have hused {id : String} (hfound : ∃ old ∈ base.credentials, old.credentialId = id) :
      ChangeLogs.Used Credential.credentialId initial.credentials (history pool.log) id := by
    obtain ⟨old, hold, rfl⟩ := hfound
    rw [← hbase, h.file] at hold
    exact used_of_mem_applyAll hold
  cases change with
  | add c => exact .inr hpermits
  | update | delete => exact .inl (hused hpermits)

/-- A save changes the file as it is, and uses up the fresh identifier of its object. -/
theorem Serial.save (h : Serial env initial pool)
    {k : Except Error Unit → VaultProg (List (VaultCall × Except Error String))}
    (ht : pool.threads i = .op (.replace change) k) (hun : overtaken i pool.log = false)
    {base : VaultData} (hbase : (memoryOf pool i).base = some base)
    (hpending : (memoryOf pool i).pending = some (base.change change))
    (hpermits : Permits (memoryOf pool i) base change) :
    Serial env initial (pool.step (exec env) i) := by
  obtain ⟨hfile, htmp⟩ := h.synced i hun base hbase
  have htmp := htmp _ hpending
  have hexec : exec env (.replace change) pool.state =
      (.ok (), { pool.state with file := base.change change, tmp := none }) := by
    simp only [exec, htmp]
  have hstate : (pool.step (exec env) i).state =
      { pool.state with file := base.change change, tmp := none } := by
    rw [Pool.step_of_op (exec env) ht, hexec]
  have hhistory : history (pool.step (exec env) i).log = history pool.log ++ [change] := by
    rw [history_step ht, hexec]
    rfl
  have hmemory (j : ι) : memoryOf (pool.step (exec env) i) j =
      if j = i then ⟨some (base.change change), none, none, (memoryOf pool i).saved ++ [change]⟩
      else memoryOf pool j := by
    rw [memoryOf_step ht, hexec, ← hpending]
    rfl
  have hlegal := h.legalAfter hfile hpermits
  have htarget := h.target hfile hpermits
  have hother {j : ι} {id : String} (hj : (memoryOf (pool.step (exec env) i) j).fresh = some id) :
      j ≠ i ∧ (memoryOf pool j).fresh = some id := by
    rw [hmemory] at hj
    split at hj
    · cases hj
    · exact ⟨by assumption, hj⟩
  refine ⟨?_, ?_, ?_, ?_, ?_, ?_, ?_⟩
  · intro j hj base' hbase'
    rw [overtaken_step ht] at hj
    by_cases hji : j = i
    · rw [hmemory, if_pos hji] at hbase' ⊢
      cases hbase'
      rw [hstate]
      exact ⟨rfl, fun _ hnone => (nomatch hnone)⟩
    · simp [overtakes, Ne.symm hji] at hj
  · rw [hstate, ← h.salt, hfile]
    rfl
  · rw [hstate, hhistory, applyAll_snoc, ← h.file, hfile]
    rfl
  · rw [hhistory]
    exact h.legal.snoc hlegal
  · intro id hid
    rw [hhistory, used_snoc_iff] at hid
    rw [hstate]
    rcases hid with hid | rfl
    · exact h.used id hid
    · rcases htarget with hused | ⟨id, hfresh, hname⟩
      · exact h.used _ hused
      · obtain ⟨n, hn, rfl⟩ := (h.fresh i id hfresh).1
        exact .inr ⟨n, hn, hname⟩
  · intro j id hj
    obtain ⟨hji, hfresh⟩ := hother hj
    obtain ⟨hissued, hunused⟩ := h.fresh j id hfresh
    refine ⟨by rw [hstate]; exact hissued, ?_⟩
    rw [hhistory, used_snoc_iff]
    rintro (hused | hname)
    · exact hunused hused
    · rcases htarget with hused | ⟨id', hfresh', hname'⟩
      · exact hunused (hname ▸ hused)
      · have hid := credentialName_injective (hname'.symm.trans hname)
        exact hji (h.distinct j i id hfresh (hid ▸ hfresh'))
  · intro j j' id hj hj'
    exact h.distinct j j' id (hother hj).2 (hother hj').2

/-- One step of an object that keeps its contract and is not overtaken. -/
theorem Serial.step (hids : Function.Injective env.ids)
    (hnew : ∀ n, ∀ c ∈ initial.credentials, c.credentialId ≠ credentialName (env.ids n))
    (h : Serial env initial pool)
    (ht : pool.threads i = .op o k) (hguar : (saving initial.salt).guar (memoryOf pool i) o)
    (hun : Unovertaken pool i) :
    (saving initial.salt).rely o (exec env o pool.state).1 ∧
      Serial env initial (pool.step (exec env) i) := by
  have hstate : (pool.step (exec env) i).state = (exec env o pool.state).2 := by
    rw [Pool.step_of_op (exec env) ht]
  have hhistory : history (pool.step (exec env) i).log = _ := history_step ht
  have hmemory : ∀ j, memoryOf (pool.step (exec env) i) j = _ := memoryOf_step ht
  have hovertaken : ∀ j, overtaken j (pool.step (exec env) i).log = _ := overtaken_step ht
  -- an operation that draws nothing
  have hquiet (hhistory : history (pool.step (exec env) i).log = history pool.log)
      (hfile : (exec env o pool.state).2.file = pool.state.file)
      (hissued : (exec env o pool.state).2.issued = pool.state.issued)
      (hfresh : ((memoryOf pool i).next o (exec env o pool.state).1).fresh =
        (memoryOf pool i).fresh)
      (hsynced : ∀ j, Synced (pool.step (exec env) i) j) : Serial env initial
        (pool.step (exec env) i) := by
    refine h.unsaved hids hnew (i := i) hhistory (by rw [hstate, hfile]) (by rw [hstate, hissued])
      (fun j id hid => .inl ?_) hsynced
    rw [hmemory] at hid
    split at hid
    · subst j
      rwa [hfresh] at hid
    · exact hid
  cases o with
  | replace change =>
    obtain ⟨base, hbase, hpending, hpermits⟩ := hguar
    have hun : overtaken i pool.log = false := by
      simpa only [Unovertaken, ht] using hun
    refine ⟨?_, h.save ht hun hbase hpending hpermits⟩
    change (exec env (.replace change) pool.state).1 = _
    simp only [exec, (h.synced i hun base hbase).2 _ hpending]
  | uuid =>
    refine ⟨trivial, h.unsaved hids hnew (i := i) (hhistory.trans (append_nil _))
      (by rw [hstate]; rfl) (by rw [hstate]; exact Nat.le_succ _) ?_ fun j hj base hbase => ?_⟩
    · intro j id hid
      rw [hmemory] at hid
      rw [hstate]
      split at hid
      · exact .inr ⟨by assumption, (Option.some.inj hid).symm, Nat.lt_succ_self _⟩
      · exact .inl hid
    · rw [hovertaken] at hj
      rw [hmemory] at hbase ⊢
      rw [hstate]
      have hsynced := h.synced j hj base
      by_cases hji : j = i
      · subst hji
        rw [if_pos rfl] at hbase ⊢
        exact hsynced hbase
      · rw [if_neg hji] at hbase ⊢
        exact hsynced hbase
  | readText =>
    refine ⟨h.salt, hquiet (hhistory.trans (append_nil _)) rfl rfl rfl fun j hj base hbase => ?_⟩
    rw [hovertaken] at hj
    rw [hmemory] at hbase ⊢
    rw [hstate]
    by_cases hji : j = i
    · rw [if_pos hji] at hbase ⊢
      cases hbase
      exact ⟨rfl, fun _ hnone => (nomatch hnone)⟩
    · rw [if_neg hji] at hbase ⊢
      simp only [overtakes, if_neg (Ne.symm hji)] at hj
      exact h.synced j hj base hbase
  | writeTmp data =>
    refine ⟨trivial, hquiet (hhistory.trans (append_nil _)) rfl rfl rfl fun j hj base hbase => ?_⟩
    rw [hovertaken] at hj
    rw [hmemory] at hbase ⊢
    rw [hstate]
    by_cases hji : j = i
    · subst hji
      rw [if_pos rfl] at hbase ⊢
      simp only [overtakes] at hj
      refine ⟨(h.synced j hj base hbase).1, ?_⟩
      rintro _ ⟨⟩
      rfl
    · simp [overtakes, Ne.symm hji] at hj
  | time | urandom =>
    refine ⟨trivial, hquiet (hhistory.trans (append_nil _)) rfl rfl rfl fun j hj base hbase => ?_⟩
    have hsame : memoryOf (pool.step (exec env) i) j = memoryOf pool j := by
      rw [hmemory]
      split
      · subst j
        rfl
      · rfl
    rw [hovertaken] at hj
    rw [hsame] at hbase ⊢
    rw [hstate]
    exact h.synced j hj base hbase

theorem serial_start (env : Env) {pool : VaultPool ι} (hlog : pool.log = []) :
    Serial env pool.state.file pool := by
  have hmemory (j : ι) : memoryOf pool j = .start := by
    rw [memoryOf, hlog]
    rfl
  have hhistory : history pool.log = [] := by
    rw [hlog]
    rfl
  refine ⟨fun i _ base hbase => ?_, rfl, ?_, ?_, fun id hid => ?_, fun i id hid => ?_,
    fun i _ id hid => ?_⟩
  · rw [hmemory] at hbase
    cases hbase
  · rw [hhistory]
    rfl
  · rw [hhistory]
    exact .nil
  · rw [hhistory] at hid
    rcases hid with hid | ⟨_, hc, _⟩
    · exact .inl hid
    · cases hc
  · rw [hmemory] at hid
    cases hid
  · rw [hmemory] at hid
    cases hid

/-- Object `i` is loaded with its passphrase and used for its calls. -/
def startPool (py : Interpreter) (cipher : Cipher κ) (passphrase : ι → Option String)
    (calls : ι → List VaultCall) (w : World) : VaultPool ι where
  state := w
  threads i := useVault py cipher (passphrase i) (calls i)
  log := []

/-- Every object keeps its contract. -/
abbrev Kept (py : Interpreter) (cipher : Cipher κ) (passphrase : ι → Option String)
    (initial : VaultData) (pool : VaultPool ι) : Prop :=
  pool.Honest (fun _ => saving initial.salt)
    (fun i => Finished py cipher initial.salt (passphrase i)) .start

theorem serial_run (hids : Function.Injective env.ids) {passphrase : ι → Option String}
    (hnew : ∀ n, ∀ c ∈ initial.credentials, c.credentialId ≠ credentialName (env.ids n))
    (h : Serial env initial pool) (hkept : Kept py cipher passphrase initial pool)
    {schedule : List ι} (hun : Pool.Throughout (exec env) Unovertaken pool schedule) :
    Serial env initial (pool.run (exec env) schedule) ∧
      Kept py cipher passphrase initial (pool.run (exec env) schedule) := by
  refine Along.invariant (fun pool => Serial env initial pool ∧
    Kept py cipher passphrase initial pool)
    ?_ ⟨h, hkept⟩ hun
  rintro pool i ⟨h, hkept⟩ hun
  rcases pool.step_cases (exec env) i with he | ⟨o, k, ht, -⟩
  · rw [he]
    exact ⟨h, hkept⟩
  · have hi := hkept i
    rw [ht] at hi
    obtain ⟨hrely, hserial⟩ := h.step hids hnew ht hi.1 hun
    exact ⟨hserial, hkept.step_of_op (exec env) ht hrely⟩

/-- An object has saved its part of the history. -/
theorem saved_sublist (i : ι) (log : VaultLog ι) :
    (Pool.memory Memory.next i .start log).saved.Sublist (history log) := by
  induction log using reverseRecOn with
  | nil => exact Sublist.slnil
  | append_singleton log entry ih =>
    obtain ⟨j, o, x⟩ := entry
    have hhistory : history (log ++ [(j, ⟨o, x⟩)]) = history log ++ (saveOf ⟨o, x⟩).toList := by
      cases hsave : saveOf ⟨o, x⟩ with
      | none | some => simp [hsave, history]
    rw [hhistory]
    by_cases hj : j = i
    · subst hj
      rw [Pool.memory_append_self]
      cases o with
      | replace change =>
        cases x with
        | ok u => exact ih.append (Sublist.refl _)
        | error e => exact ih.trans (sublist_append_left _ _)
      | _ => exact ih.trans (sublist_append_left _ _)
    · rw [Pool.memory_append_other _ hj]
      exact ih.trans (sublist_append_left _ _)

end Pools

/-- The secret of the arguments, as it is read back. -/
def SecretArgs.secret (args : SecretArgs) : CredentialSecret :=
  ⟨args.username, args.password, args.totpSeed.filter (· ≠ "")⟩

/-- The members of the secret. -/
def secretMembers (args : SecretArgs) : Dict :=
  [("username", .str args.username), ("password", .str args.password),
    ("totp_seed", .str (args.totpSeed.getD ""))]

theorem secretMembers_nodup (args : SecretArgs) : ((secretMembers args).map Prod.fst).Nodup := by
  simp [secretMembers]

theorem secretJson_readable (args : SecretArgs) : (secretJson args).Readable py := by
  refine .obj (secretMembers_nodup args) fun m hm => ?_
  simp only [mem_cons, not_mem_nil, or_false] at hm
  rcases hm with rfl | rfl | rfl <;> exact .str _

theorem decryptCredential_of_sealed {key : κ} {args : SecretArgs} {data : VaultData}
    {c : Credential}
    (hfound : findRow Credential.credentialId c.credentialId data.credentials = some c)
    (hsealed : Sealed py cipher key args c) :
    decryptCredential cipher ⟨data, some key⟩ c.credentialId = .ok args.secret := by
  have hfind : data.credentials.find? (fun x => x.credentialId = c.credentialId) = some c := hfound
  have hraw : cipher.decrypt key c.secretNonce c.secretCiphertext c.credentialId =
      .ok ((secretJson args).dumpsSpaced py) := by
    rw [hsealed]
    exact cipher.decrypt_encrypt _ _ _ _
  simp only [decryptCredential, hfind, hraw, bind, Except.bind,
    (secretJson_readable args).loads_dumpsSpaced]
  have hmembers (k : String) : Dict.get? (sortedDict (secretMembers args)) k =
      (Dict.get? (secretMembers args) k).map Json.sorted :=
    get?_sortedDict (secretMembers_nodup args) k
  have husername : Dict.get? (sortedDict (secretMembers args)) "username" =
      some (.str args.username) := hmembers "username"
  have hpassword : Dict.get? (sortedDict (secretMembers args)) "password" =
      some (.str args.password) := hmembers "password"
  have hseed : Dict.get? (sortedDict (secretMembers args)) "totp_seed" =
      some (.str (args.totpSeed.getD "")) := hmembers "totp_seed"
  change secretOfJson (Json.obj (secretMembers args)).sorted = _
  rw [sorted_obj_eq]
  simp only [secretOfJson, husername, hpassword, hseed, SecretArgs.secret]
  cases args.totpSeed with
  | none => simp
  | some seed => simp [Option.filter_some]

section Vaults

variable {ι : Type} [DecidableEq ι]

/-- When no save is overtaken: the successful calls of an object that has returned are among
the saves, in their order; a credential that was never deleted is in the file as it was
written last, with its secret; and a deleted one is not. -/
theorem vault_keeps_credentials (py : Interpreter) (cipher : Cipher κ) (env : Env)
    (hids : Function.Injective env.ids) (passphrase : ι → Option String)
    (calls : ι → List VaultCall) (w : World)
    (hnodup : (w.file.credentials.map Credential.credentialId).Nodup)
    (hnew : ∀ n, ∀ c ∈ w.file.credentials, c.credentialId ≠ credentialName (env.ids n))
    (schedule : List ι)
    (hun : Pool.Throughout (exec env) Unovertaken
      (startPool py cipher passphrase calls w) schedule) :
    let pool := (startPool py cipher passphrase calls w).run (exec env) schedule
    let done := history pool.log
    (∀ i answers, (pool.threads i).returned = some answers →
      ∃ changes, changes.Sublist done ∧
        Forall₂ (Fulfils py cipher (keyOf cipher w.file.salt (passphrase i)))
          (successes answers) changes) ∧
      (∀ id, .delete id ∉ done → ∀ c,
        lastWritten Credential.credentialId w.file.credentials done id = some c →
        c ∈ pool.state.file.credentials ∧ ∀ key args, Sealed py cipher key args c →
          decryptCredential cipher ⟨pool.state.file, some key⟩ id = .ok args.secret) ∧
      ∀ id, .delete id ∈ done → ∀ c ∈ pool.state.file.credentials, c.credentialId ≠ id := by
  intro pool done
  have hstart : Serial env (startPool py cipher passphrase calls w).state.file
      (startPool py cipher passphrase calls w) := serial_start env rfl
  have hkept : Kept py cipher passphrase w.file (startPool py cipher passphrase calls w) :=
    fun i => useVault_meets (passphrase i) (calls i)
  obtain ⟨hserial, hkept⟩ := serial_run hids hnew hstart hkept hun
  refine ⟨fun i answers hreturned => ?_, fun id hkeep c hlast => ?_, fun id hdelete => ?_⟩
  · obtain ⟨_, ⟨⟩, hfulfils⟩ := (hkept i).post_of_returned hreturned
    exact ⟨_, saved_sublist i pool.log, hfulfils⟩
  · have hsettled := (hserial.legal.settled hnodup id).2 hkeep
    rw [← hserial.file, hlast] at hsettled
    have hid : c.credentialId = id := by simpa using find?_some hsettled
    subst hid
    exact ⟨mem_of_find?_eq_some hsettled, fun key args hsealed =>
      decryptCredential_of_sealed hsettled hsealed⟩
  · have hsettled := (hserial.legal.settled hnodup id).1 hdelete
    rw [← hserial.file] at hsettled
    exact (findRow_eq_none_iff _).1 hsettled

end Vaults

def plainEnv : Env where
  clock _ := 0
  ids n := String.ofList (List.replicate n '0')
  nonces _ := ""

def emptyVault : World := ⟨⟨"salt", []⟩, none, 0, 0, 0⟩

def octocat : SecretArgs := { username := "octocat", password := "hunter2", allowedOrigins := [] }

/-- Two objects, each of which adds a credential. -/
def addTwice : VaultPool Bool :=
  startPool .ascii plainCipher (fun _ => some "passphrase") (fun _ => [.add octocat]) emptyVault

/-- One object adds two credentials; the other, loaded after it has saved, deletes the first. -/
theorem vault_keeps_credentials_deleted :
    let pool := (startPool .ascii plainCipher (fun _ => some "passphrase")
      (fun i => if i then [.add octocat, .add octocat] else [.delete "cred_"]) emptyVault).run
        (exec plainEnv) (replicate 12 true ++ replicate 6 false)
    pool.state.file.credentials.map Credential.credentialId = ["cred_0"] ∧
      (history pool.log).length = 3 ∧
      ∀ c ∈ pool.state.file.credentials, c.credentialId ≠ "cred_" := by
  refine ⟨by decide +kernel, by decide +kernel, ?_⟩
  exact (vault_keeps_credentials .ascii plainCipher plainEnv
    (fun _ _ h => replicate_left_injective '0' (String.ofList_injective h)) _ _ emptyVault
    nodup_nil (fun _ _ h => (not_mem_nil h).elim) _ (by decide +kernel)).2.2 "cred_"
    (mem_of_getElem? (i := 2) rfl)

/-- Both objects are loaded before the first has saved: its credential is lost. -/
theorem added_credential_lost :
    let pool := addTwice.run (exec plainEnv)
      ([true, false] ++ replicate 5 true ++ replicate 5 false)
    (∀ i, (pool.threads i).returned.map (fun answers => (successes answers).map Prod.snd) =
        some [if i then "cred_" else "cred_0"]) ∧
      pool.state.file.credentials.map Credential.credentialId = ["cred_0"] := by
  exact ⟨by decide +kernel, by decide +kernel⟩

end OmniDoer.Vault
