import OmniDoer.Library.Lock
import OmniDoer.Library.PyHash
import OmniDoer.Library.Table
import Mathlib.Data.Rat.Defs

/-! # Pairing codes

The model of `omni_control/pairing.py` with the lock of `state_io.py`. A load and a save of
the state file are one operation each. Times and their sums are exact; the key pairs of the
broker enter only by their fingerprints. -/

namespace OmniDoer.Pairing

open Py Effects Tables

def defaultPairingTtlSeconds : ℤ := 24 * 60 * 60

def defaultPairingMaxUses : ℕ := 10

/-- What the program takes from outside: the hash, `str.isdigit` of one character, the
clock, the random numbers, the identifiers of `uuid4` and the two fingerprints. The `n`-th
answer of a source is its value at `n`. -/
structure Env where
  sha256 : ByteArray → ByteArray
  isDigit : Char → Bool
  isDigit_ascii : ∀ c : Char, c.toNat < 128 → isDigit c = c.isDigit
  clock : ℕ → ℚ
  draws : ℕ → ℕ
  ids : ℕ → String
  brokerFingerprint : String
  webBrokerFingerprint : String

/-- The text of a drawn number: `f"{n:06d}"`. -/
def sixDigits (n : ℕ) : String := String.ofList ((Nat.toDigits 10 n).leftpad 6 '0')

def normalizePairingCode (env : Env) (code : String) : String :=
  let text := strip code
  if text = "" then ""
  else
    let digits := text.toList.filter env.isDigit
    if digits.length = 6 ∧
        text.toList.all (fun ch => env.isDigit ch || isSpace ch || ch == '-') = true then
      String.ofList digits
    else text

def pairingCodeHash (env : Env) (code : String) : String :=
  hexDigest env.sha256 ("omnidoer-pairing-v1:" ++ normalizePairingCode env code)

structure PairingCode where
  pairingId : String
  codeHash : String
  publicUrl : String
  brokerFingerprint : String
  webBrokerFingerprint : String
  expiresAt : ℚ
  code : String
  used : Bool
  useCount : ℕ
  maxUses : ℕ
  createdAt : ℚ
  deriving DecidableEq, Repr

/-- `is_expired` at the time it goes by. -/
def PairingCode.isExpired (pairing : PairingCode) (now : ℚ) : Bool :=
  decide (pairing.expiresAt < now)

/-- A row of the state file. Older files may lack the hash, the counter and the limit, and
may hold the code itself. -/
structure RawPairing where
  pairingId : String
  codeHash : Option String
  publicUrl : String
  brokerFingerprint : String
  webBrokerFingerprint : String
  expiresAt : ℚ
  code : String
  used : Bool
  useCount : Option ℕ
  maxUses : Option ℕ
  createdAt : ℚ
  deriving DecidableEq, Repr

abbrev Pairings := Table PairingCode.pairingId

abbrev RawPairings := Table RawPairing.pairingId

/-- `use_count >= (max_uses or 1)`. -/
def exhausted (useCount maxUses : ℕ) : Bool :=
  decide ((if maxUses = 0 then 1 else maxUses) ≤ useCount)

/-- The row with its defaults filled in, its `used` computed and its code blanked. -/
def RawPairing.fill (env : Env) (raw : RawPairing) : PairingCode :=
  let maxUses := raw.maxUses.getD defaultPairingMaxUses
  let useCount := raw.useCount.getD (if raw.used then 1 else 0)
  { pairingId := raw.pairingId
    codeHash := raw.codeHash.getD (pairingCodeHash env raw.code)
    publicUrl := raw.publicUrl
    brokerFingerprint := raw.brokerFingerprint
    webBrokerFingerprint := raw.webBrokerFingerprint
    expiresAt := raw.expiresAt
    code := ""
    used := exhausted useCount maxUses
    useCount := useCount
    maxUses := maxUses
    createdAt := raw.createdAt }

theorem RawPairing.pairingId_fill (env : Env) (raw : RawPairing) :
    (raw.fill env).pairingId = raw.pairingId := rfl

/-- The row has a hash, or a code to compute it from. -/
def RawPairing.hasHash (raw : RawPairing) : Bool := raw.codeHash.isSome || raw.code != ""

/-- `_load`; there may be no file. -/
def loadPairings (env : Env) : Option RawPairings → Except Error Pairings
  | none => .ok .empty
  | some raw =>
    if raw.rows.all RawPairing.hasHash then
      .ok (raw.map (RawPairing.fill env) (RawPairing.pairingId_fill env))
    else
      .error ⟨.typeError,
        "PairingCode.__init__() missing 1 required positional argument: 'code_hash'"⟩

def PairingCode.toRaw (pairing : PairingCode) : RawPairing where
  pairingId := pairing.pairingId
  codeHash := some pairing.codeHash
  publicUrl := pairing.publicUrl
  brokerFingerprint := pairing.brokerFingerprint
  webBrokerFingerprint := pairing.webBrokerFingerprint
  expiresAt := pairing.expiresAt
  code := ""
  used := pairing.used
  useCount := some pairing.useCount
  maxUses := some pairing.maxUses
  createdAt := pairing.createdAt

theorem PairingCode.pairingId_toRaw (pairing : PairingCode) :
    pairing.toRaw.pairingId = pairing.pairingId := rfl

/-- What `_save` writes: the rows in the order of their keys. -/
def savePairings (pairings : Pairings) : RawPairings :=
  (pairings.map PairingCode.toRaw PairingCode.pairingId_toRaw).sorted

/-- The state file, whether its lock is taken, and how many times each source was asked. -/
structure World where
  file : Option RawPairings
  locked : Bool
  tick : ℕ
  drawn : ℕ
  issued : ℕ

inductive PairingOp where
  | acquire
  | release
  | load
  | save (pairings : Pairings)
  | time
  | randbelow
  | uuid

@[reducible] def PairingOp.Ans : PairingOp → Type
  | .acquire | .release | .save _ => Unit
  | .load => Except Error Pairings
  | .time => ℚ
  | .randbelow => ℕ
  | .uuid => String

def exec (env : Env) : (o : PairingOp) → World → o.Ans × World
  | .acquire, w => ((), { w with locked := true })
  | .release, w => ((), { w with locked := false })
  | .load, w => (loadPairings env w.file, w)
  | .save pairings, w => ((), { w with file := some (savePairings pairings) })
  | .time, w => (env.clock w.tick, { w with tick := w.tick + 1 })
  | .randbelow, w => (env.draws w.drawn % 1000000, { w with drawn := w.drawn + 1 })
  | .uuid, w => (env.ids w.issued, { w with issued := w.issued + 1 })

abbrev PairingProg (α : Type) := Prog PairingOp PairingOp.Ans Error α

def loading : PairingProg Pairings := .op .load .ofExcept

def saving (pairings : Pairings) : PairingProg Unit := .op (.save pairings) .pure

/-- `now or time.time()`. -/
def nowOrTime (now : Option ℚ) : PairingProg ℚ :=
  match now with
  | some now => if now = 0 then .op .time .pure else .pure now
  | none => .op .time .pure

/-- `with locked_state_file(self.path)`. -/
def lockedStateFile {α : Type} (body : PairingProg α) : PairingProg α :=
  Prog.between .acquire .release body

namespace PairingStore

/-- The hashes of the pairings that are neither used nor expired. -/
def activeHashes (now : ℚ) : List PairingCode → PairingProg (List String)
  | [] => .pure []
  | item :: rest =>
    if item.used then activeHashes now rest
    else do
      let time ← nowOrTime (some now)
      let hashes ← activeHashes now rest
      return if item.isExpired time then hashes else item.codeHash :: hashes

/-- At most `attempts` drawings of a code whose hash is not active. -/
def drawCode (env : Env) (active : List String) : ℕ → PairingProg String
  | 0 => .raise ⟨.runtimeError, "could not generate a unique pairing code"⟩
  | attempts + 1 =>
    .op .randbelow fun n =>
      if pairingCodeHash env (sixDigits n) ∈ active then drawCode env active attempts
      else .pure (sixDigits n)

def create (env : Env) (publicUrl : String) (ttlSeconds : ℤ := defaultPairingTtlSeconds)
    (maxUses : ℤ := defaultPairingMaxUses) : PairingProg PairingCode :=
  lockedStateFile do
    let pairings ← loading
    let now ← .op .time .pure
    let active ← activeHashes now pairings.rows
    let code ← drawCode env active 20
    let pairingId ← .op .uuid .pure
    let createdAt ← .op .time .pure
    let pairing : PairingCode :=
      { pairingId := pairingId
        codeHash := pairingCodeHash env code
        publicUrl := String.ofList (rstripWhile (· == '/') publicUrl.toList)
        brokerFingerprint := env.brokerFingerprint
        webBrokerFingerprint := env.webBrokerFingerprint
        expiresAt := now + ttlSeconds
        code := code
        used := false
        useCount := 0
        maxUses := (max 1 maxUses).toNat
        createdAt := createdAt }
    saving (pairings.insert pairing)
    return pairing

/-- The pairing after one more use. -/
def useOnce (pairing : PairingCode) : PairingCode :=
  { pairing with
    useCount := pairing.useCount + 1
    used := decide (pairing.maxUses ≤ pairing.useCount + 1) }

def consume (env : Env) (code : String) (now : Option ℚ := none) : PairingProg PairingCode :=
  lockedStateFile do
    let pairings ← loading
    -- the first row in the order of the file decides
    match pairings.rows.find? fun pairing => pairing.codeHash = pairingCodeHash env code with
    | none => .raise ⟨.valueError, "invalid pairing code"⟩
    | some pairing =>
      if pairing.maxUses ≤ pairing.useCount then .raise ⟨.valueError, "pairing code already used"⟩
      else do
        let time ← nowOrTime now
        if pairing.isExpired time then .raise ⟨.valueError, "pairing code expired"⟩
        else do
          saving (pairings.insert (useOnce pairing))
          return useOnce pairing

/-- A pairing found expired is marked as used; the file is saved without its lock. -/
def get (pairingId : String) (now : Option ℚ := none) : PairingProg PairingCode := do
  let pairings ← loading
  match pairings.lookup pairingId with
  | none => .raise ⟨.keyError, "pairing not found: " ++ pairingId⟩
  | some pairing =>
    let time ← nowOrTime now
    if pairing.isExpired time && !pairing.used then
      saving (pairings.insert { pairing with used := true })
      return { pairing with used := true }
    else return pairing

def list : PairingProg (List PairingCode) := do
  let pairings ← loading
  return pairings.rows.insertionSort fun a b => a.createdAt ≤ b.createdAt

end PairingStore

inductive PairingCall where
  | create (publicUrl : String) (ttlSeconds maxUses : ℤ)
  | consume (code : String) (now : Option ℚ)
  | get (pairingId : String) (now : Option ℚ)
  | list

inductive PairingAnswer where
  | created (pairing : PairingCode)
  | consumed (pairing : PairingCode)
  | got (pairing : PairingCode)
  | listed (pairings : List PairingCode)
  deriving DecidableEq, Repr

def PairingCall.prog (env : Env) : PairingCall → PairingProg PairingAnswer
  | .create publicUrl ttlSeconds maxUses =>
    .created <$> PairingStore.create env publicUrl ttlSeconds maxUses
  | .consume code now => .consumed <$> PairingStore.consume env code now
  | .get pairingId now => .got <$> PairingStore.get pairingId now
  | .list => .listed <$> PairingStore.list

end OmniDoer.Pairing
