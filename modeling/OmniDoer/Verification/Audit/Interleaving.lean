import OmniDoer.Verification.Audit.Chain
import OmniDoer.Verification.Redactor.Digests

/-! # Writers of the audit log

An append reads the last hash and writes its line in two steps, without a lock. In a
schedule in which no line is written between the two, every line links to the one
before it. -/

namespace OmniDoer.Audit

open Py Effects Redactor List Dict

variable {py : Interpreter} {sha256 : ByteArray → ByteArray}

def IsDigest (s : String) : Prop := s.toList.length = 64 ∧ ∀ c ∈ s.toList, c ∈ hexAlphabet

theorem isDigest_genesis : IsDigest genesis := by
  refine ⟨by rw [toList_genesis, length_replicate], fun c hc => ?_⟩
  rw [toList_genesis] at hc
  obtain rfl := eq_of_mem_replicate hc
  decide

variable (hsize : ∀ b, (sha256 b).size = 32)

include hsize in
theorem isDigest_hexDigest (text : String) : IsDigest (hexDigest sha256 text) := by
  have hdigit : ∀ n < 16, hexDigit n ∈ hexAlphabet := by decide
  rw [IsDigest, hexDigest, hexBytes, String.toList_ofList]
  constructor
  · have hlength : (sha256 text.toByteArray).data.toList.length = 32 := by
      exact hsize text.toByteArray
    simp [hexByte, hlength]
  · intro c hc
    obtain ⟨b, -, hb⟩ := mem_flatMap.1 hc
    have hlt := b.toNat_lt
    simp only [hexByte, mem_cons, not_mem_nil, or_false] at hb
    rcases hb with rfl | rfl
    · exact hdigit _ (by omega)
    · exact hdigit _ (by omega)

/-- The fields that an append may be given: a dictionary of the interpreter without the
keys that carry the chain. -/
structure OwnFields (py : Interpreter) (fields : Dict) : Prop where
  readable : (Json.obj fields).Readable py
  previousHash : "previous_hash" ∉ fields.map Prod.fst
  eventHash : "event_hash" ∉ fields.map Prod.fst

theorem newEvent_readable {timestamp : ℚ} (htime : (Json.float (.fin timestamp)).Readable py)
    (eventType previous : String) {fields : Dict} (hfields : OwnFields py fields) :
    (Json.obj (newEvent timestamp eventType (.str previous) fields)).Readable py := by
  cases hfields.readable with
  | obj hkeys hmembers =>
    refine .obj (nodup_foldl_set fields (by simp)) ?_
    apply forall_mem_foldl_set hmembers
    intro m hm
    simp only [mem_cons, not_mem_nil, or_false] at hm
    rcases hm with rfl | rfl | rfl
    · exact htime
    · exact .str _
    · exact .str _

theorem redactMember_previousHash (sensitive : Bool) {previous : String} (h : IsDigest previous) :
    redactMember py sensitive "previous_hash" (.str previous) = .str previous := by
  have hlower : py.lower "previous_hash" = "previous_hash" := by
    rw [py.lower_ascii _ (forall_iff_forall_mem.1 (by decide))]
    exact asciiLower_eq_self (forall_iff_forall_mem.1 (by decide))
  have hmisses : secretFieldRe.misses "previous_hash".toList = true := by decide +kernel
  have hsearch : secretFieldRe.search py.isWord "previous_hash".toList = false :=
    Re.Pattern.search_eq_false_of_misses hmisses fun _ hc => hc
  rw [redactMember, hlower, hsearch, if_neg (by decide), if_neg (by simp), if_neg (by decide),
    redactDomSnapshot, redactText, redactChars_digest _ h.2 (by rw [h.1]; decide),
    String.ofList_toList]

def eventBody (py : Interpreter) (timestamp : ℚ) (eventType previous : String) (fields : Dict) :
    Dict :=
  redactDict py (newEvent timestamp eventType (.str previous) fields)

section Body

variable {timestamp : ℚ} {eventType previous : String} {fields : Dict}

theorem eventBody_readable (htime : (Json.float (.fin timestamp)).Readable py)
    (hfields : OwnFields py fields) :
    (Json.obj (eventBody py timestamp eventType previous fields)).Readable py := by
  have h := redactDomSnapshot_readable (newEvent_readable htime eventType previous hfields)
  rwa [redactDomSnapshot] at h

theorem get?_redactDict (event : Dict) (k : String) :
    Dict.get? (redactDict py event) k =
      (Dict.get? event k).map (redactMember py (fieldIsSensitive py event) k) := by
  rw [redactDict, redactMembers_eq]
  generalize fieldIsSensitive py event = sensitive
  induction event with
  | nil => rfl
  | cons m event ih =>
    rw [map_cons, get?_cons, ih, get?_cons]
    split
    · rename_i hk
      rw [hk]
      rfl
    · rfl

theorem get?_eventBody_previousHash (hprevious : IsDigest previous)
    (hfields : OwnFields py fields) :
    Dict.get? (eventBody py timestamp eventType previous fields) "previous_hash" =
      some (.str previous) := by
  have hget : get? (newEvent timestamp eventType (.str previous) fields) "previous_hash" =
      some (.str previous) := by
    rw [newEvent, get?_foldl_set _ _ _ hfields.previousHash]
    rfl
  rw [eventBody, get?_redactDict, hget, Option.map_some, redactMember_previousHash _ hprevious]

theorem eventHash_notMem_eventBody (hfields : OwnFields py fields) :
    "event_hash" ∉ (eventBody py timestamp eventType previous fields).map Prod.fst := by
  rw [← get?_eq_none_iff, eventBody, get?_redactDict, newEvent,
    get?_foldl_set _ _ _ hfields.eventHash]
  rfl

end Body

theorem links_sortedDict {body : Dict} {previous : String} (hbody : (Json.obj body).Readable py)
    (h : "event_hash" ∉ body.map Prod.fst)
    (hprevious : Dict.get? body "previous_hash" = some (.str previous)) :
    Links py sha256 previous (sortedDict (withHash py sha256 body)) := by
  have hkeys : ((withHash py sha256 body).map Prod.fst).Nodup :=
    keys_nodup (withHash_readable hbody)
  have hpop : pop (withHash py sha256 body) "event_hash" = body := by
    rw [withHash, set_of_notMem h, pop_append, pop_of_notMem h]
    exact append_nil body
  have hhash : bodyHash py sha256 (sortedDict body) = bodyHash py sha256 body := by
    rw [bodyHash, ← sorted_obj_eq, hbody.dumps_sorted, bodyHash]
  constructor
  · rw [pop_sortedDict hkeys, hpop, get?_sortedDict (keys_nodup hbody), hprevious]
    rfl
  · rw [pop_sortedDict hkeys, hpop, hhash, get?_sortedDict hkeys, withHash, set_of_notMem h,
      get?_append, get?_eq_none_iff.2 h]
    rfl

def lineOf (py : Interpreter) (event : Dict) : String := (Json.obj event).dumpsSpaced py

/-- The hash that the next event takes over from the lines of the file. -/
def previousOf (lines : List String) : Except Error Json := do
  let events ← parseLines lines
  if events.isEmpty then .ok (.str genesis) else lastEventHash events

/-- What a writer remembers: the lines it saw last, and the line it has appended. -/
structure Memory where
  seen : List String
  appended : Option String

def Memory.empty : Memory := ⟨[], none⟩

def Memory.after (m : Memory) : (o : AuditOp) → o.Ans → Memory
  | .pathExists, found => bif found then m else { m with seen := [] }
  | .readLines, lines => { m with seen := lines }
  | .time, _ => m
  | .appendLine line, _ => { m with appended := some line }

/-- Nothing follows the line that a writer appends. -/
def writing (py : Interpreter) : Prog.Contract AuditOp AuditOp.Ans Memory where
  guar := fun m _ => m.appended = none
  rely := fun o x =>
    match o, x with
    | .time, t => (Json.float (.fin t)).Readable py
    | _, _ => True
  next := Memory.after

/-- An event made from the hash that the given lines end in. -/
def MadeFrom (py : Interpreter) (sha256 : ByteArray → ByteArray) (lines : List String)
    (event : Dict) : Prop :=
  ∃ timestamp eventType previous fields,
    (Json.float (.fin timestamp)).Readable py ∧ OwnFields py fields ∧
      previousOf lines = .ok previous ∧
      event = withHash py sha256 (redactDict py (newEvent timestamp eventType previous fields))

/-- A writer that returns has appended the line of its event, and one that raises none. -/
def Written (py : Interpreter) (sha256 : ByteArray → ByteArray) (m : Memory) :
    Except Error Dict → Prop
  | .ok event => m.appended = some (lineOf py event) ∧ MadeFrom py sha256 m.seen event
  | .error _ => m.appended = none

/-- The outcome of a reading stage: nothing is appended yet, and what is returned is a
function of the lines seen last. -/
def Read {α : Type} (f : List String → Except Error α) (m : Memory) (r : Except Error α) : Prop :=
  m.appended = none ∧ ∀ a, r = .ok a → f m.seen = .ok a

variable {m : Memory}

theorem ofExcept_meets {α : Type} {f : List String → Except Error α}
    (hm : m.appended = none) {x : Except Error α} (h : ∀ a, x = .ok a → f m.seen = .ok a) :
    (Prog.ofExcept x : AuditProg α).Meets (writing py) (Read f) m := by
  cases x with
  | error e => exact ⟨hm, fun _ he => by cases he⟩
  | ok a => exact ⟨hm, h⟩

theorem events_meets (hm : m.appended = none) :
    AuditLog.events.Meets (writing py) (Read parseLines) m := by
  refine ⟨hm, fun found _ => ?_⟩
  cases found with
  | false =>
    refine ⟨hm, fun events hevents => ?_⟩
    rw [← hevents]
    rfl
  | true =>
    refine ⟨hm, fun lines _ => ?_⟩
    exact ofExcept_meets (m := { m with seen := lines }) hm fun _ h => h

variable {lines : List String}

theorem previousOf_of_last {events : List Json} {previous : Json}
    (hevents : parseLines lines = .ok events) (h : lastEventHash events = .ok previous) :
    previousOf lines = .ok previous := by
  have hne : events.isEmpty = false := by
    cases events with
    | nil => cases h
    | cons event events => rfl
  simpa [previousOf, hevents, hne, bind, Except.bind] using h

theorem previousHash_meets (hm : m.appended = none) :
    AuditLog.previousHash.Meets (writing py) (Read previousOf) m := by
  refine ⟨hm, fun found _ => ?_⟩
  cases found with
  | false =>
    refine ⟨hm, fun previous hprevious => ?_⟩
    rw [← hprevious]
    rfl
  | true =>
    apply Prog.Meets.bind (events_meets hm)
    · intro m₁ events h₁
      split
      · rename_i hempty
        refine ⟨h₁.1, fun previous hprevious => ?_⟩
        rw [← hprevious]
        simp only [previousOf, h₁.2 events rfl]
        exact if_pos hempty
      · apply Prog.Meets.bind (events_meets h₁.1)
        · intro m₂ events₂ h₂
          exact ofExcept_meets h₂.1 fun previous h => previousOf_of_last (h₂.2 events₂ rfl) h
        · exact fun m₂ e h₂ => ⟨h₂.1, nofun⟩
    · exact fun m₁ e h₁ => ⟨h₁.1, nofun⟩

theorem append_meets (eventType : String) {fields : Dict} (hfields : OwnFields py fields) :
    (AuditLog.append py sha256 eventType fields).Meets (writing py) (Written py sha256)
      Memory.empty := by
  apply Prog.Meets.bind (previousHash_meets rfl)
  · intro m previous h
    refine ⟨h.1, fun timestamp htime => ⟨h.1, fun _ _ => ⟨rfl, ?_⟩⟩⟩
    exact ⟨timestamp, eventType, previous, fields, htime, hfields, h.2 previous rfl, rfl⟩
  · exact fun m e h => h.1

variable {p : AuditProg Dict} (h : p.Meets (writing py) (Written py sha256) m)

include h in
theorem done_of_appended {line : String} (hm : m.appended = some line) :
    ∃ event, p = .pure event ∧ line = lineOf py event ∧ MadeFrom py sha256 m.seen event := by
  cases p with
  | pure event =>
    refine ⟨event, rfl, ?_, h.2⟩
    rw [h.1] at hm
    exact (Option.some.inj hm).symm
  | raise e => exact absurd (hm.symm.trans h) (by simp)
  | op o k => exact absurd (hm.symm.trans h.1) (by simp)

include h in
theorem returned_eq_none (hm : m.appended = none) : p.returned = none := by
  cases p with
  | pure event => exact absurd (hm.symm.trans h.1) (by simp)
  | raise | op => rfl

theorem parseLines_append {event : Dict} (h : (Json.obj event).Readable py)
    {events : List Json} (hlines : parseLines lines = .ok events) :
    parseLines (lines ++ [lineOf py event]) = .ok (events ++ [.obj (sortedDict event)]) := by
  have hblank : (strip (lineOf py event) != "") = true := by
    rw [bne_iff_ne]
    refine strip_ne_empty (c := '\x7b') ?_ (by decide)
    rw [lineOf, Json.dumpsSpaced, String.toList_ofList]
    exact mem_cons_self
  have hparse : parseLine (lineOf py event) = .ok (.obj (sortedDict event)) := by
    rw [parseLine, lineOf, h.loads_dumpsSpaced, sorted_obj_eq]
  rw [parseLines] at hlines
  have hfilter : [lineOf py event].filter (fun line => strip line != "") = [lineOf py event] := by
    simp [hblank]
  rw [parseLines, filter_append, hfilter, mapM_append, hlines]
  simp [hparse, bind, Except.bind, pure, Except.pure]

theorem previousOf_verified {log : List Dict}
    (hlines : parseLines lines = .ok (log.map .obj))
    (hverify : verifyFrom py sha256 genesis (log.map .obj) = .ok true) :
    previousOf lines = .ok (.str (headHash py sha256 genesis log)) := by
  rcases eq_nil_or_concat' log with rfl | ⟨front, last, rfl⟩
  · simp only [previousOf, hlines]
    rfl
  · apply previousOf_of_last hlines
    have hlast := headHash_of_verified hverify (by simp : (front ++ [last]).getLast? = some last)
    simp [lastEventHash, hlast]

include hsize in
theorem MadeFrom.extends {log : List Dict} {event : Dict} (h : MadeFrom py sha256 lines event)
    (hlines : parseLines lines = .ok (log.map .obj))
    (hverify : verifyFrom py sha256 genesis (log.map .obj) = .ok true) :
    (Json.obj event).Readable py ∧
      verifyFrom py sha256 genesis ((log ++ [sortedDict event]).map .obj) = .ok true := by
  obtain ⟨timestamp, eventType, previous, fields, htime, hfields, hprevious, rfl⟩ := h
  rw [previousOf_verified hlines hverify] at hprevious
  obtain rfl := Except.ok.inj hprevious
  have hdigest : IsDigest (headHash py sha256 genesis log) := by
    rcases eq_nil_or_concat' log with rfl | ⟨front, last, rfl⟩
    · exact isDigest_genesis
    · rw [headHash_append_singleton]
      exact isDigest_hexDigest hsize _
  have hbody : (Json.obj (eventBody py timestamp eventType (headHash py sha256 genesis log)
      fields)).Readable py := eventBody_readable htime hfields
  refine ⟨withHash_readable hbody, ?_⟩
  rw [verifyFrom_append_singleton_iff]
  exact ⟨hverify, links_sortedDict hbody (eventHash_notMem_eventBody hfields)
    (get?_eventBody_previousHash hdigest hfields)⟩

section Schedules

variable {ι : Type} [DecidableEq ι]

abbrev AuditPool (ι : Type) := Pool ι World AuditOp AuditOp.Ans Error Dict

/-- One append: the event type and the fields. -/
structure Append where
  eventType : String
  fields : Dict

/-- The writers before their first step, when there is no file. -/
def startPool (py : Interpreter) (sha256 : ByteArray → ByteArray) (calls : ι → Append) :
    AuditPool ι where
  state := .empty
  threads := fun i => AuditLog.append py sha256 (calls i).eventType (calls i).fields
  log := []

/-- The lines that writer `i` saw last. -/
def seenBy (pool : AuditPool ι) (i : ι) : List String :=
  (Pool.memory Memory.after i .empty pool.log).seen

/-- If writer `i` is about to append, the file still has the lines it saw last. -/
def Current (pool : AuditPool ι) (i : ι) : Prop :=
  match pool.threads i with
  | .op (.appendLine _) _ => pool.state.content = seenBy pool i
  | _ => True

instance (pool : AuditPool ι) (i : ι) : Decidable (Current pool i) := by
  unfold Current
  split <;> infer_instance

/-- The file holds one line for each writer that has returned, and they form a chain. -/
structure Chained (py : Interpreter) (sha256 : ByteArray → ByteArray) (pool : AuditPool ι)
    (written : List (ι × Dict)) : Prop where
  honest : pool.Honest (fun _ => writing py) (fun _ => Written py sha256) .empty
  nodup : (written.map Prod.fst).Nodup
  returned : ∀ i event, (i, event) ∈ written ↔ (pool.threads i).returned = some event
  lines : pool.state.content = written.map fun w => lineOf py w.2
  parsed : parseLines pool.state.content = .ok (written.map fun w => .obj (sortedDict w.2))
  verified : verifyFrom py sha256 genesis (written.map fun w => .obj (sortedDict w.2)) = .ok true

variable {clock : ℕ → ℚ}

theorem chained_start {calls : ι → Append} (hcalls : ∀ i, OwnFields py (calls i).fields) :
    Chained py sha256 (startPool py sha256 calls) [] where
  honest := fun i => append_meets (calls i).eventType (hcalls i)
  nodup := nodup_nil
  returned := by
    intro i event
    have hnone : (AuditLog.append py sha256 (calls i).eventType (calls i).fields).returned = none :=
      returned_eq_none (append_meets (calls i).eventType (hcalls i)) rfl
    simp [startPool, hnone]
  lines := rfl
  parsed := rfl
  verified := rfl

variable {written : List (ι × Dict)}

theorem Chained.quiet {pool pool' : AuditPool ι}
    (h : Chained py sha256 pool written)
    (honest : pool'.Honest (fun _ => writing py) (fun _ => Written py sha256) .empty)
    (hcontent : pool'.state.content = pool.state.content)
    (hreturned : ∀ j, (pool'.threads j).returned = (pool.threads j).returned) :
    Chained py sha256 pool' written where
  honest := honest
  nodup := h.nodup
  returned := fun i event => by rw [hreturned, h.returned]
  lines := by rw [hcontent, h.lines]
  parsed := by rw [hcontent, h.parsed]
  verified := h.verified

include hsize in
theorem Chained.append {pool pool' : AuditPool ι} (h : Chained py sha256 pool written)
    (honest : pool'.Honest (fun _ => writing py) (fun _ => Written py sha256) .empty) {i : ι}
    {event : Dict} (hmade : MadeFrom py sha256 pool.state.content event)
    (hcontent : pool'.state.content = pool.state.content ++ [lineOf py event])
    (hbefore : (pool.threads i).returned = none) (hafter : pool'.threads i = .pure event)
    (hothers : ∀ j ≠ i, pool'.threads j = pool.threads j) :
    Chained py sha256 pool' (written ++ [(i, event)]) := by
  have hlog : (written.map fun w => Json.obj (sortedDict w.2)) =
      (written.map fun w => sortedDict w.2).map .obj := by
    rw [map_map]
    rfl
  obtain ⟨hreadable, hverified⟩ := hmade.extends hsize (hlog ▸ h.parsed) (hlog ▸ h.verified)
  have hnew : i ∉ written.map Prod.fst := by
    intro hi
    obtain ⟨⟨j, e⟩, hmem, rfl⟩ := mem_map.1 hi
    rw [(h.returned j e).1 hmem] at hbefore
    cases hbefore
  refine ⟨honest, ?_, ?_, ?_, ?_, ?_⟩
  · rw [map_append]
    exact h.nodup.append (nodup_singleton i) (by simpa using hnew)
  · intro j e
    rw [mem_append]
    by_cases hj : j = i
    · subst hj
      have hnot : (j, e) ∉ written := fun hmem => hnew (mem_map.2 ⟨_, hmem, rfl⟩)
      rw [hafter]
      simp [hnot, Prog.returned, eq_comm]
    · rw [hothers j hj, h.returned]
      simp [hj]
  · rw [hcontent, h.lines, map_append, map_singleton]
  · rw [hcontent, parseLines_append hreadable h.parsed, map_append, map_singleton]
  · rw [map_append, hlog]
    rwa [map_append, map_singleton] at hverified

include hsize in
theorem Chained.step (hclock : ∀ n, (Json.float (.fin (clock n))).Readable py) {pool : AuditPool ι}
    (h : Chained py sha256 pool written) {i : ι} (hcurrent : Current pool i) :
    ∃ written', Chained py sha256 (pool.step (exec clock) i) written' := by
  have hrely : ∀ o, (writing py).rely o (exec clock o pool.state).1 := by
    intro o
    cases o with
    | time => exact hclock _
    | pathExists | readLines | appendLine => trivial
  have hhonest := h.honest.step (exec clock) i fun o _ => hrely o
  rcases pool.step_cases (exec clock) i with he | ⟨o, k, ht, he⟩
  · exact ⟨written, by rw [he]; exact h⟩
  · have hbefore : (pool.threads i).returned = none := by rw [ht]; rfl
    have hguar := h.honest i
    rw [ht] at hguar
    have hothers : ∀ j ≠ i, (pool.step (exec clock) i).threads j = pool.threads j :=
      fun j hj => pool.step_threads_of_ne (exec clock) hj
    have hi := hhonest i
    rw [he] at hi
    simp only [Function.update_self, Pool.memory_append_self] at hi
    have hthread : (pool.step (exec clock) i).threads i = k (exec clock o pool.state).1 := by
      rw [he]
      exact Function.update_self ..
    by_cases ho : ∃ line, o = .appendLine line
    · obtain ⟨line, rfl⟩ := ho
      obtain ⟨event, hpure, rfl, hmade⟩ := done_of_appended hi rfl
      rw [Current, ht] at hcurrent
      have hmade' : MadeFrom py sha256 pool.state.content event := by
        rw [hcurrent]
        exact hmade
      exact ⟨_, h.append hsize hhonest hmade' (by rw [he]; rfl) hbefore
        (hthread.trans hpure) hothers⟩
    · have hcontent : (pool.step (exec clock) i).state.content = pool.state.content := by
        rw [he]
        cases o with
        | appendLine line => exact absurd ⟨line, rfl⟩ ho
        | pathExists | readLines | time => rfl
      have hmemory : (Memory.after (Pool.memory Memory.after i .empty pool.log) o
          (exec clock o pool.state).1).appended = none := by
        cases o with
        | appendLine line => exact absurd ⟨line, rfl⟩ ho
        | pathExists =>
          cases (exec clock .pathExists pool.state).1 <;> exact hguar.1
        | readLines | time => exact hguar.1
      refine ⟨written, h.quiet hhonest hcontent fun j => ?_⟩
      by_cases hj : j = i
      · subst hj
        rw [hthread, returned_eq_none hi hmemory, hbefore]
      · rw [hothers j hj]

theorem verify_run (w : World) :
    ((AuditLog.verify py sha256).run (exec clock) w).1 =
      parseLines w.content >>= verifyFrom py sha256 genesis := by
  obtain ⟨lines, tick⟩ := w
  cases lines with
  | none => rfl
  | some lines =>
    have hrun : (AuditLog.verify py sha256).run (exec clock) ⟨some lines, tick⟩ =
        ((Prog.ofExcept (parseLines lines) : AuditProg (List Json)) >>= fun events =>
          Prog.ofExcept (verifyFrom py sha256 genesis events)).run (exec clock)
            ⟨some lines, tick⟩ :=
      rfl
    rw [hrun, World.content, Option.getD_some]
    cases parseLines lines with
    | error e => rfl
    | ok events => exact congrArg Prod.fst (Prog.run_ofExcept (exec clock) _ _)

/-- In a schedule in which every append finds the lines it read, the log verifies and
holds each appended event once. -/
theorem audit_chain_verifies (py : Interpreter) (sha256 : ByteArray → ByteArray) (clock : ℕ → ℚ)
    (hsize : ∀ b, (sha256 b).size = 32)
    (hclock : ∀ n, (Json.float (.fin (clock n))).Readable py) (calls : ι → Append)
    (hcalls : ∀ i, OwnFields py (calls i).fields) (schedule : List ι)
    (hcurrent : (startPool py sha256 calls).Throughout (exec clock) Current schedule) :
    ((AuditLog.verify py sha256).run (exec clock)
      ((startPool py sha256 calls).run (exec clock) schedule).state).1 = .ok true ∧
    ∃ written : List (ι × Dict), (written.map Prod.fst).Nodup ∧
      (∀ i event, (i, event) ∈ written ↔
        (((startPool py sha256 calls).run (exec clock) schedule).threads i).returned = some event) ∧
      parseLines ((startPool py sha256 calls).run (exec clock) schedule).state.content =
        .ok (written.map fun w => (Json.obj w.2).sorted) := by
  obtain ⟨written, h⟩ : ∃ written, Chained py sha256
      ((startPool py sha256 calls).run (exec clock) schedule) written :=
    Along.invariant (fun pool => ∃ written, Chained py sha256 pool written)
      (fun _ _ ⟨_, h⟩ hc => h.step hsize hclock hc) ⟨[], chained_start hcalls⟩ hcurrent
  refine ⟨?_, written, h.nodup, h.returned, ?_⟩
  · rw [verify_run, h.parsed]
    exact h.verified
  · simpa only [sorted_obj_eq] using h.parsed

end Schedules

def wholeFloats : Interpreter :=
  { Interpreter.ascii with floatRepr := fun q => toString q.num ++ ".0" }

def constantHash : ByteArray → ByteArray := fun _ => ⟨Array.replicate 32 1⟩

def twoLogins : Bool → Append := fun _ => ⟨"login", []⟩

theorem readable_zero : (Json.float (.fin 0)).Readable wholeFloats := by
  have htext : (wholeFloats.floatRepr 0).toList = ['0', '.', '0'] := by decide +kernel
  have hvalue : floatOfString "0.0" = some (.fin 0) := by decide +kernel
  refine .float ?_
  rw [htext]
  simp [readNumber, wholePart, wholeDigits, fractionPart, exponentText, numberValue, hvalue]

theorem ownFields_nil : OwnFields wholeFloats [] :=
  ⟨.obj nodup_nil (by simp), by simp, by simp⟩

/-- The first writer has appended its event before the second reads the file and appends its own. -/
theorem audit_chain_verifies_first :
    ((AuditLog.verify wholeFloats constantHash).run (exec fun _ => 0)
      ((startPool wholeFloats constantHash twoLogins).run (exec fun _ => 0)
        [false, false, false, true, true, true, true]).state).1 = .ok true := by
  exact (audit_chain_verifies wholeFloats constantHash (fun _ => 0) (fun _ => rfl)
    (fun _ => readable_zero) twoLogins (fun _ => ownFields_nil) _ (by decide +kernel)).1

/-- Both writers look for the file before either has written to it. -/
theorem audit_chain_forks :
    ((AuditLog.verify wholeFloats constantHash).run (exec fun _ => 0)
      ((startPool wholeFloats constantHash twoLogins).run (exec fun _ => 0)
        [false, true, false, false, true, true]).state).1 = .ok false := by
  -- the same line twice, with no predecessor
  let event := withHash wholeFloats constantHash (eventBody wholeFloats 0 "login" genesis [])
  have hcontent : ((startPool wholeFloats constantHash twoLogins).run (exec fun _ => 0)
      [false, true, false, false, true, true]).state.content =
        [] ++ [lineOf wholeFloats event] ++ [lineOf wholeFloats event] := rfl
  have hbody : (Json.obj (eventBody wholeFloats 0 "login" genesis [])).Readable wholeFloats :=
    eventBody_readable readable_zero ownFields_nil
  have hread : (Json.obj event).Readable wholeFloats := withHash_readable hbody
  have hlinks : Links wholeFloats constantHash genesis (sortedDict event) :=
    links_sortedDict hbody (eventHash_notMem_eventBody ownFields_nil)
      (get?_eventBody_previousHash isDigest_genesis ownFields_nil)
  have hparsed : parseLines ([] ++ [lineOf wholeFloats event] ++ [lineOf wholeFloats event]) =
      .ok ([] ++ [Json.obj (sortedDict event)] ++ [Json.obj (sortedDict event)]) :=
    parseLines_append hread (parseLines_append hread rfl)
  have hhash : genesis ≠ bodyHash wholeFloats constantHash
      (pop (sortedDict event) "event_hash") := by
    decide +kernel
  rw [verify_run, hcontent, hparsed]
  simp only [bind, Except.bind, nil_append, singleton_append, verifyFrom, hlinks.1]
  simp [Json.eqStr, hhash]

end OmniDoer.Audit
