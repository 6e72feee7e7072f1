import OmniDoer.Model.AuditLog

/-! # The chain of events

`verify` accepts a log when every event links to the one before it. The hash of an
event covers the hash before it, so the last hash determines the whole log. -/

namespace OmniDoer.Audit

open Py List Json Dict

variable {py : Interpreter} {sha256 : ByteArray → ByteArray}

theorem toList_genesis : genesis.toList = List.replicate 64 '0' := String.toList_ofList

/-- The event carries the given hash as its predecessor's and the hash of its own body. -/
def Links (py : Interpreter) (sha256 : ByteArray → ByteArray) (previous : String) (event : Dict) :
    Prop :=
  Dict.get? (Dict.pop event "event_hash") "previous_hash" = some (.str previous) ∧
    Dict.get? event "event_hash" = some (.str (bodyHash py sha256 (Dict.pop event "event_hash")))

def headHash (py : Interpreter) (sha256 : ByteArray → ByteArray) (previous : String)
    (log : List Dict) : String :=
  (log.getLast?.map fun event => bodyHash py sha256 (Dict.pop event "event_hash")).getD previous

variable (previous : String)

variable (log : List Dict)

variable (event : Dict)

theorem headHash_append_singleton :
    headHash py sha256 previous (log ++ [event]) =
      bodyHash py sha256 (Dict.pop event "event_hash") := by
  simp [headHash]

theorem headHash_cons :
    headHash py sha256 previous (event :: log) =
      headHash py sha256 (bodyHash py sha256 (Dict.pop event "event_hash")) log := by
  rcases eq_nil_or_concat' log with rfl | ⟨front, next, rfl⟩
  · rfl
  · rw [← cons_append, headHash_append_singleton, headHash_append_singleton]

theorem verifyFrom_cons_iff (rest : List Json) :
    verifyFrom py sha256 previous (.obj event :: rest) = .ok true ↔
      Links py sha256 previous event ∧
        verifyFrom py sha256 (bodyHash py sha256 (Dict.pop event "event_hash")) rest =
          .ok true := by
  simp only [verifyFrom, Links, ← eqStr_iff]
  cases hp : eqStr (get? (pop event "event_hash") "previous_hash") previous with
  | false => simp
  | true =>
    cases hh : eqStr (get? event "event_hash") (bodyHash py sha256 (pop event "event_hash")) with
    | false | true => simp

theorem verifyFrom_append_singleton_iff :
    verifyFrom py sha256 previous ((log ++ [event]).map .obj) = .ok true ↔
      verifyFrom py sha256 previous (log.map .obj) = .ok true ∧
        Links py sha256 (headHash py sha256 previous log) event := by
  induction log generalizing previous with
  | nil =>
    rw [nil_append, map_singleton, verifyFrom_cons_iff]
    simp [verifyFrom, headHash]
  | cons first log ih =>
    rw [cons_append, map_cons, verifyFrom_cons_iff, ih, map_cons,
      verifyFrom_cons_iff, headHash_cons, and_assoc]

/-- Two events that are equal as dictionaries, in whatever order their members are. -/
def SameEvent (event event' : Dict) : Prop :=
  (Json.obj event).sorted = (Json.obj event').sorted

theorem sameEvent_iff (event event' : Dict) :
    SameEvent event event' ↔ sortedDict event = sortedDict event' := by
  rw [SameEvent, sorted_obj_eq, sorted_obj_eq, obj.injEq]

theorem readable_pop {event : Dict} (h : (Json.obj event).Readable py) (k : String) :
    (Json.obj (Dict.pop event k)).Readable py := by
  cases h with
  | obj hkeys hmembers =>
    refine .obj (hkeys.sublist (filter_sublist.map _)) ?_
    intro m hm
    exact hmembers m (mem_of_mem_filter hm)

theorem keys_nodup {event : Dict} (h : (Json.obj event).Readable py) :
    (event.map Prod.fst).Nodup := by
  cases h with
  | obj hkeys _ => exact hkeys

theorem withHash_readable {body : Dict} (hbody : (Json.obj body).Readable py) :
    (Json.obj (withHash py sha256 body)).Readable py := by
  cases hbody with
  | obj hkeys hmembers =>
    exact .obj (nodup_set hkeys _ _) (forall_mem_set hmembers (.str _))

theorem perm_cons_pop {event : Dict} (hkeys : (event.map Prod.fst).Nodup) {k : String} {v : Json}
    (h : Dict.get? event k = some v) : event.Perm ((k, v) :: Dict.pop event k) := by
  induction event with
  | nil => cases h
  | cons m event ih =>
    obtain ⟨key, value⟩ := m
    rw [map_cons, nodup_cons] at hkeys
    rw [get?_cons] at h
    by_cases hk : k = key
    · subst hk
      rw [if_pos rfl] at h
      have hpop : pop ((k, value) :: event) k = event := by
        rw [pop, filter_cons_of_neg (by simp)]
        exact pop_of_notMem hkeys.1
      rw [hpop, Option.some.inj h]
    · rw [if_neg hk] at h
      have hpop : pop ((key, value) :: event) k = (key, value) :: pop event k :=
        filter_cons_of_pos (by simpa using Ne.symm hk)
      rw [hpop]
      exact ((ih hkeys.2 h).cons _).trans (Perm.swap _ _ _)

variable {event event' : Dict}

theorem sameEvent_of_pop (hkeys : (event.map Prod.fst).Nodup)
    (hkeys' : (event'.map Prod.fst).Nodup) {k : String} {v : Json}
    (h : Dict.get? event k = some v) (h' : Dict.get? event' k = some v)
    (hpop : SameEvent (Dict.pop event k) (Dict.pop event' k)) : SameEvent event event' := by
  rw [sameEvent_iff] at hpop ⊢
  rw [sortedDict, sortedDict, ← sortKeys_map, ← sortKeys_map]
  refine sortKeys_eq_of_perm (by rwa [map_fst_map_sorted]) ?_
  have hperm := (perm_cons_pop hkeys h).map fun m => (m.1, m.2.sorted)
  have hperm' := (perm_cons_pop hkeys' h').map fun m => (m.1, m.2.sorted)
  exact (hperm.trans
    (((sortedDict_perm _).symm.trans (hpop ▸ sortedDict_perm _)).cons _)).trans hperm'.symm

def bodyText (py : Interpreter) (event : Dict) : String :=
  (Json.obj (Dict.pop event "event_hash")).dumps py true

theorem sameEvent_of_links {previous previous' : String}
    (hread : (Json.obj event).Readable py) (hread' : (Json.obj event').Readable py)
    (hlinks : Links py sha256 previous event) (hlinks' : Links py sha256 previous' event')
    (htext : bodyText py event = bodyText py event') :
    SameEvent event event' ∧ previous = previous' := by
  have hpop : SameEvent (pop event "event_hash") (pop event' "event_hash") :=
    (readable_pop hread _).sorted_eq_of_dumps_eq (readable_pop hread' _) htext
  have hhash : bodyHash py sha256 (pop event "event_hash") =
      bodyHash py sha256 (pop event' "event_hash") :=
    congrArg (hexDigest sha256) htext
  refine ⟨sameEvent_of_pop (keys_nodup hread) (keys_nodup hread') hlinks.2 ?_ hpop, ?_⟩
  · rw [hhash]
    exact hlinks'.2
  · rw [sameEvent_iff] at hpop
    have he := congrArg (Dict.get? · "previous_hash") hpop
    simp only [get?_sortedDict (keys_nodup (readable_pop hread _)),
      get?_sortedDict (keys_nodup (readable_pop hread' _)), hlinks.1, hlinks'.1] at he
    simpa [sorted] using he

theorem sameEvents_of_headHash_eq {log log' : List Dict}
    (hread : ∀ event ∈ log, (Json.obj event).Readable py)
    (hread' : ∀ event ∈ log', (Json.obj event).Readable py)
    (hinj : ∀ event ∈ log, ∀ event' ∈ log',
      hexDigest sha256 (bodyText py event) = hexDigest sha256 (bodyText py event') →
        bodyText py event = bodyText py event')
    (hgenesis : ∀ event ∈ log, hexDigest sha256 (bodyText py event) ≠ genesis)
    (hgenesis' : ∀ event ∈ log', hexDigest sha256 (bodyText py event) ≠ genesis)
    (hverify : verifyFrom py sha256 genesis (log.map .obj) = .ok true)
    (hverify' : verifyFrom py sha256 genesis (log'.map .obj) = .ok true)
    (hhead : headHash py sha256 genesis log = headHash py sha256 genesis log') :
    List.Forall₂ SameEvent log log' := by
  induction log using reverseRecOn generalizing log' with
  | nil =>
    rcases eq_nil_or_concat' log' with rfl | ⟨front', event', rfl⟩
    · exact .nil
    · rw [headHash_append_singleton] at hhead
      exact absurd hhead.symm (hgenesis' event' (by simp))
  | append_singleton front event ih =>
    rw [headHash_append_singleton] at hhead
    rcases eq_nil_or_concat' log' with rfl | ⟨front', event', rfl⟩
    · exact absurd hhead (hgenesis event (by simp))
    · rw [headHash_append_singleton] at hhead
      rw [verifyFrom_append_singleton_iff] at hverify hverify'
      obtain ⟨hevent, hprevious⟩ := sameEvent_of_links (hread event (by simp))
        (hread' event' (by simp)) hverify.2 hverify'.2 (hinj event (by simp) event' (by simp) hhead)
      refine rel_append (ih ?_ ?_ ?_ ?_ ?_ hverify.1 hverify'.1 hprevious) (.cons hevent .nil)
      · exact fun e he => hread e (mem_append_left _ he)
      · exact fun e he => hread' e (mem_append_left _ he)
      · exact fun e he e' he' => hinj e (mem_append_left _ he) e' (mem_append_left _ he')
      · exact fun e he => hgenesis e (mem_append_left _ he)
      · exact fun e he => hgenesis' e (mem_append_left _ he)

theorem headHash_of_verified {log : List Dict} {last : Dict}
    (hverify : verifyFrom py sha256 genesis (log.map .obj) = .ok true)
    (hlast : log.getLast? = some last) :
    Dict.get? last "event_hash" = some (.str (headHash py sha256 genesis log)) := by
  obtain ⟨front, rfl⟩ := getLast?_eq_some_iff.1 hlast
  rw [headHash_append_singleton]
  exact ((verifyFrom_append_singleton_iff genesis front last).1 hverify).2.2

/-- Two verified logs with the same last hash hold the same events, provided the digest
tells their bodies apart and none of them has the digest that stands for no event. -/
theorem verified_logs_agree (py : Interpreter) (sha256 : ByteArray → ByteArray)
    (log log' : List Dict) (hread : ∀ event ∈ log ++ log', (Json.obj event).Readable py)
    (hinj : ∀ event ∈ log, ∀ event' ∈ log',
      sha256 (bodyText py event).toByteArray = sha256 (bodyText py event').toByteArray →
        (bodyText py event).toByteArray = (bodyText py event').toByteArray)
    (hgenesis : ∀ event ∈ log ++ log', hexDigest sha256 (bodyText py event) ≠ genesis)
    (hverify : verifyFrom py sha256 genesis (log.map .obj) = .ok true)
    (hverify' : verifyFrom py sha256 genesis (log'.map .obj) = .ok true)
    (last last' : Dict) (hlast : log.getLast? = some last) (hlast' : log'.getLast? = some last')
    (hsame : Dict.get? last "event_hash" = Dict.get? last' "event_hash") :
    log.length = log'.length ∧ List.Forall₂ SameEvent log log' := by
  have hhead : headHash py sha256 genesis log = headHash py sha256 genesis log' := by
    rw [headHash_of_verified hverify hlast, headHash_of_verified hverify' hlast'] at hsame
    simpa using hsame
  have hevents : Forall₂ SameEvent log log' := by
    refine sameEvents_of_headHash_eq ?_ ?_ ?_ ?_ ?_ hverify hverify' hhead
    · exact fun e he => hread e (mem_append_left _ he)
    · exact fun e he => hread e (mem_append_right _ he)
    · intro e he e' he' hhash
      exact String.toByteArray_inj.1 (hinj e he e' he' (hexBytes_injective hhash))
    · exact fun e he => hgenesis e (mem_append_left _ he)
    · exact fun e he => hgenesis e (mem_append_right _ he)
  exact ⟨hevents.length_eq, hevents⟩

/-- A hash that is injective and misses the digest of no event. -/
def taggedHash (b : ByteArray) : ByteArray := ⟨(7 :: b.data.toList).toArray⟩

theorem taggedHash_injective : Function.Injective taggedHash := by
  intro a b h
  have hlist : 7 :: a.data.toList = 7 :: b.data.toList := toArray_inj (ByteArray.mk.inj h)
  exact ByteArray.ext (Array.toList_inj.1 (cons.inj hlist).2)

theorem hexDigest_taggedHash_ne (text : String) : hexDigest taggedHash text ≠ genesis := by
  intro h
  have hmem : '7' ∈ (hexDigest taggedHash text).toList := by
    rw [hexDigest, hexBytes, String.toList_ofList]
    exact mem_flatMap.2 ⟨7, mem_cons_self, by decide⟩
  rw [h, toList_genesis] at hmem
  exact absurd (eq_of_mem_replicate hmem) (by decide)

/-- The body of an event, with its members in two orders. -/
def sessionBody (eventType previous : String) : Bool → Dict
  | false => [("event_type", .str eventType), ("previous_hash", .str previous)]
  | true => [("previous_hash", .str previous), ("event_type", .str eventType)]

def sessionLog (swapped : Bool) : List Dict :=
  [withHash .ascii taggedHash (sessionBody "login" genesis swapped),
    withHash .ascii taggedHash (sessionBody "logout"
      (bodyHash .ascii taggedHash (sessionBody "login" genesis false)) swapped)]

theorem verified_logs_agree_login :
    List.Forall₂ SameEvent (sessionLog false) (sessionLog true) := by
  have hread (eventType previous : String) (b : Bool) :
      (obj (sessionBody eventType previous b)).Readable .ascii := by
    cases b <;> exact .obj (by simp [sessionBody]) (by simp [sessionBody, Readable.str])
  have hhash (eventType previous : String) (b : Bool) :
      bodyHash .ascii taggedHash (sessionBody eventType previous b) =
        bodyHash .ascii taggedHash (sessionBody eventType previous false) := by
    have hsorted : (obj (sessionBody eventType previous b)).sorted =
        (obj (sessionBody eventType previous false)).sorted := by
      cases b with
      | false => rfl
      | true =>
        have hkeys : sortKeys (sessionBody eventType previous true) =
            sortKeys (sessionBody eventType previous false) :=
          sortKeys_eq_of_perm (by simp [sessionBody]) (.swap _ _ _)
        rw [sorted_obj_eq, sorted_obj_eq, sortedDict, hkeys, sortedDict]
    rw [bodyHash, bodyHash, ← (hread _ _ b).dumps_sorted, hsorted, (hread _ _ false).dumps_sorted]
  have hverify (b : Bool) :
      verifyFrom .ascii taggedHash genesis ((sessionLog b).map .obj) = .ok true := by
    rw [sessionLog, map_cons, map_singleton, verifyFrom_cons_iff, verifyFrom_cons_iff]
    refine ⟨?_, ⟨?_, ?_⟩, rfl⟩
    · cases b <;> exact ⟨rfl, rfl⟩
    · have hpop : pop (withHash .ascii taggedHash (sessionBody "login" genesis b)) "event_hash" =
          sessionBody "login" genesis b := by cases b <;> rfl
      rw [hpop, hhash]
      cases b <;> rfl
    · cases b <;> rfl
  refine (verified_logs_agree .ascii taggedHash (sessionLog false) (sessionLog true) ?_
    (fun _ _ _ _ h => taggedHash_injective h) (fun _ _ => hexDigest_taggedHash_ne _)
    (hverify false) (hverify true) _ _ rfl rfl ?_).2
  · simp [sessionLog, withHash_readable, hread]
  · exact congrArg (fun s => some (str s)) (hhash _ _ true).symm

end OmniDoer.Audit
