import OmniDoer.Verification.Heartbeat.Calls

/-! # Heartbeats of several threads

Any number of threads of any number of processes run heartbeats, configure them and use the
queues and the chats, one operation at a time. When no configuration is saved between the
load and the save of a run, and no queue changes between a run's look at it and its pick,
the settings of the last configuration stay in the file, and a task that must not interrupt
goes into the chat only after the chat was found idle. -/

namespace OmniDoer.Heartbeat

open Py Effects Tables StateIo Chat List Option

variable {ι π σ : Type}

abbrev HeartbeatPool (ι π σ : Type) := Pool ι (World π σ × ℕ) (Op π σ) Ans Error HeartbeatAnswer

abbrev Entry (ι π σ : Type) := ι × (o : Op π σ) × Ans o

abbrev loadEntry (i : ι) (path : String) (text : Option σ) : Entry ι π σ :=
  (i, ⟨.inl (.load path), text⟩)

abbrev writeEntry (i : ι) (path : String) (text : σ) : Entry ι π σ :=
  (i, ⟨.inl (.write path text), ()⟩)

/-- Every thread makes one call. -/
def startPool (platform : Platform) (files : Files σ) (process : ι → π) (calls : ι → HeartbeatCall)
    (w : World π σ) : HeartbeatPool ι π σ where
  state := (w, 0)
  threads i := (calls i).prog platform files (process i)
  log := []

def HeartbeatCall.isConfigure : HeartbeatCall → Bool
  | .configure _ => true
  | _ => false

def HeartbeatCall.isRun : HeartbeatCall → Bool
  | .runOnce _ => true
  | _ => false

section Logs

variable (files : Files σ) (calls : ι → HeartbeatCall)

/-- The settings that a configuring call saves. -/
def configuration : Entry ι π σ → Option Settings
  | (j, ⟨.inl (.write path text), _⟩) =>
    if path = files.state.path ∧ (calls j).isConfigure = true then
      (files.state.decode text).toOption.map HeartbeatState.settings
    else none
  | _ => none

def lastConfigured (log : List (Entry ι π σ)) : Option Settings :=
  (log.filterMap (configuration files calls)).getLast?

variable [DecidableEq ι]

/-- What thread `i` found when it loaded a file. -/
def foundBy (i : ι) (path : String) (e : Entry ι π σ) : Option (Option σ) :=
  if e.1 = i then loadOf path e.2 else none

/-- Whether a configuration was saved after thread `i` had loaded the state. -/
def overtaken (i : ι) : List (Entry ι π σ) → Bool
  | [] => false
  | e :: rest =>
    if (foundBy i files.state.path e).isSome then
      rest.any fun e => (configuration files calls e).isSome
    else overtaken i rest

/-- A run that is about to save has not been overtaken by a configuration, and one that is
not forced and is about to load a queue finds what it found before. -/
def Undisturbed (pool : HeartbeatPool ι π σ) (i : ι) : Prop :=
  match pool.threads i with
  | .op (.inl (.write path _)) _ =>
    path = files.state.path → (calls i).isRun = true → overtaken files calls i pool.log = false
  | .op (.inl (.load path)) _ =>
    calls i = .runOnce false → (∃ queue, path = (files.tasks queue).path) →
      ∀ text ∈ pool.log.filterMap (foundBy i path), pool.state.1.files path = text
  | _ => True

variable {files calls}

variable (log : List (Entry ι π σ))

theorem overtaken_snoc (i : ι) (e : Entry ι π σ) :
    overtaken files calls i (log ++ [e]) = (overtaken files calls i log ||
      ((log.findSome? (foundBy i files.state.path)).isSome &&
        (configuration files calls e).isSome)) := by
  induction log with
  | nil => simp [overtaken]
  | cons d log ih =>
    rw [cons_append, overtaken, overtaken, findSome?_cons]
    cases hfound : foundBy i files.state.path d with
    | none => simpa using ih
    | some text => simp

omit [DecidableEq ι] in
theorem lastConfigured_snoc (e : Entry ι π σ) :
    lastConfigured files calls (log ++ [e]) =
      (configuration files calls e).or (lastConfigured files calls log) := by
  rw [lastConfigured, filterMap_append]
  cases h : configuration files calls e with
  | none => simp [h, lastConfigured]
  | some s => simp [h]

theorem foundBy_write (i j : ι) (path path' : String) (text : σ) :
    foundBy j path (writeEntry i path' text : Entry ι π σ) = none :=
  ite_self _

theorem firstLoad_memory (platform : Platform) (call : HeartbeatCall) (i : ι) (path : String) :
    firstLoad path (Pool.memory (keeping platform files call).next i [] log) =
      log.findSome? (foundBy i path) := by
  induction log using reverseRecOn with
  | nil => rfl
  | append_singleton log entry ih =>
    obtain ⟨j, o, x⟩ := entry
    by_cases hj : j = i
    · subst hj
      rw [Pool.memory_append_self]
      change firstLoad path (_ ++ [⟨o, x⟩]) = _
      rw [firstLoad_snoc, ih]
      simp [foundBy]
    · rw [Pool.memory_append_other _ hj, ih]
      simp [foundBy, hj]

end Logs

section Settings

variable [DecidableEq ι] [DecidableEq π] (platform : Platform) (files : Files σ)
  (calls : ι → HeartbeatCall)

/-- The file holds the settings of the last configuration, and so does what a thread that is
not overtaken has found in it. -/
structure Settled (pool : HeartbeatPool ι π σ) : Prop where
  file : ∀ s, lastConfigured files calls pool.log = some s → s.Proper ∧
    ∃ state, pool.state.1.files files.state.path = some (files.state.encode state) ∧
      state.settings = s
  synced : ∀ i, overtaken files calls i pool.log = false →
    ∀ text, pool.log.findSome? (foundBy i files.state.path) = some text →
    ∀ s, lastConfigured files calls pool.log = some s → loadedSettings platform files text = .ok s

variable {platform files calls} {pool pool' : HeartbeatPool ι π σ} {i : ι}

variable (h : Settled platform files calls pool)

include h in
omit [DecidableEq π] in
theorem Settled.unconfigured {e : Entry ι π σ}
    (hlog : pool'.log = pool.log ++ [e]) (hconfiguration : configuration files calls e = none)
    (hfile : ∀ s, lastConfigured files calls pool.log = some s → ∃ state,
      pool'.state.1.files files.state.path = some (files.state.encode state) ∧ state.settings = s)
    (hload : ∀ j text, foundBy j files.state.path e = some text →
      ∀ s, lastConfigured files calls pool.log = some s →
        loadedSettings platform files text = .ok s) :
    Settled platform files calls pool' := by
  have hlast : lastConfigured files calls pool'.log = lastConfigured files calls pool.log := by
    rw [hlog, lastConfigured_snoc, hconfiguration, none_or]
  constructor
  · intro s hs
    rw [hlast] at hs
    exact ⟨(h.file s hs).1, hfile s hs⟩
  · intro j hj text htext s hs
    rw [hlast] at hs
    simp [hlog, overtaken_snoc, hconfiguration] at hj
    rw [hlog, findSome?_append, findSome?_singleton, or_eq_some_iff] at htext
    rcases htext with hbefore | ⟨-, hnow⟩
    · exact h.synced j hj text hbefore s hs
    · exact hload j text hnow s hs

include h in
omit [DecidableEq π] in
theorem Settled.quiet {e : Entry ι π σ}
    (hlog : pool'.log = pool.log ++ [e]) (hconfiguration : configuration files calls e = none)
    (hload : loadOf files.state.path e.2 = none)
    (hfile : pool'.state.1.files files.state.path = pool.state.1.files files.state.path) :
    Settled platform files calls pool' := by
  refine h.unconfigured hlog hconfiguration
    (fun s hs => hfile ▸ (h.file s hs).2) fun j text hfound => ?_
  rw [foundBy, hload, ite_self] at hfound
  cases hfound

include h in
omit [DecidableEq π] in
theorem Settled.load (hlog : pool'.log = pool.log ++
      [loadEntry i files.state.path (pool.state.1.files files.state.path)])
    (hfile : pool'.state.1.files files.state.path = pool.state.1.files files.state.path) :
    Settled platform files calls pool' := by
  refine h.unconfigured hlog rfl (fun s hs => hfile ▸ (h.file s hs).2) fun j text hfound s hs => ?_
  rw [foundBy] at hfound
  split at hfound
  · have hnow : pool.state.1.files files.state.path = text := by
      simpa [loadOf] using hfound
    obtain ⟨hproper, state, hstate, rfl⟩ := h.file s hs
    rw [← hnow, hstate]
    exact loadedSettings_encode hproper
  · cases hfound

omit [DecidableEq π] in
theorem settled_configure {state : HeartbeatState}
    (hproper : state.settings.Proper) (hcall : (calls i).isConfigure = true)
    (hlog : pool'.log = pool.log ++ [writeEntry i files.state.path (files.state.encode state)])
    (hfile : pool'.state.1.files files.state.path = some (files.state.encode state)) :
    Settled platform files calls pool' := by
  have hconfiguration : configuration files calls (writeEntry i files.state.path
      (files.state.encode state) : Entry ι π σ) = some state.settings := by
    simp [configuration, hcall, files.state.decode_encode, Except.toOption]
  have hlast : lastConfigured files calls pool'.log = some state.settings := by
    rw [hlog, lastConfigured_snoc, hconfiguration, some_or]
  constructor
  · intro s hs
    rw [hlast] at hs
    cases hs
    exact ⟨hproper, state, hfile, rfl⟩
  · intro j hj text htext s hs
    -- the thread had loaded the state, so it is overtaken now
    rw [hlog, findSome?_append, findSome?_singleton] at htext
    rw [foundBy_write, or_none] at htext
    rw [hlog, overtaken_snoc, htext, hconfiguration] at hj
    simp at hj

include h in
omit [DecidableEq π] in
theorem Settled.save {state : HeartbeatState} (hcall : (calls i).isConfigure = false)
    (hsynced : ∀ s, lastConfigured files calls pool.log = some s → state.settings = s)
    (hlog : pool'.log = pool.log ++ [writeEntry i files.state.path (files.state.encode state)])
    (hfile : pool'.state.1.files files.state.path = some (files.state.encode state)) :
    Settled platform files calls pool' := by
  have hconfiguration : configuration files calls (writeEntry i files.state.path
      (files.state.encode state) : Entry ι π σ) = none := by
    simp [configuration, hcall]
  refine h.unconfigured hlog hconfiguration
    (fun s hs => ⟨state, hfile, hsynced s hs⟩) fun j text hfound => ?_
  rw [foundBy_write] at hfound
  cases hfound

variable (env : Env) (random : ℕ → ℕ)

section

variable {o : Op π σ} {k : Ans o → HeartbeatProg π σ HeartbeatAnswer}
  (ht : pool.threads i = .op o k)
include ht

theorem step_log :
    (pool.step (exec env random) i).log =
      pool.log ++ [(i, ⟨o, (exec env random o pool.state).1⟩)] := by
  rw [Pool.step_of_op (exec env random) ht]

theorem step_state : (pool.step (exec env random) i).state = (exec env random o pool.state).2 := by
  rw [Pool.step_of_op (exec env random) ht]

end

include h in
omit [DecidableEq π] in
theorem Settled.write {text : σ} (hguar : (keeping platform files (calls i)).guar
      (Pool.memory (keeping platform files (calls i)).next i [] pool.log)
      (.inl (.write files.state.path text)))
    (hun : (calls i).isRun = true → overtaken files calls i pool.log = false)
    (hlog : pool'.log = pool.log ++ [writeEntry i files.state.path text])
    (hfile : pool'.state.1.files files.state.path = some text) :
    Settled platform files calls pool' := by
  obtain ⟨state, rfl, hproper, hmay⟩ := hguar rfl
  cases hcall : calls i with
  | configure args => exact settled_configure hproper (by rw [hcall]; rfl) hlog hfile
  | runOnce force =>
    rw [hcall] at hmay
    obtain ⟨text, hfound, hloaded⟩ := hmay
    rw [firstLoad_memory] at hfound
    refine h.save (by rw [hcall]; rfl) (fun s hs => ?_) hlog hfile
    have hsynced := h.synced i (hun (by rw [hcall]; rfl)) text hfound s hs
    rw [hloaded] at hsynced
    exact Except.ok.inj hsynced
  | create | setEnabled | remove | chat =>
    rw [hcall] at hmay
    exact hmay.elim

include h in
theorem Settled.step {o : Op π σ}
    {k : Ans o → HeartbeatProg π σ HeartbeatAnswer} (ht : pool.threads i = .op o k)
    (hguar : (keeping platform files (calls i)).guar
      (Pool.memory (keeping platform files (calls i)).next i [] pool.log) o)
    (hun : Undisturbed files calls pool i) :
    Settled platform files calls (pool.step (exec env random) i) := by
  have hlog := step_log env random ht
  have hstate := step_state env random ht
  cases o with
  | inr o => exact h.quiet hlog rfl rfl (by rw [hstate]; rfl)
  | inl o =>
    cases o with
    | load path =>
      by_cases hpath : path = files.state.path
      · subst hpath
        exact h.load hlog (by rw [hstate]; rfl)
      · exact h.quiet hlog rfl (if_neg hpath) (by rw [hstate]; rfl)
    | write path text =>
      by_cases hpath : path = files.state.path
      · subst hpath
        rw [Undisturbed, ht] at hun
        refine h.write hguar (hun rfl) hlog ?_
        rw [hstate]
        exact Function.update_self _ _ _
      · refine h.quiet hlog (if_neg fun hconfigured => hpath hconfigured.1) rfl ?_
        rw [hstate]
        exact Function.update_of_ne (Ne.symm hpath) _ _
    | acquire | release | time | uuid => exact h.quiet hlog rfl rfl (by rw [hstate]; rfl)

end Settings

section Idle

variable [DecidableEq ι] [DecidableEq π] (files : Files σ) (calls : ι → HeartbeatCall)

abbrev noteEntry (i : ι) (what : Note) : Entry ι π σ := (i, ⟨.inr (.note what), ()⟩)

/-- A run that is not forced finds the same whenever it loads a queue. -/
def Steady (log : List (Entry ι π σ)) : Prop :=
  ∀ i, calls i = .runOnce false → ∀ queue text text',
    loadEntry i (files.tasks queue).path text ∈ log →
    loadEntry i (files.tasks queue).path text' ∈ log → text = text'

/-- Before a run that is not forced puts a task that must not interrupt into the chat, it has
found the chat idle. -/
def QueuedIdle (log : List (Entry ι π σ)) : Prop :=
  ∀ i, calls i = .runOnce false → ∀ before task, (∀ t ∈ task, t.interruptActive = false) →
    before ++ [noteEntry i (.queue task)] <+: log → noteEntry i (.idle true) ∈ before

variable {files calls} {pool : HeartbeatPool ι π σ} {i : ι}

variable (env : Env) (random : ℕ → ℕ)

theorem Steady.step (h : Steady files calls pool.log) {o : Op π σ}
    {k : Ans o → HeartbeatProg π σ HeartbeatAnswer} (ht : pool.threads i = .op o k)
    (hun : Undisturbed files calls pool i) :
    Steady files calls (pool.step (exec env random) i).log := by
  rw [step_log env random ht]
  have hnew (j : ι) (hcall : calls j = .runOnce false) (queue : String) (text found : Option σ)
      (htext : loadEntry j (files.tasks queue).path text ∈ pool.log)
      (hfound : (i, ⟨o, (exec env random o pool.state).1⟩) =
        loadEntry j (files.tasks queue).path found) :
      text = found := by
    obtain ⟨rfl, hop⟩ := Prod.mk.inj hfound
    obtain ⟨rfl, hans⟩ := Sigma.mk.inj hop
    rw [Undisturbed, ht] at hun
    have hearlier : text ∈ pool.log.filterMap (foundBy i (files.tasks queue).path) :=
      mem_filterMap.2 ⟨_, htext, by simp [foundBy, loadOf]⟩
    exact (hun hcall ⟨queue, rfl⟩ text hearlier).symm.trans (eq_of_heq hans)
  intro j hcall queue text text' htext htext'
  rcases mem_append.1 htext with htext | htext <;>
    rcases mem_append.1 htext' with htext' | htext'
  · exact h j hcall queue text text' htext htext'
  · exact hnew j hcall queue text text' htext (mem_singleton.1 htext').symm
  · exact (hnew j hcall queue text' text htext' (mem_singleton.1 htext).symm).symm
  · have hsame := (mem_singleton.1 htext).trans (mem_singleton.1 htext').symm
    exact eq_of_heq (Sigma.mk.inj (Prod.mk.inj hsame).2).2

omit [DecidableEq π] in
theorem mem_memory_iff (platform : Platform) (log : List (Entry ι π σ)) (e : (o : Op π σ) × Ans o) :
    e ∈ Pool.memory (keeping platform files (calls i)).next i [] log ↔ (i, e) ∈ log :=
  Pool.mem_recorded_iff i log e

theorem QueuedIdle.step (h : QueuedIdle calls pool.log) (hsteady : Steady files calls pool.log)
    {o : Op π σ} {k : Ans o → HeartbeatProg π σ HeartbeatAnswer} (ht : pool.threads i = .op o k)
    (platform : Platform) (hguar : (keeping platform files (calls i)).guar
      (Pool.memory (keeping platform files (calls i)).next i [] pool.log) o) :
    QueuedIdle calls (pool.step (exec env random) i).log := by
  rw [step_log env random ht]
  intro j hcall before task htask hprefix
  rcases prefix_concat_iff.1 hprefix with hsame | hbefore
  swap
  · exact h j hcall before task htask hbefore
  obtain ⟨rfl, hlast⟩ := append_inj' hsame rfl
  obtain ⟨rfl, hop⟩ := Prod.mk.inj (singleton_inj.1 hlast).symm
  obtain ⟨rfl, -⟩ := Sigma.mk.inj hop
  rcases hguar hcall htask with hidle | ⟨queue, text, text', htext, htext', hne⟩
  · exact (mem_memory_iff platform _ _).1 hidle
  · rw [mem_memory_iff] at htext htext'
    exact absurd (hsteady i hcall queue text text' htext htext') hne

end Idle

section Threads

variable [DecidableEq ι] [DecidableEq π] (platform : Platform) (files : Files σ)
  (calls : ι → HeartbeatCall)

/-- What holds in every state of an undisturbed run. -/
structure Kept (pool : HeartbeatPool ι π σ) : Prop where
  honest : pool.Honest (fun i => keeping platform files (calls i))
    (fun _ done r => ∀ answer, r = .ok answer → Saved files done answer) []
  settled : Settled platform files calls pool
  steady : Steady files calls pool.log
  idle : QueuedIdle calls pool.log

variable {platform files calls} {pool : HeartbeatPool ι π σ} {env : Env} {random : ℕ → ℕ}

theorem Kept.step (hclock : ∀ n, env.clock n ≠ 0) (h : Kept platform files calls pool) (i : ι)
    (hun : Undisturbed files calls pool i) :
    Kept platform files calls (pool.step (exec env random) i) := by
  rcases pool.step_cases (exec env random) i with hsame | ⟨o, k, ht, -⟩
  · rwa [hsame]
  · have hguar := h.honest i
    rw [ht] at hguar
    refine ⟨h.honest.step_of_op _ ht ?_, h.settled.step env random ht hguar.1 hun,
      h.steady.step env random ht hun, h.idle.step env random h.steady ht platform hguar.1⟩
    match o with
    | .inl .time => exact hclock _
    | .inl (.acquire ..) | .inl (.release ..) | .inl (.load _) | .inl (.write ..) | .inl .uuid
    | .inr _ => trivial

omit [DecidableEq π] in
theorem kept_start (hdefault : platform.defaultHeartbeatFile ≠ "")
    (hresolve : ∀ path, platform.resolve path ≠ "")
    (htasks : ∀ queue, (files.tasks queue).path ≠ files.state.path)
    (hchat : ∀ session, (files.chat session).path ≠ files.state.path) (process : ι → π)
    (w : World π σ) : Kept platform files calls (startPool platform files process calls w) where
  honest i := (calls i).returns hdefault htasks hchat hresolve
  settled := ⟨(fun _ h => nomatch h), (fun _ _ _ h => nomatch h)⟩
  steady _ _ _ _ _ h := nomatch h
  idle _ _ before task _ h := absurd h (by simp [startPool])

variable (platform files calls env random) in
/-- When no run is disturbed: a configuration that has returned is saved; the file holds the
settings of the last one that was saved; and a run that is not forced has found the chat
idle before it puts a task that must not interrupt into it. -/
theorem heartbeat_keeps_settings (hdefault : platform.defaultHeartbeatFile ≠ "")
    (hresolve : ∀ path, platform.resolve path ≠ "")
    (htasks : ∀ queue, (files.tasks queue).path ≠ files.state.path)
    (hchat : ∀ session, (files.chat session).path ≠ files.state.path)
    (hclock : ∀ n, env.clock n ≠ 0) (process : ι → π) (w : World π σ) (schedule : List ι)
    (hun : Pool.Throughout (exec env random) (Undisturbed files calls)
      (startPool platform files process calls w) schedule) :
    let pool := (startPool platform files process calls w).run (exec env random) schedule
    (∀ i state, (pool.threads i).returned = some (.configured state) →
      writeEntry i files.state.path (files.state.encode state) ∈ pool.log) ∧
      (∀ s, lastConfigured files calls pool.log = some s →
        ∃ state, pool.state.1.files files.state.path = some (files.state.encode state) ∧
          state.settings = s) ∧
      QueuedIdle calls pool.log := by
  intro pool
  have hkept : Kept platform files calls pool :=
    Along.invariant (Kept platform files calls) (fun _ i h hun => h.step hclock i hun)
      (kept_start hdefault hresolve htasks hchat process w) hun
  refine ⟨fun i state hreturned => ?_, fun s hs => (hkept.settled.file s hs).2, hkept.idle⟩
  have hsaved : Saved files _ _ := Prog.Returns.post_of_returned (hkept.honest i) hreturned
  exact (mem_memory_iff platform _ _).1 (hsaved state rfl)

end Threads

/-- The files, each with its content as it is. -/
inductive Content where
  | state (state : HeartbeatState)
  | tasks (tasks : TaskFile)
  | chat (chat : ChatFile)
  | text (text : String)

def plainFiles : Files Content where
  state := ⟨"heartbeat.json", .state, fun | .state s => .ok s | _ => .error ⟨.valueError, ""⟩,
    fun _ => rfl⟩
  tasks _ := ⟨"tasks.json", .tasks, fun | .tasks s => .ok s | _ => .error ⟨.valueError, ""⟩,
    fun _ => rfl⟩
  chat _ := ⟨"chat.json", .chat, fun | .chat s => .ok s | _ => .error ⟨.valueError, ""⟩,
    fun _ => rfl⟩
  readText := fun | .text s => .ok s | _ => .error ⟨.valueError, ""⟩

def plainPlatform : Platform where
  py := .ascii
  floatText _ := ""
  fromIsoFormat _ := none
  localStamp _ := ""
  intOf _ := none
  resolve path := "/" ++ path
  defaultHeartbeatFile := "HEARTBEAT.md"
  heartbeatTasksPath := "tasks.json"

def plainEnv : Env where
  clock n := n + 1
  ids n := String.ofList (List.replicate n '0')

/-- There is a heartbeat file, and what else is given. -/
def initialFiles (state : Option HeartbeatState) (tasks : Option TaskFile) :
    World Unit Content where
  files path :=
    if path = "heartbeat.json" then state.map .state
    else if path = "tasks.json" then tasks.map .tasks
    else if path = "HEARTBEAT.md" then some (.text "Look for news.")
    else none
  locked _ := false
  tick := 0
  issued := 0

/-- One thread runs a heartbeat, the other makes the call. -/
def runBeside (call : HeartbeatCall) : Bool → HeartbeatCall
  | false => .runOnce false
  | true => call

@[irreducible] def besideRun (call : HeartbeatCall) (w : World Unit Content)
    (schedule : List Bool) : HeartbeatPool Bool Unit Content :=
  (startPool plainPlatform plainFiles (fun _ => ()) (runBeside call) w).run
    (exec plainEnv fun _ => 0) schedule

def enableHeartbeat : HeartbeatCall := .configure { enabled := some true }

/-- A check of `Undisturbed` for runs without a queue. -/
def undisturbed (call : HeartbeatCall) (pool : HeartbeatPool Bool Unit Content) (i : Bool) : Bool :=
  match pool.threads i with
  | .op (.inl (.write _ _)) _ => !overtaken plainFiles (runBeside call) i pool.log
  | .op (.inl (.load path)) _ => path != "tasks.json" ||
      (pool.log.filterMap (foundBy i path)).all fun text =>
        text.isNone && (pool.state.1.files path).isNone
  | _ => true

theorem undisturbed_sound (call : HeartbeatCall) (pool : HeartbeatPool Bool Unit Content) (i : Bool)
    (h : undisturbed call pool i = true) : Undisturbed plainFiles (runBeside call) pool i := by
  unfold undisturbed at h
  unfold Undisturbed
  split
  · rename_i path text k ht
    rw [ht] at h
    exact fun _ _ => by simpa using h
  · rename_i path k ht
    rw [ht] at h
    rintro - ⟨queue, rfl⟩ text htext
    have hall : (pool.log.filterMap (foundBy i "tasks.json")).all
        (fun text => text.isNone && (pool.state.1.files "tasks.json").isNone) = true := h
    have hnone := all_eq_true.1 hall text htext
    rw [Bool.and_eq_true, isNone_iff_eq_none, isNone_iff_eq_none] at hnone
    exact hnone.2.trans hnone.1.symm
  · trivial

def queuedTask : Op Unit Content → Option (Option HeartbeatTask)
  | .inr (.note (.queue task)) => some task
  | _ => none

theorem queuedTask_eq_some {o : Op Unit Content} {task : Option HeartbeatTask}
    (h : queuedTask o = some task) : o = .inr (.note (.queue task)) := by
  unfold queuedTask at h
  split at h
  · rw [some.inj h]
  · cases h

theorem exists_queued {p : Option HeartbeatTask → Bool} {log : List (Entry Bool Unit Content)}
    (h : log.any (fun e => !e.1 && (queuedTask e.2.1).any p) = true) :
    ∃ before task, p task = true ∧ before ++ [noteEntry false (.queue task)] <+: log := by
  obtain ⟨⟨i, o, x⟩, he, hqueues⟩ := any_eq_true.1 h
  obtain ⟨before, after, rfl⟩ := append_of_mem he
  rw [Bool.and_eq_true, Option.any_eq_true] at hqueues
  obtain ⟨hi, task, htask, hp⟩ := hqueues
  have ho := queuedTask_eq_some htask
  subst ho
  have hi' : i = false := by simpa using hi
  subst hi'
  exact ⟨before, task, hp, after, append_assoc _ _ _⟩

def enabledFirst : List Bool := List.replicate 6 true ++ List.replicate 19 false

/-- The heartbeat is enabled, and then a run puts the heartbeat file into the chat. -/
theorem heartbeat_keeps_settings_enabled :
    let pool := besideRun enableHeartbeat (initialFiles none none) enabledFirst
    (lastConfigured plainFiles
      (runBeside enableHeartbeat) pool.log).map Settings.enabled = some true ∧
      (∀ s, lastConfigured plainFiles (runBeside enableHeartbeat) pool.log = some s →
        ∃ state, pool.state.1.files "heartbeat.json" = some (.state state) ∧ state.settings = s) ∧
      ∃ before, before ++ [noteEntry false (.queue none)] <+: pool.log ∧
        noteEntry false (.idle true) ∈ before := by
  intro pool
  have hkept :=
    heartbeat_keeps_settings plainPlatform plainFiles (runBeside enableHeartbeat) plainEnv
    (fun _ => 0) (by decide) (fun path => by simp [plainPlatform])
    (fun _ => by simp [plainFiles]) (fun _ => by simp [plainFiles])
    (fun n => Nat.cast_add_one_ne_zero n) (fun _ => ()) (initialFiles none none) enabledFirst
    (Along.mono (undisturbed_sound enableHeartbeat) (by decide +kernel))
  have hpool : pool = (startPool plainPlatform plainFiles (fun _ => ()) (runBeside enableHeartbeat)
      (initialFiles none none)).run (exec plainEnv fun _ => 0) enabledFirst := by
    rw [← besideRun]
  rw [← hpool] at hkept
  refine ⟨by decide +kernel, hkept.2.1, ?_⟩
  have hqueues : pool.log.any (fun e => !e.1 && (queuedTask e.2.1).any isNone) = true := by
    decide +kernel
  obtain ⟨before, task, hnone, hprefix⟩ := exists_queued hqueues
  rw [isNone_iff_eq_none] at hnone
  subst hnone
  exact ⟨before, hprefix, hkept.2.2 false rfl before none (fun _ h => nomatch h) hprefix⟩

def isIdleNote : Op Unit Content → Bool
  | .inr (.note (.idle _)) => true
  | _ => false

def twoTasks : TaskFile :=
  .payload ["a", "b"]
    ⟨[{ taskId := "a", text := "A" }, { taskId := "b", text := "B", interruptActive := false }],
    by decide⟩ 0 0 0

def saysEnabled : Content → Bool
  | .state state => state.enabled
  | _ => false

/-- The run has loaded the state when the heartbeat is enabled. -/
def enabledBetween : HeartbeatPool Bool Unit Content :=
  besideRun enableHeartbeat (initialFiles none none)
    (List.replicate 5 false ++ List.replicate 6 true ++ List.replicate 4 false)

/-- The run has looked at the urgent task when the task is disabled. -/
def disabledBetween : HeartbeatPool Bool Unit Content :=
  besideRun (.setEnabled "tasks.json" "a" false)
    (initialFiles (some { enabled := true }) (some twoTasks))
    (List.replicate 8 false ++ List.replicate 6 true ++ List.replicate 6 false)

/-- A run loads the state, the heartbeat is enabled, and the run saves what it has loaded. And
a run looks at the urgent task, the task is disabled, and the run takes the other one
without an idle check. -/
theorem configuration_undone :
    ((lastConfigured plainFiles
      (runBeside enableHeartbeat) enabledBetween.log).map Settings.enabled =
        some true ∧
      (enabledBetween.state.1.files "heartbeat.json").map saysEnabled = some false) ∧
    disabledBetween.log.any (fun e => !e.1 && (queuedTask e.2.1).any fun task =>
        task.any fun t => !t.interruptActive) = true ∧
      disabledBetween.log.any (fun e => !e.1 && isIdleNote e.2.1) = false := by
  refine ⟨⟨?_, ?_⟩, ?_, ?_⟩
  · decide +kernel
  · decide +kernel
  · decide +kernel
  · decide +kernel

end OmniDoer.Heartbeat
