import OmniDoer.Model.Heartbeat
import OmniDoer.Verification.Chat.Calls

/-! # The calls of the heartbeat

What a thread writes to the state file, and what it has noted before it puts a task into the
chat. A run writes back the settings that it loaded. It puts a task that must not interrupt
into the chat only after the chat was found idle, unless the queue has changed since it
looked at it. -/

namespace OmniDoer.Heartbeat

open Py Effects Tables StateIo Chat List

variable {π σ : Type}

/-- What `configure_heartbeat` decides. -/
structure Settings where
  enabled : Bool
  intervalSeconds : ℚ
  minIdleSeconds : ℚ
  heartbeatFile : String
  sessionId : String
  deriving DecidableEq, Repr

def HeartbeatState.settings (state : HeartbeatState) : Settings :=
  ⟨state.enabled, state.intervalSeconds, state.minIdleSeconds, state.heartbeatFile, state.sessionId⟩

def Settings.Proper (s : Settings) : Prop :=
  s.heartbeatFile ≠ "" ∧ validateChatSessionId s.sessionId = .ok s.sessionId

theorem dropWhile_isSpace_eq_self {cs : List Char} (h : ∀ c ∈ cs, isSpace c = false) :
    cs.dropWhile isSpace = cs := by
  cases cs with
  | nil => rfl
  | cons c cs => exact dropWhile_cons_of_neg (by simp [h c mem_cons_self])

theorem strip_eq_self {s : String} (h : ∀ c ∈ s.toList, isSpace c = false) : strip s = s := by
  have hreverse : ∀ c ∈ s.toList.reverse, isSpace c = false := fun c hc => h c (mem_reverse.1 hc)
  rw [strip, stripChars, lstripWhile, rstripWhile, dropWhile_isSpace_eq_self h,
    dropWhile_isSpace_eq_self hreverse, reverse_reverse, String.ofList_toList]

theorem isSpace_of_isSessionIdChar {c : Char} (h : isSessionIdChar c = true) :
    isSpace c = false := by
  have hbetween {lo hi : UInt32} (h : c.val ≥ lo ∧ c.val ≤ hi) (hlo : 45 ≤ lo.toNat)
      (hhi : hi.toNat ≤ 122) : 45 ≤ c.toNat ∧ c.toNat ≤ 122 := ⟨hlo.trans h.1, Nat.le_trans h.2 hhi⟩
  have hrange : 45 ≤ c.toNat ∧ c.toNat ≤ 122 := by
    simp only [isSessionIdChar, Char.isAlphanum, Bool.or_eq_true, beq_iff_eq] at h
    rcases h with ((halpha | hdigit) | rfl) | rfl
    · rcases Bool.or_eq_true_iff.1 halpha with hupper | hlower
      · exact hbetween (of_decide_eq_true hupper) (by decide) (by decide)
      · exact hbetween (by simpa using Bool.and_eq_true_iff.1 hlower) (by decide) (by decide)
    · exact hbetween (by simpa using Bool.and_eq_true_iff.1 hdigit) (by decide) (by decide)
    · decide
    · decide
  simp only [isSpace, Bool.or_eq_false_iff, Bool.and_eq_false_iff, decide_eq_false_iff_not,
    beq_eq_false_iff_ne]
  omega

theorem validateChatSessionId_idem {sessionId value : String}
    (h : validateChatSessionId sessionId = .ok value) :
    validateChatSessionId value = .ok value := by
  simp only [validateChatSessionId] at h
  generalize strip (if sessionId = "" then defaultChatSessionId else sessionId) = stripped at h
  have hne : (if stripped = "" then defaultChatSessionId else stripped) ≠ "" := by
    split
    · decide
    · assumption
  generalize (if stripped = "" then defaultChatSessionId else stripped) = found at h hne
  split at h
  · rename_i hvalid
    have hsame : found = value := Except.ok.inj h
    have hchars : ∀ c ∈ found.toList, isSpace c = false := by
      intro c hc
      rw [Bool.and_eq_true, all_eq_true] at hvalid
      exact isSpace_of_isSessionIdChar (hvalid.1 c hc)
    rw [← hsame]
    simp [validateChatSessionId, if_neg hne, strip_eq_self hchars, hvalid]
  · cases h

/-- The settings that a load of the file gives. They do not depend on the time. -/
def loadedSettings (platform : Platform) (files : Files σ) (text : Option σ) :
    Except Error Settings := do
  let content ← files.state.read text
  return (← HeartbeatState.loaded platform 0 content).settings

theorem loadedSettings_encode {platform : Platform} {files : Files σ} {state : HeartbeatState}
    (h : state.settings.Proper) :
    loadedSettings platform files (some (files.state.encode state)) = .ok state.settings := by
  have hsession : validateChatSessionId state.sessionId = .ok state.sessionId := h.2
  have hfile : ¬ state.heartbeatFile = "" := h.1
  simp [loadedSettings, HeartbeatState.loaded, hsession, hfile, HeartbeatState.settings, bind,
    Except.bind, pure, Except.pure]

abbrev Done (π σ : Type) := List ((o : Op π σ) × Ans o)

def loadOf (path : String) : (o : Op π σ) × Ans o → Option (Option σ)
  | ⟨.inl (.load p), text⟩ => if p = path then some text else none
  | _ => none

def firstLoad (path : String) (done : Done π σ) : Option (Option σ) := done.findSome? (loadOf path)

theorem firstLoad_snoc (path : String) (done : Done π σ) (e : (o : Op π σ) × Ans o) :
    firstLoad path (done ++ [e]) = (firstLoad path done).or (loadOf path e) := by
  rw [firstLoad, findSome?_append, findSome?_singleton]
  rfl

/-- Some load of a task queue has found something else than an earlier one. -/
def QueueChanged (files : Files σ) (done : Done π σ) : Prop :=
  ∃ queue text text', ⟨.inl (.load (files.tasks queue).path), text⟩ ∈ done ∧
    ⟨.inl (.load (files.tasks queue).path), text'⟩ ∈ done ∧ text ≠ text'

/-- What a thread may write to the state file: a configuring call proper settings, and a run
those that it loaded. -/
def MayWrite (platform : Platform) (files : Files σ) (call : HeartbeatCall) (done : Done π σ)
    (settings : Settings) : Prop :=
  settings.Proper ∧
    match call with
    | .configure _ => True
    | .runOnce _ => ∃ text, firstLoad files.state.path done = some text ∧
        loadedSettings platform files text = .ok settings
    | _ => False

/-- What a run that is not forced has seen before it puts a task into the chat: when the task
must not interrupt, the chat was idle or the queue has changed. -/
def MayQueue (files : Files σ) (call : HeartbeatCall) (done : Done π σ)
    (task : Option HeartbeatTask) : Prop :=
  call = .runOnce false → (∀ t ∈ task, t.interruptActive = false) →
    ⟨.inr (.note (.idle true)), ()⟩ ∈ done ∨ QueueChanged files done

/-- The contract of a call. The clock is not at zero. -/
def keeping (platform : Platform) (files : Files σ) (call : HeartbeatCall) :
    Prog.Contract (Op π σ) Ans (Done π σ) where
  guar done o :=
    match o with
    | .inl (.write path text) => path = files.state.path →
        ∃ state, text = files.state.encode state ∧ MayWrite platform files call done state.settings
    | .inr (.note (.queue task)) => MayQueue files call done task
    | _ => True
  rely o x :=
    match o, x with
    | .inl .time, t => t ≠ (0 : ℚ)
    | _, _ => True
  next done o x := done ++ [⟨o, x⟩]

def confined (path : String) : Prog.Contract (FileOp π σ) FileOp.Ans (Done π σ) where
  guar _ o := ∀ p ∈ o.path, p = path
  rely _ _ := True
  next done o x := done ++ [⟨.inl o, x⟩]

section Contracts

variable {platform : Platform} {files : Files σ} {call : HeartbeatCall} {process : π} {α : Type}
  {post : Done π σ → Except Error α → Prop} {done : Done π σ}

theorem keeping_of_confined {path : String} (hpath : path ≠ files.state.path) {p : FileProg π σ α}
    (h : p.Meets (confined path) post done) :
    p.Meets (keeping platform files call).left post done := by
  refine h.transfer Eq ?_ ?_ rfl
  · rintro done _ o rfl hguar
    refine ⟨?_, fun _ _ => ⟨trivial, rfl⟩⟩
    cases o with
    | write p text => exact fun hp => (hpath ((hguar p rfl).symm.trans hp)).elim
    | _ => trivial
  · rintro done _ r rfl hpost
    exact hpost

theorem confined_of_updating {τ : Type} {X : Shared σ τ} {Change : Memory π τ → τ → τ → Prop}
    {after : Memory π τ → Except Error α → Prop} {m : Memory π τ} {p : FileProg π σ α}
    (h : p.Meets (updating X process Change) after m) (done : Done π σ) :
    p.Meets (confined X.path) (fun _ _ => True) done := by
  refine h.transfer (fun _ _ => True) ?_ (fun _ _ _ _ _ => trivial) trivial
  intro m done o _ hguar
  exact ⟨hguar.1, fun _ _ => ⟨trivial, trivial⟩⟩

theorem op_returns {o : FileOp π σ} {post : Done π σ → α → Prop} {k : o.Ans → HeartbeatProg π σ α}
    (hguar : (keeping platform files call).guar done (.inl o))
    (h : ∀ x, (keeping platform files call).rely (.inl o) x →
      (k x).Returns (keeping platform files call) post (done ++ [⟨.inl o, x⟩])) :
    ((Prog.op o .pure).inl >>= k).Returns (keeping platform files call) post done :=
  .op hguar h

theorem part_returns {β : Type} {q : Done π σ → β → Prop} {post : Done π σ → α → Prop}
    {p : HeartbeatProg π σ β} {k : β → HeartbeatProg π σ α}
    (h : p.Returns (keeping platform files call) q done)
    (hk : ∀ done' b, done <+: done' → q done' b →
      (k b).Returns (keeping platform files call) post done') :
    (p >>= k).Returns (keeping platform files call) post done := by
  have hgrows := h.grows prefix_refl (fun _ _ _ => IsPrefix.trans)
    fun done _ _ => prefix_append done _
  exact Prog.Returns.bind (q := fun done' b => done <+: done' ∧ q done' b)
    (hgrows.mono fun done' r hr b hb => ⟨hr.2, hr.1 b hb⟩) fun done' b hb => hk done' b hb.1 hb.2

theorem confined_returns {β : Type} {path : String} (hpath : path ≠ files.state.path)
    {after : Done π σ → Except Error β → Prop} {post : Done π σ → α → Prop} {p : FileProg π σ β}
    {k : β → HeartbeatProg π σ α} (h : p.Meets (confined path) after done)
    (hk : ∀ done' b, done <+: done' → after done' (.ok b) →
      (k b).Returns (keeping platform files call) post done') :
    (p.inl >>= k).Returns (keeping platform files call) post done := by
  have hkept : p.Returns (keeping platform files call).left
      (fun done' b => after done' (.ok b)) done :=
    (keeping_of_confined hpath h).mono (by rintro done' _ hr b rfl; exact hr)
  exact part_returns (Prog.Meets.of_left hkept) hk

/-- The settings of the state are those of the file as the run found it first. -/
structure Ready (platform : Platform) (files : Files σ) (done : Done π σ)
    (settings : Settings) : Prop where
  proper : settings.Proper
  loaded : ∃ text, firstLoad files.state.path done = some text ∧
    loadedSettings platform files text = .ok settings

variable {done' : Done π σ} (hdone : done <+: done')

include hdone in
theorem Ready.mono {settings : Settings} (h : Ready platform files done settings) :
    Ready platform files done' settings := by
  obtain ⟨hproper, text, hload, hsettings⟩ := h
  obtain ⟨more, rfl⟩ := hdone
  refine ⟨hproper, text, ?_, hsettings⟩
  rw [firstLoad, findSome?_append]
  exact Option.or_eq_some_iff.2 (.inl hload)

variable (hdefault : platform.defaultHeartbeatFile ≠ "")
  (htasks : ∀ queue, (files.tasks queue).path ≠ files.state.path)
  (hchat : ∀ session, (files.chat session).path ≠ files.state.path)

include hdefault in
theorem loadState_returns (hfirst : firstLoad files.state.path done = none) :
    (loadState platform files).Returns (keeping platform files call).left
      (fun done' state => Ready platform files done' state.settings) done := by
  refine .op trivial fun t _ => .op trivial fun text _ => ?_
  have hload : firstLoad files.state.path
      (done ++ [⟨.inl .time, t⟩] ++ [⟨.inl (.load files.state.path), text⟩]) = some text := by
    rw [firstLoad_snoc, firstLoad_snoc, hfirst]
    exact if_pos rfl
  refine Prog.Returns.bind (q := fun done' content => done' = _ ∧
    files.state.read text = .ok content)
    (.ofExcept fun content hcontent => ⟨rfl, hcontent⟩) ?_
  rintro _ content ⟨rfl, hread⟩
  refine .ofExcept fun state hstate => ?_
  cases content with
  | none =>
    cases hstate
    refine ⟨⟨hdefault, ?_⟩, text, hload, by rw [loadedSettings, hread]; rfl⟩
    exact show validateChatSessionId defaultChatSessionId =
      .ok defaultChatSessionId by decide +kernel
  | some content =>
    refine ⟨?_, text, hload, ?_⟩
    · obtain ⟨sessionId, hsession, hstate⟩ := Except.bind_eq_ok.1 hstate
      cases hstate
      refine ⟨?_, validateChatSessionId_idem hsession⟩
      split
      · exact hdefault
      · assumption
    · change HeartbeatState.loaded platform 0 (some content) = .ok state at hstate
      rw [loadedSettings, hread]
      change HeartbeatState.settings <$> HeartbeatState.loaded platform 0 (some content) = _
      rw [hstate]
      rfl

theorem locked_returns {post : Done π σ → α → Prop} {path : String} {body : FileProg π σ α}
    (hpost : ∀ done done' a, done <+: done' → post done a → post done' a)
    (hbody : body.Returns (keeping platform files call).left post
      (done ++ [⟨.inl (.acquire process path), ()⟩])) :
    (lockedStateFile process path body).Returns (keeping platform files call).left post done := by
  exact Prog.Returns.between trivial (fun _ _ => hbody) (fun _ => trivial) fun _ _ _ h =>
    hpost _ _ _ (prefix_append _ _) h

theorem saveHeartbeatState_returns {force : Bool} {state : HeartbeatState} {settings : Settings}
    (hready : Ready platform files done settings) (hsettings : state.settings = settings) :
    (saveHeartbeatState files process state).Returns (keeping platform files (.runOnce force)).left
      (fun _ _ => True) done := by
  subst hsettings
  have hsession : validateChatSessionId state.sessionId = .ok state.sessionId := hready.proper.2
  rw [saveHeartbeatState, hsession]
  refine .op trivial fun t _ => ?_
  change (lockedStateFile process files.state.path
    (atomicWriteJson files.state (state.stamped t)) >>=
    fun _ => .pure (state.stamped t)).Returns _ _ _
  refine Prog.Returns.bind (q := fun _ _ => True)
    (locked_returns (fun _ _ _ _ h => h) ?_) fun _ _ _ =>
    .pure trivial
  have hready := (hready.mono (prefix_append done [⟨.inl .time, t⟩])).mono
    (prefix_append _ [⟨.inl (.acquire process files.state.path), ()⟩])
  exact .op (fun _ => ⟨_, rfl, hready.proper, hready.loaded⟩) fun _ _ => .pure trivial

include hdefault in
theorem configureHeartbeat_returns (hresolve : ∀ path, platform.resolve path ≠ "")
    (args : ConfigureArgs) (hfirst : firstLoad files.state.path done = none) :
    (configureHeartbeat platform files process args).Returns
      (keeping platform files (.configure args)).left
      (fun done' state => ⟨.inl (.write files.state.path (files.state.encode state)), ()⟩ ∈ done')
      done := by
  have hacquired : firstLoad files.state.path
      (done ++ [⟨.inl (.acquire process files.state.path), ()⟩]) = none := by
    rw [firstLoad_snoc, hfirst]
    rfl
  refine locked_returns (fun _ _ _ hdone h => hdone.subset h) ?_
  refine (loadState_returns hdefault hacquired).bind fun done' state hready => ?_
  refine Prog.Returns.bind (q := fun _ state' => state.configured platform args = .ok state')
    (.ofExcept fun _ h => h) fun done'' state' hstate => ?_
  refine .op trivial fun t _ => .op (fun _ => ⟨_, rfl, ?_, trivial⟩) fun _ _ => .pure ?_
  · have hproper : state'.settings.Proper := by
      obtain ⟨interval, -, hstate⟩ := Except.bind_eq_ok.1 hstate
      obtain ⟨minIdle, -, hstate⟩ := Except.bind_eq_ok.1 hstate
      obtain ⟨sessionId, hsession, hstate⟩ := Except.bind_eq_ok.1 hstate
      cases hstate
      refine ⟨?_, ?_⟩
      · cases args.heartbeatFile with
        | none => exact hready.proper.1
        | some path => exact hresolve path
      · cases hargs : args.sessionId with
        | none =>
          rw [hargs] at hsession
          have hsame : state.sessionId = sessionId := Except.ok.inj hsession
          rw [← hsame]
          exact hready.proper.2
        | some given =>
          rw [hargs] at hsession
          exact validateChatSessionId_idem hsession
    exact hproper
  · exact mem_append_right _ (mem_singleton.2 rfl)

section Queue

open HeartbeatTaskStore

variable {file : StateFile σ TaskFile}

/-- Whether the task that is picked from the file may interrupt. -/
def interruptionOf (platform : Platform) (file : StateFile σ TaskFile) (now : ℚ) (text : Option σ) :
    Option Bool :=
  match file.read text with
  | .ok (some content) => (choose platform (queueOf content) now).map fun c => c.1.interruptActive
  | _ => none

def Picked (platform : Platform) (file : StateFile σ TaskFile) (now : ℚ) (done : Done π σ)
    (task : Option HeartbeatTask) : Prop :=
  ∃ text, ⟨.inl (.load file.path), text⟩ ∈ done ∧
    task.map HeartbeatTask.interruptActive = interruptionOf platform file now text

include hdone in
theorem Picked.mono {now : ℚ} {task : Option HeartbeatTask}
    (h : Picked platform file now done task) : Picked platform file now done' task := by
  obtain ⟨text, htext, htask⟩ := h
  exact ⟨text, hdone.subset htext, htask⟩

theorem guar_path {o : FileOp π σ} {path : String} (h : o.path.getD path = path) :
    (confined path).guar done o := by
  intro p hp
  rwa [Option.mem_def.1 hp] at h

theorem savePayload_meets {queue : HeartbeatTaskQueue} :
    (savePayload file queue).Meets (confined file.path) (fun done' r => r = .ok () ∧
      done <+: done') done :=
  ⟨guar_path rfl, fun _ _ => ⟨guar_path rfl, fun _ _ =>
    ⟨rfl, (prefix_append _ _).trans (prefix_append _ _)⟩⟩⟩

theorem confined_locked {path : String} {body : FileProg π σ α}
    (hpost : ∀ done done' r, done <+: done' → post done r → post done' r)
    (hbody : body.Meets (confined path) post (done ++ [⟨.inl (.acquire process path), ()⟩])) :
    (lockedStateFile process path body).Meets (confined path) post done :=
  Prog.Meets.between (guar_path rfl) (fun _ _ => hbody) fun _ _ h =>
    ⟨guar_path rfl, fun _ _ => hpost _ _ _ (prefix_append _ _) h⟩

/-- What can be picked from the loaded queue is what can be picked from the file. -/
def Loads (file : StateFile σ TaskFile) (done : Done π σ)
    (r : Except Error HeartbeatTaskQueue) : Prop :=
  ∃ text, ⟨.inl (.load file.path), text⟩ ∈ done ∧ ∀ platform now,
    (r.toOption.bind fun queue => choose platform queue now).map (fun c => c.1.interruptActive) =
      interruptionOf platform file now text

theorem loadPayload_meets :
    (HeartbeatTaskStore.loadPayload file).Meets (confined file.path) (Loads file) done := by
  refine ⟨guar_path rfl, fun text _ => ?_⟩
  have hload : ⟨.inl (.load file.path), text⟩ ∈ done ++ [⟨.inl (.load file.path), text⟩] :=
    mem_append_right _ (mem_singleton.2 rfl)
  change (Prog.ofExcept (file.read text) >>= _).Meets (confined file.path) (Loads file)
    (done ++ [⟨.inl (.load file.path), text⟩])
  cases hread : file.read text with
  | error e => exact ⟨text, hload, fun _ _ => by rw [interruptionOf, hread]; rfl⟩
  | ok content =>
    cases content with
    | none =>
      refine ⟨guar_path rfl, fun t _ => ⟨text, mem_append_left _ hload, fun _ _ => ?_⟩⟩
      rw [interruptionOf, hread]
      rfl
    | some content => exact ⟨text, hload, fun _ _ => by rw [interruptionOf, hread]; rfl⟩

theorem nextTask_meets {now : ℚ} (hnow : now ≠ 0) (consume : Bool) :
    (nextTask platform process file now consume).Meets (confined file.path)
      (fun done' r => Picked platform file now done' (r.toOption.getD none)) done := by
  have horTime : (orTime now : FileProg π σ ℚ) = .pure now := if_neg hnow
  refine confined_locked (fun _ _ _ hdone h => h.mono hdone) ?_
  refine Prog.Meets.bind loadPayload_meets ?_ ?_
  · rintro done' queue ⟨text, hload, hchoose⟩
    rw [horTime, Prog.pure_bind]
    cases hchosen : choose platform queue now with
    | none => exact ⟨text, hload, by rw [← hchoose]; simp [Except.toOption, hchosen]⟩
    | some chosen =>
      obtain ⟨task, cursor⟩ := chosen
      have hinterrupt : some task.interruptActive = interruptionOf platform file now text := by
        rw [← hchoose]
        simp [Except.toOption, hchosen]
      cases consume with
      | false => exact ⟨text, hload, hinterrupt⟩
      | true =>
        exact savePayload_meets.bind
          (fun _ _ hsaved => ⟨text, hsaved.2.subset hload, hinterrupt⟩)
          fun _ _ hsaved => by cases hsaved.1
  · rintro done' e ⟨text, hload, hchoose⟩
    exact ⟨text, hload, hchoose platform now⟩

theorem setEnabled_meets (taskId : String) (enabled : Bool) :
    (setEnabled process file taskId enabled).Meets (confined file.path) (fun _ _ => True) done := by
  refine confined_locked (fun _ _ _ _ h => h) ?_
  refine Prog.Meets.bind loadPayload_meets ?_ fun _ _ _ => trivial
  intro done' queue _
  split
  · trivial
  · exact ⟨guar_path rfl,
      fun _ _ => savePayload_meets.bind (fun _ _ _ => trivial) fun _ _ _ => trivial⟩

theorem remove_meets (taskId : String) :
    (remove process file taskId).Meets (confined file.path) (fun _ _ => True) done := by
  refine confined_locked (fun _ _ _ _ h => h) ?_
  refine Prog.Meets.bind loadPayload_meets ?_ fun _ _ _ => trivial
  intro done' queue _
  split
  · trivial
  · exact savePayload_meets.bind (fun _ _ _ => trivial) fun _ _ _ => trivial

theorem create_returns (hpath : file.path ≠ files.state.path) (new : NewTask) :
    (create process file new).Returns (keeping platform files call) (fun _ _ => True) done := by
  unfold create
  generalize strip new.text = cleaned
  split
  · exact .raise
  · split
    · exact .raise
    · refine .between (q := fun _ _ => True) trivial (fun _ _ => ?_) (fun _ => trivial)
        fun _ _ _ _ => trivial
      refine confined_returns hpath loadPayload_meets fun done' queue _ _ => ?_
      refine op_returns trivial fun t _ => op_returns trivial fun id _ => ?_
      refine Prog.Returns.bind (q := fun _ _ => True) ?_ ?_
      · unfold positionIn
        split
        · exact .pure trivial
        · split
          · exact .pure trivial
          · exact .op trivial fun _ _ => .pure trivial
      · intro done'' index _
        exact confined_returns hpath savePayload_meets fun _ _ _ _ => .pure trivial

end Queue

section Run

variable {state : HeartbeatState} {now : ℚ} {force : Bool}

theorem recordSkip_returns (h : Ready platform files done state.settings)
    (reason : String) (now : ℚ) (idleSeconds : Option ℚ) :
    (recordSkip files process state reason now idleSeconds).Returns
      (keeping platform files (.runOnce force)) (fun _ _ => True) done := by
  unfold recordSkip
  split
  · exact .pure trivial
  · exact part_returns (.of_left (saveHeartbeatState_returns h rfl)) fun _ _ _ _ => .pure trivial

theorem tryNextTask_meets (hnow : now ≠ 0) (consume : Bool) :
    (tryNextTask platform files process state now consume).Meets
      (confined (files.tasks state.taskQueueFile).path)
      (fun done' r => ∃ task, r = .ok task ∧
        Picked platform (files.tasks state.taskQueueFile) now done' task) done := by
  refine (nextTask_meets hnow consume).handle ?_ ?_
  · intro done' task h
    exact ⟨task, rfl, h⟩
  · intro done' e h
    exact ⟨none, rfl, h⟩

theorem chatLoad_meets (file : StateFile σ ChatFile) :
    (ChatStore.load file).Meets (confined file.path) (fun _ _ => True) done := by
  refine ⟨guar_path rfl, fun text _ => ?_⟩
  change (Prog.ofExcept (file.read text) >>= _).Meets (confined file.path) (fun _ _ => True)
    (done ++ [⟨.inl (.load file.path), text⟩])
  cases file.read text with
  | error | ok => trivial

theorem chatSessionIdle_meets (hnow : now ≠ 0) (file : StateFile σ ChatFile) (minIdleSeconds : ℚ) :
    (chatSessionIdle file minIdleSeconds now).Meets (confined file.path)
      (fun _ _ => True) done := by
  have horTime : (HeartbeatTaskStore.orTime now : FileProg π σ ℚ) = .pure now := if_neg hnow
  have hlist (limit : ℕ) (done : Done π σ) :
      (ChatStore.list file limit).Meets (confined file.path) (fun _ _ => True) done :=
    (chatLoad_meets file).bind (fun _ _ _ => trivial) fun _ _ _ => trivial
  have hrecords (limit : ℕ) (done : Done π σ) :
      (ChatStore.listRecords file limit).Meets (confined file.path) (fun _ _ => True) done :=
    (chatLoad_meets file).bind (fun _ _ _ => trivial) fun _ _ _ => trivial
  rw [chatSessionIdle, horTime]
  refine (hlist 1000 done).bind ?_ fun _ _ _ => trivial
  intro done' messages _
  split
  · trivial
  · refine (hlist 1000 done').bind (fun done'' _ _ => ?_) fun _ _ _ => trivial
    refine (hrecords 1000 done'').bind (fun _ _ _ => ?_) fun _ _ _ => trivial
    split
    · trivial
    · split
      · trivial
      · trivial

include hchat in
/-- After the idle check a run goes on when it is forced, when the pending task may interrupt,
or when the chat was idle. -/
theorem idleCheck_returns (hnow : now ≠ 0) (pending : Option HeartbeatTask) :
    (idleCheck files state now force pending).Returns (keeping platform files call)
      (fun done' reason => reason = none → force = false →
        (∀ task ∈ pending, task.interruptActive = false) →
        ⟨.inr (.note (.idle true)), ()⟩ ∈ done') done := by
  unfold idleCheck
  split
  · refine confined_returns (hchat _) (chatSessionIdle_meets hnow _ _) fun done' idleness _ _ => ?_
    refine .op trivial fun _ _ => .pure ?_
    intro hreason hforce _
    cases hidle : idleness.idle with
    | true => exact mem_append_right _ (mem_singleton.2 rfl)
    | false => simp [hidle, hforce] at hreason
  · rename_i hasked
    refine .pure fun _ hforce hpending => ?_
    cases pending with
    | none => simp at hasked
    | some task => simp [hforce, hpending task rfl] at hasked

/-- What a run that is not forced has seen before it picks. -/
structure Considered (platform : Platform) (files : Files σ) (state : HeartbeatState) (now : ℚ)
    (force : Bool) (pending : Option HeartbeatTask) (done : Done π σ) : Prop where
  ready : Ready platform files done state.settings
  looked : Picked platform (files.tasks state.taskQueueFile) now done pending
  idle : force = false → (∀ task ∈ pending, task.interruptActive = false) →
    ⟨.inr (.note (.idle true)), ()⟩ ∈ done

include hdone in
theorem Considered.mayQueue {pending task : Option HeartbeatTask}
    (h : Considered platform files state now force pending done)
    (hpicked : Picked platform (files.tasks state.taskQueueFile) now done' task)
    (hsome : pending.isSome = true → task.isSome = true) :
    MayQueue files (.runOnce force) done' task := by
  intro hcall htask
  have hforce : force = false := HeartbeatCall.runOnce.inj hcall
  by_cases hpending : ∀ t ∈ pending, t.interruptActive = false
  · exact .inl (hdone.subset (h.idle hforce hpending))
  · right
    obtain ⟨text, htext, hlooked⟩ := h.looked
    obtain ⟨text', htext', hfound⟩ := hpicked
    refine ⟨state.taskQueueFile, text, text', hdone.subset htext, htext', ?_⟩
    rintro rfl
    rw [← hfound] at hlooked
    cases pending with
    | none => exact hpending fun _ ht => nomatch ht
    | some p =>
      obtain ⟨t, rfl⟩ := Option.isSome_iff_exists.1 (hsome rfl)
      have hsame : p.interruptActive = t.interruptActive := Option.some.inj hlooked
      refine hpending fun q hq => ?_
      rw [← Option.some.inj hq, hsame]
      exact htask t rfl

include hchat in
theorem queueTask_returns (hready : Ready platform files done state.settings)
    {task : Option HeartbeatTask}
    (hmay : MayQueue files (.runOnce force) done task) (instructions : String) :
    (queueTask platform files process state now force task instructions).Returns
      (keeping platform files (.runOnce force)) (fun _ _ => True) done := by
  refine .op hmay fun _ _ => op_returns trivial fun id _ => ?_
  generalize heartbeatMessage platform state now task instructions id = new
  have happend :=
    confined_of_updating (append_meets platform.floatText new process (files.chat state.sessionId))
  refine confined_returns (hchat _) (happend _) fun done₁ message h₁ _ => ?_
  refine confined_returns (hchat _)
    (confined_of_updating (appendRecord_meets ..) _) fun done₂ _ h₂ _ => ?_
  have hdone := ((prefix_append _ _).trans (prefix_append _ _)).trans (h₁.trans h₂)
  exact part_returns (.of_left (saveHeartbeatState_returns (hready.mono hdone) rfl)) fun _ _ _ _ =>
    .pure trivial

include htasks hchat in
theorem pickAndQueue_returns (hnow : now ≠ 0) {pending : Option HeartbeatTask}
    (h : Considered platform files state now force pending done) :
    (pickAndQueue platform files process state now force pending).Returns
      (keeping platform files (.runOnce force)) (fun _ _ => True) done := by
  refine confined_returns (htasks _) (tryNextTask_meets hnow true) ?_
  rintro done₁ task h₁ ⟨_, ⟨⟩, hpicked⟩
  split
  · exact recordSkip_returns (h.ready.mono h₁) _ _ _
  · rename_i hpending
    have hsome : pending.isSome = true → task.isSome = true := by
      intro hsome
      rw [hsome, Bool.true_and, Option.isNone_iff_eq_none] at hpending
      exact Option.isSome_iff_ne_none.2 hpending
    have hinstructions : (instructionsFor files state task).Returns
        (keeping platform files (.runOnce force)).left (fun _ _ => True) done₁ := by
      cases task with
      | some task => exact .pure trivial
      | none =>
        refine .op trivial fun text _ => ?_
        cases text with
        | none => exact .pure trivial
        | some text => exact .ofExcept fun _ _ => trivial
    refine part_returns (.of_left hinstructions) fun done₂ instructions h₂ _ => ?_
    have hdone := h₁.trans h₂
    split
    · exact recordSkip_returns (h.ready.mono hdone) _ _ _
    · split
      · exact recordSkip_returns (h.ready.mono hdone) _ _ _
      · exact queueTask_returns hchat (h.ready.mono hdone)
          (h.mayQueue hdone (hpicked.mono h₂) hsome) _

include hdefault htasks hchat in
theorem runOnce_returns (force : Bool) :
    (runOnce platform files process force).Returns (keeping platform files (.runOnce force))
      (fun _ _ => True) [] := by
  refine op_returns trivial fun now hnow => ?_
  refine part_returns
    (.of_left (locked_returns (fun _ _ _ hdone h => h.mono hdone) (loadState_returns hdefault rfl)))
    fun done₁ state _ hready => ?_
  split
  · exact recordSkip_returns hready _ _ _
  · split
    · exact recordSkip_returns hready _ _ _
    · refine confined_returns (htasks _) (tryNextTask_meets hnow false) ?_
      rintro done₂ pending h₂ ⟨_, ⟨⟩, hlooked⟩
      refine part_returns (idleCheck_returns hchat hnow pending) fun done₃ reason h₃ hidle => ?_
      have hready := hready.mono (h₂.trans h₃)
      cases reason with
      | some reason => exact recordSkip_returns hready _ _ _
      | none => exact pickAndQueue_returns htasks hchat hnow ⟨hready, hlooked.mono h₃, hidle rfl⟩

end Run

/-- What a call that returns has done: a configuring call has written what it returns. -/
def Saved (files : Files σ) (done : Done π σ) (answer : HeartbeatAnswer) : Prop :=
  ∀ state, answer = .configured state →
    ⟨.inl (.write files.state.path (files.state.encode state)), ()⟩ ∈ done

include hdefault htasks hchat in
theorem HeartbeatCall.returns (hresolve : ∀ path, platform.resolve path ≠ "")
    (call : HeartbeatCall) :
    (call.prog platform files process).Returns (keeping platform files call) (Saved files) [] := by
  cases call with
  | runOnce force =>
    exact (runOnce_returns hdefault htasks hchat force).map fun _ _ _ _ h => nomatch h
  | configure args =>
    refine Prog.Returns.map (Prog.Meets.of_left
      (configureHeartbeat_returns hdefault hresolve args rfl)) ?_
    intro done state hwritten state' hstate
    cases hstate
    exact hwritten
  | create queue new => exact (create_returns (htasks queue) new).map fun _ _ _ _ h => nomatch h
  | setEnabled queue taskId enabled =>
    exact confined_returns (htasks queue) (setEnabled_meets taskId enabled) fun _ _ _ _ =>
      .pure fun _ h => nomatch h
  | remove queue taskId =>
    exact confined_returns (htasks queue) (remove_meets taskId) fun _ _ _ _ =>
      .pure fun _ h => nomatch h
  | chat session call =>
    have hcall := ChatCall.meets platform.floatText process (files.chat session) call
    exact confined_returns (hchat session) (confined_of_updating hcall []) fun _ _ _ _ =>
      .pure fun _ h => nomatch h

end Contracts

end OmniDoer.Heartbeat
