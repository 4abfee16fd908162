import Cheferd.Library.CountedQueue
import Cheferd.LoopSteps

namespace Cheferd.RegistrationQueues

open Library CoreControlApplication FeedbackLoop

/-- The process with `handle_local_controller_sessions` and `handle_data_plane_sessions` cut into the steps
that the registering threads can come between, and with all registrations made and handled so far. -/
structure Station where
  process : Process
  localTurn : Turn String
  stageTurn : Turn StageInfo
  enqueuedLocals : List String
  handledLocals : List String
  enqueuedStages : List StageInfo
  handledStages : List StageInfo

def openSession (address : String) (core : CoreControlApplication) : Except Fault CoreControlApplication :=
  submitRule .nullPointer address core.localHandshakeRule
    { core with
      localSessions := core.localSessions.emplace address .new
      localToStages := core.localToStages.emplace address [] }

def openStage (info : StageInfo) (core : CoreControlApplication) : Except Fault CoreControlApplication :=
  submitRule (.outOfRange .localSessions) info.localAddress (stageReadyRule info) (registerStage info core)

theorem handleLocalControllerSessions_eq (address : String) (rest : List String)
    (core : CoreControlApplication) :
    handleLocalControllerSessions address rest core =
      openSession address { core with
        localQueue := rest
        pendingLocalControllerSessions := core.pendingLocalControllerSessions - 1 } := rfl

theorem handleDataPlaneSessions_eq (info : StageInfo) (rest : List StageInfo) (core : CoreControlApplication) :
    handleDataPlaneSessions info rest core =
      openStage info { core with
        localToDataQueue := rest
        pendingDataPlaneSessions := core.pendingDataPlaneSessions - 1 } := rfl

namespace Station

def locals (s : Station) : CountedQueue String where
  queue := s.process.core.localQueue
  counter := s.process.core.pendingLocalControllerSessions
  entering := s.process.enteringLocals.length
  turn := s.localTurn
  enqueued := s.enqueuedLocals
  handled := s.handledLocals
  discarded := 0

def stages (s : Station) : CountedQueue StageInfo where
  queue := s.process.core.localToDataQueue
  counter := s.process.core.pendingDataPlaneSessions
  entering := s.process.enteringStages
  turn := s.stageTurn
  enqueued := s.enqueuedStages
  handled := s.handledStages
  discarded := 0

def withLocals (s : Station) (locals : CountedQueue String) : Station :=
  { s with
    process := { s.process with
      core := { s.process.core with
        localQueue := locals.queue
        pendingLocalControllerSessions := locals.counter } }
    localTurn := locals.turn
    handledLocals := locals.handled }

def withStages (s : Station) (stages : CountedQueue StageInfo) : Station :=
  { s with
    process := { s.process with
      core := { s.process.core with
        localToDataQueue := stages.queue
        pendingDataPlaneSessions := stages.counter } }
    stageTurn := stages.turn
    handledStages := stages.handled }

def goTo (s : Station) (point : FeedbackLoop.Point) : Station :=
  { s with process := { s.process with point := point } }

def proceedLocal (s : Station) (address : String) : Station :=
  match openSession address s.process.core with
  | .error fault => s.goTo (.crashed fault)
  | .ok core =>
    { s with
      process := { s.process with core := core, point := .localHandshake address }
      localTurn := .outside
      handledLocals := s.handledLocals ++ [address] }

def proceedStage (s : Station) (info : StageInfo) : Station :=
  match openStage info s.process.core with
  | .error fault => s.goTo (.crashed fault)
  | .ok core =>
    { s with
      process := { s.process with core := core, point := .markReady info }
      stageTurn := .outside
      handledStages := s.handledStages ++ [info] }

def handleLocals (s : Station) : Option Station :=
  s.locals.handle s.withLocals (s.goTo .stages) s.proceedLocal

def handleStages (s : Station) : Option Station :=
  s.stages.handle s.withStages (s.goTo .control) s.proceedStage

def step (s : Station) : FeedbackLoop.Action → Option Station
  | .loop =>
    match s.process.point with
    | .locals => s.handleLocals
    | .stages => s.handleStages
    | _ => s.process.loop.map fun process => { s with process := process }
  | .enqueueLocal address => (s.process.step (.enqueueLocal address)).map fun process =>
    { s with process := process, enqueuedLocals := s.enqueuedLocals ++ [address] }
  | .enqueueStage info => (s.process.step (.enqueueStage info)).map fun process =>
    { s with process := process, enqueuedStages := s.enqueuedStages ++ [info] }
  | action => (s.process.step action).map fun process => { s with process := process }

def start (process : Process) : Station where
  process := process
  localTurn := .outside
  stageTurn := .outside
  enqueuedLocals := []
  handledLocals := []
  enqueuedStages := []
  handledStages := []

end Station

/-- `execute_feedback_loop` beside any number of registering threads, each lock region and each update of a
counter being one step. -/
def machine : Machine Station FeedbackLoop.Action where
  start s := ∃ process, FeedbackLoop.machine.start process ∧ s = .start process
  step := Station.step

structure SameQueues (p q : Process) : Prop where
  localQueue : q.core.localQueue = p.core.localQueue
  localToDataQueue : q.core.localToDataQueue = p.core.localToDataQueue
  pendingLocals : q.core.pendingLocalControllerSessions = p.core.pendingLocalControllerSessions
  pendingStages : q.core.pendingDataPlaneSessions = p.core.pendingDataPlaneSessions
  enteringLocals : q.enteringLocals = p.enteringLocals
  enteringStages : q.enteringStages = p.enteringStages

section Frames

variable {p q : Process}

theorem SameQueues.taken {address rule : String} {response : StageResponse} {core : CoreControlApplication}
    (h : Takes p address rule response core) (point : FeedbackLoop.Point) :
    SameQueues p { p with core := core, point := point } := by
  obtain ⟨session, session', _, _, rfl⟩ := h.exists_session
  exact ⟨rfl, rfl, rfl, rfl, rfl, rfl⟩

theorem sameQueues_control (h : Controls p q) : SameQueues p q := by
  obtain ⟨sessions, hcore, _⟩ := h.tables
  constructor
  · rw [hcore]
  · rw [hcore]
  · rw [hcore]
  · rw [hcore]
  · cases h <;> rfl
  · cases h <;> rfl

theorem sameQueues_loop (h : LoopStep p q) (hlocals : p.point ≠ .locals) (hstages : p.point ≠ .stages) :
    SameQueues p q := by
  cases h with
  | goes point h => exact ⟨rfl, rfl, rfl, rfl, rfl, rfl⟩
  | localTaken address rest session hpoint hpending hqueue hsession => exact absurd hpoint hlocals
  | handshaken address rule response core hpoint htakes =>
    have h := SameQueues.taken htakes .locals
    exact ⟨h.localQueue, h.localToDataQueue, h.pendingLocals, h.pendingStages, rfl, rfl⟩
  | stageTaken info rest session hpoint hpending hqueue hsession => exact absurd hpoint hstages
  | marked info rule response core hpoint htakes =>
    have h := SameQueues.taken htakes .stages
    exact ⟨h.localQueue, h.localToDataQueue, h.pendingLocals, h.pendingStages, rfl, rfl⟩
  | control hpoint h => exact sameQueues_control h
  | collectDone collection active point hpoint hgone hactive hnext => exact ⟨rfl, rfl, rfl, rfl, rfl, rfl⟩
  | collectResult address rule rest collection collection' response core core' hpoint hcollects htakes h =>
    have hframe := (collectStatisticsResult_forgets h).frame
    have h := SameQueues.taken htakes (.collect rest collection')
    exact ⟨hframe ▸ h.localQueue, hframe ▸ h.localToDataQueue, hframe ▸ h.pendingLocals,
      hframe ▸ h.pendingStages, rfl, rfl⟩
  | collectFault address rule rest collection response core fault hpoint hcollects htakes h =>
    exact .taken htakes _
  | computed dStats core updated hpoint h =>
    have hframe := (computeAndEnforce_computes h).frame
    exact ⟨hframe.localQueue, hframe.localToDataQueue, hframe.pendingLocalControllerSessions,
      hframe.pendingDataPlaneSessions, rfl, rfl⟩
  | enforced job address rule rest response core hpoint htakes => exact .taken htakes _
  | finished hpoint => exact ⟨rfl, rfl, rfl, rfl, rfl, rfl⟩

theorem submitRule_queues {missing : Fault} {address rule : String} {core core' : CoreControlApplication}
    (h : submitRule missing address rule core = .ok core') :
    core' = { core with localSessions := core'.localSessions } := by
  unfold submitRule at h
  split at h <;> cases h
  rfl

theorem sameQueues_openSession {address : String} {core : CoreControlApplication} (point : FeedbackLoop.Point)
    (h : openSession address p.core = .ok core) : SameQueues p { p with core := core, point := point } := by
  have hcore := submitRule_queues h
  constructor
  all_goals first | rfl | rw [hcore]

theorem sameQueues_openStage {info : StageInfo} {core : CoreControlApplication} (point : FeedbackLoop.Point)
    (h : openStage info p.core = .ok core) : SameQueues p { p with core := core, point := point } := by
  have hcore := submitRule_queues h
  obtain ⟨demands, rates, previousRates, hemplace⟩ := emplaceJob_frame info.stageName p.core
  simp only [registerStage, hemplace] at hcore
  constructor
  all_goals first | rfl | rw [hcore]

end Frames

namespace Station

variable {s t : Station}

theorem locals_of_same (h : SameQueues s.process t.process) (hturn : t.localTurn = s.localTurn)
    (henqueued : t.enqueuedLocals = s.enqueuedLocals) (hhandled : t.handledLocals = s.handledLocals) :
    t.locals = s.locals := by
  simp only [locals, h.localQueue, h.pendingLocals, h.enteringLocals, hturn, henqueued, hhandled]

theorem stages_of_same (h : SameQueues s.process t.process) (hturn : t.stageTurn = s.stageTurn)
    (henqueued : t.enqueuedStages = s.enqueuedStages) (hhandled : t.handledStages = s.handledStages) :
    t.stages = s.stages := by
  simp only [stages, h.localToDataQueue, h.pendingStages, h.enteringStages, hturn, henqueued, hhandled]

theorem locals_withLocals {next : CountedQueue String} (h : s.locals.consume = some next) :
    (s.withLocals next).locals = next :=
  (CountedQueue.consume_eq h).symm

theorem stages_withStages {next : CountedQueue StageInfo} (h : s.stages.consume = some next) :
    (s.withStages next).stages = next :=
  (CountedQueue.consume_eq h).symm

theorem proceedLocal_locals {address : String} (h : s.localTurn = .discounted address) :
    (s.proceedLocal address).locals = s.locals ∨ s.locals.consume = some (s.proceedLocal address).locals := by
  unfold proceedLocal
  split
  case h_1 => exact .inl rfl
  case h_2 core hcore =>
    have hsame := sameQueues_openSession (.localHandshake address) hcore
    have hqueue : core.localQueue = s.process.core.localQueue := hsame.localQueue
    have hpending : core.pendingLocalControllerSessions = s.process.core.pendingLocalControllerSessions :=
      hsame.pendingLocals
    right
    simp only [locals, CountedQueue.consume, h, hqueue, hpending]

theorem proceedLocal_stages (address : String) : (s.proceedLocal address).stages = s.stages := by
  unfold proceedLocal
  split
  case h_1 => rfl
  case h_2 core hcore => exact stages_of_same (sameQueues_openSession _ hcore) rfl rfl rfl

theorem proceedStage_stages {info : StageInfo} (h : s.stageTurn = .discounted info) :
    (s.proceedStage info).stages = s.stages ∨ s.stages.consume = some (s.proceedStage info).stages := by
  unfold proceedStage
  split
  case h_1 => exact .inl rfl
  case h_2 core hcore =>
    have hsame := sameQueues_openStage (.markReady info) hcore
    have hqueue : core.localToDataQueue = s.process.core.localToDataQueue := hsame.localToDataQueue
    have hpending : core.pendingDataPlaneSessions = s.process.core.pendingDataPlaneSessions :=
      hsame.pendingStages
    right
    simp only [stages, CountedQueue.consume, h, hqueue, hpending]

theorem proceedStage_locals (info : StageInfo) : (s.proceedStage info).locals = s.locals := by
  unfold proceedStage
  split
  case h_1 => rfl
  case h_2 core hcore => exact locals_of_same (sameQueues_openStage _ hcore) rfl rfl rfl

theorem loop_follows (h : s.step .loop = some t) :
    s.locals.Follows False t.locals ∧ s.stages.Follows False t.stages := by
  simp only [step] at h
  split at h
  case h_1 =>
    rcases CountedQueue.handle_cases h with ⟨next, hnext, _, rfl⟩ | ⟨_, _, rfl⟩ | ⟨address, hturn, rfl⟩
    · refine ⟨.consume ?_, .inl rfl⟩
      rw [locals_withLocals hnext]
      exact hnext
    · exact ⟨.inl rfl, .inl rfl⟩
    · refine ⟨?_, .inl (proceedLocal_stages address)⟩
      exact (proceedLocal_locals hturn).elim .inl .consume
  case h_2 =>
    rcases CountedQueue.handle_cases h with ⟨next, hnext, _, rfl⟩ | ⟨_, _, rfl⟩ | ⟨info, hturn, rfl⟩
    · refine ⟨.inl rfl, .consume ?_⟩
      rw [stages_withStages hnext]
      exact hnext
    · exact ⟨.inl rfl, .inl rfl⟩
    · refine ⟨.inl (proceedStage_locals info), ?_⟩
      exact (proceedStage_stages hturn).elim .inl .consume
  case h_3 hlocals hstages =>
    obtain ⟨process, hprocess, rfl⟩ := Option.map_eq_some_iff.mp h
    have hsame := sameQueues_loop (loop_cases hprocess) hlocals hstages
    exact ⟨.inl (locals_of_same hsame rfl rfl rfl), .inl (stages_of_same hsame rfl rfl rfl)⟩

theorem step_follows {action : FeedbackLoop.Action} (h : s.step action = some t) :
    s.locals.Follows False t.locals ∧ s.stages.Follows False t.stages := by
  cases action with
  | loop => exact loop_follows h
  | enqueueLocal address =>
    cases h
    refine ⟨.push (a := address) ?_, .inl rfl⟩
    simp only [CountedQueue.step, locals, List.length_append, List.length_singleton]
  | enqueueStage info =>
    cases h
    exact ⟨.inl rfl, .push rfl⟩
  | countLocal address =>
    obtain ⟨process, hprocess, rfl⟩ := Option.map_eq_some_iff.mp h
    cases step_cases hprocess
    case countLocal hmem =>
      refine ⟨.raise ?_, .inl rfl⟩
      simp only [CountedQueue.step, locals, List.length_erase_of_mem hmem]
      exact if_pos (List.length_pos_of_mem hmem)
  | countStage =>
    obtain ⟨process, hprocess, rfl⟩ := Option.map_eq_some_iff.mp h
    cases step_cases hprocess
    case countStage hpos => exact ⟨.inl rfl, .raise (if_pos hpos)⟩
  | enqueueRule rule =>
    cases h
    exact ⟨.inl rfl, .inl rfl⟩
  | rehash order =>
    cases h
    exact ⟨.inl rfl, .inl rfl⟩
  | serve address reply =>
    obtain ⟨process, hprocess, rfl⟩ := Option.map_eq_some_iff.mp h
    cases step_cases hprocess
    exact ⟨.inl rfl, .inl rfl⟩

end Station

open Station

variable {s : Station}

theorem balanced_reach (h : machine.Reach (fun _ _ => True) s) : s.locals.Balanced ∧ s.stages.Balanced := by
  refine h.invariant (I := fun s => s.locals.Balanced ∧ s.stages.Balanced) ?_ ?_
  · rintro s ⟨process, ⟨controlType, rules, systemLimit, hash, core, hops, rfl⟩, rfl⟩
    obtain ⟨ops, op, rfl⟩ := initializeOps_ok hops
    exact ⟨⟨rfl, rfl, trivial, rfl⟩, ⟨rfl, rfl, trivial, rfl⟩⟩
  · intro s t action hs _ hstep
    obtain ⟨hlocals, hstages⟩ := step_follows hstep
    exact ⟨hlocals.balanced not_false hs.1, hstages.balanced not_false hs.2⟩

structure Placed (s : Station) : Prop where
  locals : s.localTurn = .outside ∨ s.process.point = .locals ∨ s.process.Crashed
  stages : s.stageTurn = .outside ∨ s.process.point = .stages ∨ s.process.Crashed

theorem Placed.of_kept {t : Station} (hs : Placed s) (hpoint : t.process.point = s.process.point)
    (hlocals : t.localTurn = s.localTurn) (hstages : t.stageTurn = s.stageTurn) : Placed t := by
  constructor
  · rw [hlocals, hpoint, Process.Crashed, hpoint]
    exact hs.locals
  · rw [hstages, hpoint, Process.Crashed, hpoint]
    exact hs.stages

theorem Placed.loop {t : Station} (h : s.step .loop = some t) (hs : Placed s) : Placed t := by
  simp only [Station.step] at h
  split at h
  case h_1 hpoint =>
    have hstages : s.stageTurn = .outside := hs.stages.resolve_right (by simp [hpoint, Process.Crashed])
    rcases CountedQueue.handle_cases h with ⟨next, _, _, rfl⟩ | ⟨hturn, _, rfl⟩ | ⟨address, _, rfl⟩
    · exact ⟨.inr (.inl hpoint), .inl hstages⟩
    · exact ⟨.inl hturn, .inl hstages⟩
    · unfold Station.proceedLocal
      split
      case h_1 fault _ => exact ⟨.inr (.inr ⟨fault, rfl⟩), .inl hstages⟩
      case h_2 => exact ⟨.inl rfl, .inl hstages⟩
  case h_2 hpoint =>
    have hlocals : s.localTurn = .outside := hs.locals.resolve_right (by simp [hpoint, Process.Crashed])
    rcases CountedQueue.handle_cases h with ⟨next, _, _, rfl⟩ | ⟨hturn, _, rfl⟩ | ⟨info, _, rfl⟩
    · exact ⟨.inl hlocals, .inr (.inl hpoint)⟩
    · exact ⟨.inl hlocals, .inl hturn⟩
    · unfold Station.proceedStage
      split
      case h_1 fault _ => exact ⟨.inl hlocals, .inr (.inr ⟨fault, rfl⟩)⟩
      case h_2 => exact ⟨.inl hlocals, .inl rfl⟩
  case h_3 hlocals hstages =>
    obtain ⟨process, hprocess, rfl⟩ := Option.map_eq_some_iff.mp h
    have halive := (loop_cases hprocess).alive
    exact ⟨.inl (hs.locals.resolve_right fun h => h.elim hlocals halive),
      .inl (hs.stages.resolve_right fun h => h.elim hstages halive)⟩

theorem Placed.step {t : Station} {action : FeedbackLoop.Action} (h : s.step action = some t) (hs : Placed s) :
    Placed t := by
  cases action with
  | loop => exact hs.loop h
  | _ =>
    simp only [Station.step, Option.map_eq_some_iff] at h
    obtain ⟨process, hprocess, rfl⟩ := h
    cases step_cases hprocess
    exact hs.of_kept rfl rfl rfl

def Station.whole (s : Station) : Process :=
  { s.process with
    core := { s.process.core with
      localQueue := s.localTurn.hand ++ s.process.core.localQueue
      pendingLocalControllerSessions := s.process.core.pendingLocalControllerSessions + s.localTurn.missed
      localToDataQueue := s.stageTurn.hand ++ s.process.core.localToDataQueue
      pendingDataPlaneSessions := s.process.core.pendingDataPlaneSessions + s.stageTurn.missed } }

theorem whole_of_outside (hlocals : s.localTurn = .outside) (hstages : s.stageTurn = .outside) :
    s.whole = s.process := by
  simp only [Station.whole, hlocals, hstages, Turn.hand, Turn.missed, List.nil_append, add_zero]

theorem whole_withLocals {next : CountedQueue String} (h : s.locals.consume = some next)
    (hturn : ∀ address, s.localTurn ≠ .discounted address) : (s.withLocals next).whole = s.whole := by
  obtain ⟨hqueue, hcounter, _⟩ := CountedQueue.consume_unseen h hturn
  simp only [Station.whole, Station.withLocals]
  rw [hqueue, hcounter]
  rfl

theorem whole_withStages {next : CountedQueue StageInfo} (h : s.stages.consume = some next)
    (hturn : ∀ info, s.stageTurn ≠ .discounted info) : (s.withStages next).whole = s.whole := by
  obtain ⟨hqueue, hcounter, _⟩ := CountedQueue.consume_unseen h hturn
  simp only [Station.whole, Station.withStages]
  rw [hqueue, hcounter]
  rfl

theorem whole_proceedLocal {address : String} (hpoint : s.process.point = .locals)
    (hturn : s.localTurn = .discounted address) (hstages : s.stageTurn = .outside) (hs : s.locals.Balanced) :
    s.whole.step .loop = some (s.proceedLocal address).whole := by
  have hpending : 0 ≤ s.process.core.pendingLocalControllerSessions := by
    have hknows := hs.knows
    simpa only [CountedQueue.Knows, Station.locals, hturn] using hknows
  have hcore : handleLocalControllerSessions address s.process.core.localQueue s.whole.core =
      openSession address s.process.core := by
    rw [handleLocalControllerSessions_eq]
    simp only [Station.whole, hturn, hstages, Turn.hand, Turn.missed, List.nil_append, add_zero,
      Int.add_sub_cancel]
  have hstep : s.whole.step .loop =
      some (s.whole.proceed (openSession address s.process.core) (.localHandshake address)) := by
    rw [← hcore]
    simp only [Process.step, Process.loop, Station.whole, hpoint, hturn, Turn.hand, Turn.missed,
      List.cons_append, List.nil_append]
    rw [if_pos (by omega)]
  rw [hstep]
  unfold Station.proceedLocal
  cases openSession address s.process.core with
  | error fault => rfl
  | ok core =>
    simp only [Process.proceed, Station.whole, hstages, Turn.hand, Turn.missed, List.nil_append, add_zero]

theorem whole_proceedStage {info : StageInfo} (hpoint : s.process.point = .stages)
    (hturn : s.stageTurn = .discounted info) (hlocals : s.localTurn = .outside) (hs : s.stages.Balanced) :
    s.whole.step .loop = some (s.proceedStage info).whole := by
  have hpending : 0 ≤ s.process.core.pendingDataPlaneSessions := by
    have hknows := hs.knows
    simpa only [CountedQueue.Knows, Station.stages, hturn] using hknows
  have hcore : handleDataPlaneSessions info s.process.core.localToDataQueue s.whole.core =
      openStage info s.process.core := by
    rw [handleDataPlaneSessions_eq]
    simp only [Station.whole, hturn, hlocals, Turn.hand, Turn.missed, List.nil_append, add_zero,
      Int.add_sub_cancel]
  have hstep : s.whole.step .loop =
      some (s.whole.proceed (openStage info s.process.core) (.markReady info)) := by
    rw [← hcore]
    simp only [Process.step, Process.loop, Station.whole, hpoint, hturn, Turn.hand, Turn.missed,
      List.cons_append, List.nil_append]
    rw [if_pos (by omega)]
  rw [hstep]
  unfold Station.proceedStage
  cases openStage info s.process.core with
  | error fault => rfl
  | ok core =>
    simp only [Process.proceed, Station.whole, hlocals, Turn.hand, Turn.missed, List.nil_append, add_zero]

theorem whole_loop {t : Station} (h : s.step .loop = some t) (hplaced : Placed s)
    (hlocals : s.locals.Balanced) (hstages : s.stages.Balanced) :
    t.whole = s.whole ∨ s.whole.step .loop = some t.whole := by
  simp only [Station.step] at h
  split at h
  case h_1 hpoint =>
    have hstage : s.stageTurn = .outside := hplaced.stages.resolve_right (by simp [hpoint, Process.Crashed])
    rcases CountedQueue.handle_cases h with ⟨next, hnext, hturn, rfl⟩ | ⟨hturn, hpending, rfl⟩ |
      ⟨address, hturn, rfl⟩
    · exact .inl (whole_withLocals hnext hturn)
    · right
      rw [whole_of_outside (s := s.goTo .stages) hturn hstage, whole_of_outside hturn hstage]
      simp only [Process.step, Process.loop, hpoint]
      exact if_neg hpending
    · exact .inr (whole_proceedLocal hpoint hturn hstage hlocals)
  case h_2 hpoint =>
    have hlocal : s.localTurn = .outside := hplaced.locals.resolve_right (by simp [hpoint, Process.Crashed])
    rcases CountedQueue.handle_cases h with ⟨next, hnext, hturn, rfl⟩ | ⟨hturn, hpending, rfl⟩ |
      ⟨info, hturn, rfl⟩
    · exact .inl (whole_withStages hnext hturn)
    · right
      rw [whole_of_outside (s := s.goTo .control) hlocal hturn, whole_of_outside hlocal hturn]
      simp only [Process.step, Process.loop, hpoint]
      exact if_neg hpending
    · exact .inr (whole_proceedStage hpoint hturn hlocal hstages)
  case h_3 hlocal hstage =>
    obtain ⟨process, hprocess, rfl⟩ := Option.map_eq_some_iff.mp h
    have halive := (loop_cases hprocess).alive
    have hlocalTurn : s.localTurn = .outside := hplaced.locals.resolve_right fun h => h.elim hlocal halive
    have hstageTurn : s.stageTurn = .outside := hplaced.stages.resolve_right fun h => h.elim hstage halive
    right
    rw [whole_of_outside (s := { s with process := process }) hlocalTurn hstageTurn,
      whole_of_outside hlocalTurn hstageTurn]
    exact hprocess

theorem whole_step {t : Station} {action : FeedbackLoop.Action} (h : s.step action = some t)
    (hplaced : Placed s)
    (hlocals : s.locals.Balanced) (hstages : s.stages.Balanced) :
    t.whole = s.whole ∨ s.whole.step action = some t.whole := by
  cases action with
  | loop => exact whole_loop h hplaced hlocals hstages
  | enqueueLocal address =>
    cases h
    right
    simp only [Process.step, Station.whole, List.append_assoc]
  | enqueueStage info =>
    cases h
    right
    simp only [Process.step, Station.whole, List.append_assoc]
  | countLocal address =>
    obtain ⟨process, hprocess, rfl⟩ := Option.map_eq_some_iff.mp h
    cases step_cases hprocess
    case countLocal hmem =>
      right
      simp only [Process.step, Station.whole]
      refine (if_pos hmem).trans ?_
      rw [add_right_comm]
  | countStage =>
    obtain ⟨process, hprocess, rfl⟩ := Option.map_eq_some_iff.mp h
    cases step_cases hprocess
    case countStage hpos =>
      right
      simp only [Process.step, Station.whole]
      refine (if_pos hpos).trans ?_
      rw [add_right_comm]
  | enqueueRule rule =>
    cases h
    exact .inr rfl
  | rehash order =>
    cases h
    exact .inr rfl
  | serve address reply =>
    obtain ⟨process, hprocess, rfl⟩ := Option.map_eq_some_iff.mp h
    cases step_cases hprocess
    case served session session' hsession hserve =>
      right
      simp only [Process.step, Station.whole, hsession, hserve, Option.map_some]

theorem whole_reach (h : machine.Reach (fun _ _ => True) s) :
    FeedbackLoop.machine.Reach (fun _ _ => True) s.whole := by
  suffices Placed s ∧ FeedbackLoop.machine.Reach (fun _ _ => True) s.whole from this.2
  induction h with
  | start hstart =>
    obtain ⟨process, hprocess, rfl⟩ := hstart
    refine ⟨⟨.inl rfl, .inl rfl⟩, ?_⟩
    rw [whole_of_outside rfl rfl]
    exact .start hprocess
  | step hreach ha hstep ih =>
    obtain ⟨hplaced, hwhole⟩ := ih
    obtain ⟨hlocals, hstages⟩ := balanced_reach hreach
    refine ⟨hplaced.step hstep, ?_⟩
    rcases whole_step hstep hplaced hlocals hstages with heq | hmove
    · rwa [heq]
    · exact hwhole.step ha hmove

theorem registrations_in_order (h : machine.Reach (fun _ _ => True) s) :
    s.locals.Orderly ∧ s.stages.Orderly := by
  obtain ⟨hlocals, hstages⟩ := balanced_reach h
  exact ⟨hlocals.orderly, hstages.orderly⟩

def overlapping : List FeedbackLoop.Action :=
  [.enqueueLocal "A", .enqueueLocal "B", .countLocal "B", .loop, .loop, .loop, .loop,
    .enqueueStage ⟨"j", 1, "u", "A"⟩, .loop, .countLocal "A", .loop, .loop]

theorem registrations_in_order_overlapping :
    ∃ s, machine.Reach (fun _ _ => True) s ∧ s.handledLocals = ["A"] ∧ s.process.core.localQueue = ["B"] ∧
      s.process.core.pendingLocalControllerSessions = 1 ∧ s.locals.Orderly ∧ s.stages.Orderly := by
  have hstart : machine.Reach (fun _ _ => True) (.start (.start
      { CoreControlApplication.new .static ["4|1|create_channel|1000|posix|1000|data|no_op|"] 100 .id with
        activeOps := ["data"], activeOp := "data" })) :=
    .start ⟨_, ⟨.static, ["4|1|create_channel|1000|posix|1000|data|no_op|"], 100, .id, _, rfl, rfl⟩, rfl⟩
  obtain ⟨s, hs, hhandled, hqueue, hcounter⟩ := hstart.of_exec overlapping
    (P := fun s => s.handledLocals = ["A"] ∧ s.process.core.localQueue = ["B"] ∧
      s.process.core.pendingLocalControllerSessions = 1) (by decide +kernel)
  obtain ⟨hlocals, hstages⟩ := registrations_in_order hs
  exact ⟨s, hs, hhandled, hqueue, hcounter, hlocals, hstages⟩

end Cheferd.RegistrationQueues
