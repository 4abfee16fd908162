import Cheferd.Enforcement
import Cheferd.FeedbackLoop
import Cheferd.Registry

namespace Cheferd.FeedbackLoop

open Library CoreControlApplication

variable {p q : Process}

structure Takes (p : Process) (address rule : String) (response : StageResponse)
    (core : CoreControlApplication) : Prop where
  exists_session : ∃ session session', p.core.localSessions.lookup address = some session ∧
    session.getResult = some ((rule, response), session') ∧
    core = { p.core with localSessions := p.core.localSessions.insert address session' }

inductive Goes (p : Process) : Point → Prop
  | started (hpoint : p.point = .waiting) (h : p.core.pendingLocalControllerSessions ≠ 0) :
      Goes p .condition
  | entered (hpoint : p.point = .condition) : Goes p .locals
  | exited (hpoint : p.point = .condition) : Goes p .exited
  | localsDone (hpoint : p.point = .locals) (h : ¬ p.core.pendingLocalControllerSessions > 0) :
      Goes p .stages
  | stagesDone (hpoint : p.point = .stages) (h : ¬ p.core.pendingDataPlaneSessions > 0) :
      Goes p .control
  | collectSkip (address : String) (rest : List String) (collection : Collection)
      (hpoint : p.point = .collect (address :: rest) collection) (h : ¬ p.collects address = true) :
      Goes p (.collect rest collection)
  | enforceDone (hpoint : p.point = .enforce []) : Goes p .finish
  | handshakeLost (address : String) (hpoint : p.point = .localHandshake address)
      (h : p.core.localSessions.lookup address = none) : Goes p (.crashed .nullPointer)
  | stageUnknown (info : StageInfo) (rest : List StageInfo) (hpoint : p.point = .stages)
      (hpending : p.core.pendingDataPlaneSessions > 0) (hqueue : p.core.localToDataQueue = info :: rest)
      (h : p.core.localSessions.lookup info.localAddress = none) :
      Goes p (.crashed (.outOfRange .localSessions))
  | markLost (info : StageInfo) (hpoint : p.point = .markReady info)
      (h : p.core.localSessions.lookup info.localAddress = none) :
      Goes p (.crashed (.outOfRange .localSessions))
  | collectLost (address : String) (rest : List String) (collection : Collection)
      (hpoint : p.point = .collect (address :: rest) collection) (hcollects : p.collects address = true)
      (h : p.core.localSessions.lookup address = none) : Goes p (.crashed .nullPointer)
  | computeFault (dStats : Assoc String Rates) (fault : Fault) (hpoint : p.point = .compute dStats)
      (h : computeAndEnforce dStats p.sessionsSent p.core = .error fault) : Goes p (.crashed fault)
  | enforceLost (job address : String) (rest : List (String × String))
      (hpoint : p.point = .enforce ((job, address) :: rest))
      (h : p.core.localSessions.lookup address = none) : Goes p (.crashed .nullPointer)

inductive Controls (p : Process) : Process → Prop
  | requested (htype : p.core.controlType = .static ∨ p.core.controlType = .dynamicVanilla) :
      Controls p { p with
        core := Process.requestStatistics 5 (Process.sessionOrder p.core) p.core
        point := .collect (Process.sessionOrder p.core) .empty }
  | sent (htype : p.core.controlType = .dynamicLeftover) (hround : p.roundsCounter = 0) :
      Controls p { p with
        core := Process.requestStatistics 6 (Process.sessionOrder p.core) p.core
        sessionsSent := (Process.sessionOrder p.core).filter (p.core.stagesOf · ≠ [])
        roundsCounter := 1
        point := .finish }
  | counted (htype : p.core.controlType = .dynamicLeftover) (hround : p.roundsCounter ≠ 0) :
      Controls p { p with roundsCounter := p.roundsCounter + 1, point := .finish }
  | gathered (htype : p.core.controlType = .dynamicLeftover) (hround : p.roundsCounter + 1 = collectRounds) :
      Controls p { p with
        roundsCounter := collectRounds
        point := .collect (Process.sessionOrder p.core) .empty }
  | idle (htype : p.core.controlType = .mds ∨ p.core.controlType = .noop) :
      Controls p { p with point := .finish }

inductive LoopStep (p : Process) : Process → Prop
  | goes (point : Point) (h : Goes p point) : LoopStep p { p with point := point }
  | localTaken (address : String) (rest : List String) (session : LocalControllerSession)
      (hpoint : p.point = .locals) (hpending : p.core.pendingLocalControllerSessions > 0)
      (hqueue : p.core.localQueue = address :: rest)
      (hsession : session = (p.core.localSessions.lookup address).getD .new) :
      LoopStep p { p with
        core := { p.core with
          localQueue := rest
          pendingLocalControllerSessions := p.core.pendingLocalControllerSessions - 1
          localSessions := (p.core.localSessions.emplace address .new).insert address
            (session.submitRule p.core.localHandshakeRule)
          localToStages := p.core.localToStages.emplace address [] }
        point := .localHandshake address }
  | handshaken (address rule : String) (response : StageResponse) (core : CoreControlApplication)
      (hpoint : p.point = .localHandshake address) (htakes : Takes p address rule response core) :
      LoopStep p { p with
        core := { core with activeLocalControllerSessions := core.activeLocalControllerSessions + 1 }
        point := .locals }
  | stageTaken (info : StageInfo) (rest : List StageInfo) (session : LocalControllerSession)
      (hpoint : p.point = .stages) (hpending : p.core.pendingDataPlaneSessions > 0)
      (hqueue : p.core.localToDataQueue = info :: rest)
      (hsession : p.core.localSessions.lookup info.localAddress = some session) :
      LoopStep p { p with
        core := { registerStage info { p.core with
            localToDataQueue := rest
            pendingDataPlaneSessions := p.core.pendingDataPlaneSessions - 1 } with
          localSessions := p.core.localSessions.insert info.localAddress
            (session.submitRule (stageReadyRule info)) }
        point := .markReady info }
  | marked (info : StageInfo) (rule : String) (response : StageResponse) (core : CoreControlApplication)
      (hpoint : p.point = .markReady info) (htakes : Takes p info.localAddress rule response core) :
      LoopStep p { p with core := stageMarked info response core, point := .stages }
  | control {q : Process} (hpoint : p.point = .control) (h : Controls p q) : LoopStep p q
  | collectDone (collection : Collection) (active : ℤ) (point : Point)
      (hpoint : p.point = .collect [] collection)
      (hgone : ∀ address ∈ collection.sessionsToDelete, address ∉ p.core.localSessions)
      (hactive : active = p.core.activeLocalControllerSessions - collection.sessionsToDelete.length)
      (hnext : point = .finish ∧ p.core.controlType = .static ∨ point = .compute collection.collectedStats) :
      LoopStep p { p with core := { p.core with activeLocalControllerSessions := active }, point := point }
  | collectResult (address rule : String) (rest : List String) (collection collection' : Collection)
      (response : StageResponse) (core core' : CoreControlApplication)
      (hpoint : p.point = .collect (address :: rest) collection) (hcollects : p.collects address = true)
      (htakes : Takes p address rule response core)
      (h : collectStatisticsResult address response collection core = .ok (core', collection')) :
      LoopStep p { p with core := core', point := .collect rest collection' }
  | collectFault (address rule : String) (rest : List String) (collection : Collection)
      (response : StageResponse) (core : CoreControlApplication) (fault : Fault)
      (hpoint : p.point = .collect (address :: rest) collection) (hcollects : p.collects address = true)
      (htakes : Takes p address rule response core)
      (h : collectStatisticsResult address response collection core = .error fault) :
      LoopStep p { p with core := core, point := .crashed fault }
  | computed (dStats : Assoc String Rates) (core : CoreControlApplication) (updated : List String)
      (hpoint : p.point = .compute dStats)
      (h : computeAndEnforce dStats p.sessionsSent p.core = .ok (core, updated)) :
      LoopStep p { p with
        core := { core with history := .computed :: core.history }
        point := .enforce (waitList core updated)
        roundsCounter := 0 }
  | enforced (job address rule : String) (rest : List (String × String)) (response : StageResponse)
      (core : CoreControlApplication) (hpoint : p.point = .enforce ((job, address) :: rest))
      (htakes : Takes p address rule response core) :
      LoopStep p { p with core := core, point := .enforce rest }
  | finished (hpoint : p.point = .finish) :
      LoopStep p { p with core := { p.core with changeInSystem := false }, point := .condition }

inductive Step (p : Process) : Action → Process → Prop
  | enqueueLocal (address : String) : Step p (.enqueueLocal address) { p with
      core := { p.core with localQueue := p.core.localQueue ++ [address] }
      enteringLocals := p.enteringLocals ++ [address] }
  | countLocal (address : String) (h : address ∈ p.enteringLocals) : Step p (.countLocal address) { p with
      core := { p.core with
        pendingLocalControllerSessions := p.core.pendingLocalControllerSessions + 1 }
      enteringLocals := p.enteringLocals.erase address
      connected := address :: p.connected }
  | enqueueStage (info : StageInfo) : Step p (.enqueueStage info) { p with
      core := { p.core with localToDataQueue := p.core.localToDataQueue ++ [info] }
      enteringStages := p.enteringStages + 1 }
  | countStage (h : 0 < p.enteringStages) : Step p .countStage { p with
      core := { p.core with pendingDataPlaneSessions := p.core.pendingDataPlaneSessions + 1 }
      enteringStages := p.enteringStages - 1 }
  | enqueueRule (rule : String) : Step p (.enqueueRule rule) { p with
      core := { p.core with pendingRulesQueue := p.core.pendingRulesQueue ++ [rule] } }
  | served (address : String) (reply : Reply) (session session' : LocalControllerSession)
      (hsession : p.core.localSessions.lookup address = some session)
      (hserve : session.serve reply = some session') : Step p (.serve address reply) { p with
        core := { p.core with localSessions := p.core.localSessions.insert address session' } }
  | rehash (order : HashOrder) : Step p (.rehash order) { p with core := { p.core with hash := order } }
  | loop {q : Process} (h : LoopStep p q) : Step p .loop q

theorem await_eq_some {missing : Fault} {address : String}
    {next : CoreControlApplication → StageResponse → Process} (h : p.await missing address next = some q) :
    (p.core.localSessions.lookup address = none ∧ q = { p with point := .crashed missing }) ∨
      ∃ rule response core, Takes p address rule response core ∧ q = next core response := by
  unfold Process.await at h
  split at h
  case h_1 hl => exact .inl ⟨hl, (Option.some.inj h).symm⟩
  case h_2 session hl =>
    split at h
    · cases h
    case h_2 rule response session' hr =>
      exact .inr ⟨rule, response, _, ⟨session, session', hl, hr, rfl⟩, (Option.some.inj h).symm⟩

theorem control_cases (p : Process) : Controls p p.control := by
  unfold Process.control
  cases htype : p.core.controlType with
  | static => exact .requested (.inl htype)
  | dynamicVanilla => exact .requested (.inr htype)
  | dynamicLeftover =>
    by_cases hround : p.roundsCounter = 0
    · simp only [hround, if_true]
      exact .sent htype hround
    · simp only [hround, if_false]
      split
      case isTrue hlast => exact .gathered htype hlast
      case isFalse => exact .counted htype hround
  | mds => exact .idle (.inl htype)
  | noop => exact .idle (.inr htype)

theorem eraseSessions_eq_some {sessions : List String} {core core' : CoreControlApplication}
    (h : eraseSessions sessions core = some core') :
    (∀ address ∈ sessions, address ∉ core.localSessions) ∧
      core' = { core with
        activeLocalControllerSessions := core.activeLocalControllerSessions - sessions.length } := by
  induction sessions generalizing core with
  | nil =>
    cases h
    simp
  | cons address rest ih =>
    simp only [eraseSessions, Option.ite_none_left_eq_some] at h
    obtain ⟨hgone, h⟩ := h
    obtain ⟨hrest, rfl⟩ := ih h
    refine ⟨List.forall_mem_cons.mpr ⟨hgone, hrest⟩, ?_⟩
    rw [List.length_cons, Nat.cast_succ, ← sub_sub, sub_right_comm]

theorem eraseSessions_eq_none {sessions : List String} {core : CoreControlApplication} :
    eraseSessions sessions core = none ↔ ∃ address ∈ sessions, address ∈ core.localSessions := by
  induction sessions generalizing core with
  | nil => simp [eraseSessions]
  | cons address rest ih =>
    unfold eraseSessions
    by_cases hstands : address ∈ core.localSessions <;> simp [hstands, ih]

theorem collected_cases {collection : Collection} (hpoint : p.point = .collect [] collection)
    (h : p.collected collection = some q) : LoopStep p q := by
  obtain ⟨core, herase, rfl⟩ := Option.map_eq_some_iff.mp h
  obtain ⟨hgone, rfl⟩ := eraseSessions_eq_some herase
  refine .collectDone collection _ _ hpoint hgone rfl ?_
  dsimp only
  split
  case isTrue hstatic => exact .inl ⟨rfl, hstatic.1⟩
  case isFalse => exact .inr rfl

theorem loop_cases (h : p.loop = some q) : LoopStep p q := by
  unfold Process.loop at h
  cases hp : p.point with
  | waiting =>
    simp only [hp] at h
    split at h
    · cases h
    case isFalse hpending => cases h; exact .goes _ (.started hp hpending)
  | condition =>
    simp only [hp] at h
    split at h
    · cases h; exact .goes _ (.entered hp)
    · cases h; exact .goes _ (.exited hp)
  | locals =>
    simp only [hp] at h
    split at h
    case isTrue hpending =>
      split at h
      · cases h
      case h_2 address rest hqueue =>
        cases h
        have hl : (p.core.localSessions.emplace address .new).lookup address =
            some ((p.core.localSessions.lookup address).getD .new) := by
          rw [Assoc.lookup_emplace, if_pos rfl]
        simp only [handleLocalControllerSessions, submitRule, hl, Process.proceed]
        exact .localTaken address rest _ hp hpending hqueue rfl
    case isFalse hpending => cases h; exact .goes _ (.localsDone hp hpending)
  | localHandshake address =>
    simp only [hp] at h
    rcases await_eq_some h with ⟨hl, rfl⟩ | ⟨rule, response, core, ht, rfl⟩
    · exact .goes _ (.handshakeLost address hp hl)
    · exact .handshaken address rule response core hp ht
  | stages =>
    simp only [hp] at h
    split at h
    case isTrue hpending =>
      split at h
      · cases h
      case h_2 info rest hqueue =>
        cases h
        unfold handleDataPlaneSessions submitRule
        rw [registerStage_localSessions]
        cases hl : p.core.localSessions.lookup info.localAddress with
        | none => exact .goes _ (.stageUnknown info rest hp hpending hqueue hl)
        | some session => exact .stageTaken info rest session hp hpending hqueue hl
    case isFalse hpending => cases h; exact .goes _ (.stagesDone hp hpending)
  | markReady info =>
    simp only [hp] at h
    rcases await_eq_some h with ⟨hl, rfl⟩ | ⟨rule, response, core, ht, rfl⟩
    · exact .goes _ (.markLost info hp hl)
    · exact .marked info rule response core hp ht
  | control =>
    simp only [hp] at h
    cases h
    exact .control hp (control_cases p)
  | collect todo collection =>
    simp only [hp] at h
    cases todo with
    | nil => exact collected_cases hp h
    | cons address rest =>
      simp only [Process.collect] at h
      split at h
      case isTrue hcollects =>
        rcases await_eq_some h with ⟨hl, rfl⟩ | ⟨rule, response, core, ht, rfl⟩
        · exact .goes _ (.collectLost address rest collection hp hcollects hl)
        · split
          case h_1 core' collection' hok =>
            exact .collectResult address rule rest collection collection' response core core' hp
              hcollects ht hok
          case h_2 fault herr =>
            exact .collectFault address rule rest collection response core fault hp hcollects ht herr
      case isFalse hcollects => cases h; exact .goes _ (.collectSkip address rest collection hp hcollects)
  | compute dStats =>
    simp only [hp] at h
    cases h
    unfold Process.compute
    split
    case h_1 core updated hok => exact .computed dStats core updated hp hok
    case h_2 fault herr => exact .goes _ (.computeFault dStats fault hp herr)
  | enforce todo =>
    cases todo with
    | nil =>
      simp only [hp] at h
      cases h
      exact .goes _ (.enforceDone hp)
    | cons e rest =>
      obtain ⟨job, address⟩ := e
      simp only [hp] at h
      rcases await_eq_some h with ⟨hl, rfl⟩ | ⟨rule, response, core, ht, rfl⟩
      · exact .goes _ (.enforceLost job address rest hp hl)
      · exact .enforced job address rule rest response core hp ht
  | finish =>
    simp only [hp] at h
    cases h
    exact .finished hp
  | exited => simp only [hp] at h; cases h
  | crashed fault => simp only [hp] at h; cases h

theorem loop_erasing (h : p.Erasing) : p.loop = none := by
  obtain ⟨address, herased, hstands⟩ := h
  unfold Point.erased at herased
  split at herased
  case h_1 collection hpoint =>
    simp only [Process.loop, hpoint, Process.collect, Process.collected]
    rw [eraseSessions_eq_none.mpr ⟨address, herased, hstands⟩, Option.map_none]
  case h_2 => cases herased

theorem step_cases {action : Action} (h : p.step action = some q) : Step p action q := by
  cases action with
  | enqueueLocal address => cases h; exact .enqueueLocal address
  | countLocal address =>
    simp only [Process.step, Option.ite_none_right_eq_some] at h
    obtain ⟨hmem, h⟩ := h
    cases h
    exact .countLocal address hmem
  | enqueueStage info => cases h; exact .enqueueStage info
  | countStage =>
    simp only [Process.step, Option.ite_none_right_eq_some] at h
    obtain ⟨hpos, h⟩ := h
    cases h
    exact .countStage hpos
  | enqueueRule rule => cases h; exact .enqueueRule rule
  | serve address reply =>
    simp only [Process.step] at h
    split at h
    · cases h
    case h_2 session hl =>
      obtain ⟨session', hs, rfl⟩ := Option.map_eq_some_iff.mp h
      exact .served address reply session session' hl hs
  | rehash order => cases h; exact .rehash order
  | loop => exact .loop (loop_cases h)

theorem initializeOps_ok {core core' : CoreControlApplication} (h : core.initializeOps = .ok core') :
    ∃ ops op, core' = { core with activeOps := ops, activeOp := op } := by
  obtain ⟨ops, _, h⟩ := Fault.bind_eq_ok.mp h
  obtain ⟨op, _, h⟩ := Fault.bind_eq_ok.mp h
  cases h
  exact ⟨_, _, rfl⟩

def Process.Crashed (p : Process) : Prop := ∃ fault, p.point = .crashed fault

theorem Goes.alive {point : Point} (h : Goes p point) : ¬ p.Crashed := by
  rintro ⟨fault, hf⟩
  cases h <;> simp_all

theorem LoopStep.alive (h : LoopStep p q) : ¬ p.Crashed := by
  rintro ⟨fault, hf⟩
  cases h with
  | goes point h => exact h.alive ⟨fault, hf⟩
  | _ => simp_all

theorem Step.crashed {action : Action} (h : Step p action q) (hp : p.Crashed) : q.Crashed := by
  cases h with
  | loop h => exact absurd hp h.alive
  | _ => exact hp

theorem requestStatistics_tables (subtype : ℤ) (order : List String) (core : CoreControlApplication) :
    ∃ sessions, Process.requestStatistics subtype order core = { core with localSessions := sessions } ∧
      ∀ a, a ∈ sessions ↔ a ∈ core.localSessions := by
  induction order generalizing core with
  | nil => exact ⟨_, rfl, fun _ => Iff.rfl⟩
  | cons address rest ih =>
    unfold Process.requestStatistics
    split
    · exact ih core
    · split
      case h_1 => exact ih core
      case h_2 session hl =>
        obtain ⟨sessions, hs, hmem⟩ := ih { core with
          localSessions := core.localSessions.insert address
            (session.submitRule (collectStatisticsRule subtype)) }
        refine ⟨sessions, hs, fun a => ?_⟩
        rw [hmem, AList.mem_insert]
        constructor
        · rintro (rfl | ha)
          · exact AList.lookup_isSome.mp (by rw [hl]; rfl)
          · exact ha
        · exact .inr

theorem requestStatistics_lookup (subtype : ℤ) {order : List String} (h : order.Nodup)
    (core : CoreControlApplication) (a : String) :
    (Process.requestStatistics subtype order core).localSessions.lookup a =
      (core.localSessions.lookup a).map fun session =>
        if a ∈ order ∧ core.stagesOf a ≠ [] then session.submitRule (collectStatisticsRule subtype)
        else session := by
  induction order generalizing core with
  | nil =>
    simp only [Process.requestStatistics, List.not_mem_nil, false_and, if_false]
    exact Option.map_id'.symm
  | cons address rest ih =>
    obtain ⟨hnotin, hnodup⟩ := List.nodup_cons.mp h
    unfold Process.requestStatistics
    by_cases hs : core.stagesOf address = []
    · rw [if_pos hs, ih hnodup]
      congr 1
      funext session
      by_cases ha : a = address <;> simp [ha, hs]
    · rw [if_neg hs]
      refine (ih hnodup _).trans ?_
      by_cases ha : a = address
      · subst ha
        cases hl : core.localSessions.lookup a with
        | none => simp [hl]
        | some session => simp [hnotin, hs, AList.lookup_insert]
      · cases hl : core.localSessions.lookup address with
        | none => simp only [List.mem_cons, ha, false_or]
        | some session =>
          simp only [List.mem_cons, ha, false_or, AList.lookup_insert_ne ha]
          rfl

theorem stagesOf_emplace (core : CoreControlApplication) (address a : String) :
    ((core.localToStages.emplace address []).lookup a).getD [] = core.stagesOf a := by
  rw [Assoc.lookup_emplace]
  split
  case isTrue h => rw [h]; rfl
  case isFalse => rfl

theorem mem_sessionOrder {core : CoreControlApplication} {address : String} :
    address ∈ Process.sessionOrder core ↔ address ∈ core.localSessions := by
  rw [Process.sessionOrder, (core.hash.perm _ _).mem_iff, AList.mem_keys]

theorem sessionOrder_nodup (core : CoreControlApplication) : (Process.sessionOrder core).Nodup :=
  (core.hash.perm _ _).nodup_iff.mpr core.localSessions.keys_nodup

theorem Controls.tables (h : Controls p q) :
    ∃ sessions, q.core = { p.core with localSessions := sessions } ∧
      ∀ a, a ∈ sessions ↔ a ∈ p.core.localSessions := by
  cases h with
  | requested htype => exact requestStatistics_tables _ _ _
  | sent htype hround => exact requestStatistics_tables _ _ _
  | _ => exact ⟨_, rfl, fun _ => Iff.rfl⟩

theorem Controls.point (h : Controls p q) :
    q.point = .finish ∨ q.point = .collect (Process.sessionOrder p.core) .empty := by
  cases h <;> simp

theorem Takes.tables {address rule : String} {response : StageResponse} {core : CoreControlApplication}
    (h : Takes p address rule response core) : core = { p.core with localSessions := core.localSessions } := by
  obtain ⟨_, _, _, _, rfl⟩ := h
  rfl

structure Still (core core' : CoreControlApplication) : Prop where
  localQueue : core'.localQueue = core.localQueue
  localToDataQueue : core'.localToDataQueue = core.localToDataQueue
  controlType : core'.controlType = core.controlType
  maximumLimit : core'.maximumLimit = core.maximumLimit
  housekeepingRules : core'.housekeepingRules = core.housekeepingRules
  localSessions : ∀ address, address ∈ core'.localSessions ↔ address ∈ core.localSessions
  stagesOf : ∀ address, core'.stagesOf address = core.stagesOf address
  jobLocationTracker : core'.jobLocationTracker = core.jobLocationTracker

theorem mem_insert_of_lookup {sessions : Assoc String LocalControllerSession} {address : String}
    {session : LocalControllerSession} (h : sessions.lookup address = some session)
    (session' : LocalControllerSession) (a : String) : a ∈ sessions.insert address session' ↔ a ∈ sessions := by
  rw [AList.mem_insert, or_iff_right_of_imp]
  rintro rfl
  exact AList.lookup_isSome.mp (by rw [h]; rfl)

theorem Takes.mem_localSessions {address rule : String} {response : StageResponse}
    {core : CoreControlApplication} (h : Takes p address rule response core) (a : String) :
    a ∈ core.localSessions ↔ a ∈ p.core.localSessions := by
  obtain ⟨session, session', hl, _, rfl⟩ := h
  exact mem_insert_of_lookup hl session' a

namespace Still

variable {core core' core'' : CoreControlApplication}

theorem refl (core : CoreControlApplication) : Still core core :=
  ⟨rfl, rfl, rfl, rfl, rfl, fun _ => Iff.rfl, fun _ => rfl, rfl⟩

theorem trans (h : Still core core') (h' : Still core' core'') : Still core core'' where
  localQueue := h'.localQueue.trans h.localQueue
  localToDataQueue := h'.localToDataQueue.trans h.localToDataQueue
  controlType := h'.controlType.trans h.controlType
  maximumLimit := h'.maximumLimit.trans h.maximumLimit
  housekeepingRules := h'.housekeepingRules.trans h.housekeepingRules
  localSessions address := (h'.localSessions address).trans (h.localSessions address)
  stagesOf address := (h'.stagesOf address).trans (h.stagesOf address)
  jobLocationTracker := h'.jobLocationTracker.trans h.jobLocationTracker

theorem of_frame (h : Frame core core') : Still core core' :=
  ⟨h.localQueue, h.localToDataQueue, h.controlType, h.maximumLimit, h.housekeepingRules,
    h.localSessions, h.stagesOf, h.jobLocationTracker⟩

end Still

theorem Takes.still {address rule : String} {response : StageResponse} {core : CoreControlApplication}
    (h : Takes p address rule response core) : Still p.core core := by
  have hsessions := h.mem_localSessions
  rw [h.tables] at hsessions ⊢
  exact ⟨rfl, rfl, rfl, rfl, rfl, hsessions, fun _ => rfl, rfl⟩

inductive CoreStep (p q : Process) : Prop
  | still (h : Still p.core q.core)
  | localTaken (address : String) (rest : List String) (session : LocalControllerSession)
      (hpoint : p.point = .locals) (hqueue : p.core.localQueue = address :: rest)
      (h : Still { p.core with
        localQueue := rest
        localSessions := p.core.localSessions.insert address session } q.core)
  | stageTaken (info : StageInfo) (rest : List StageInfo) (hpoint : p.point = .stages)
      (hqueue : p.core.localToDataQueue = info :: rest) (hsession : info.localAddress ∈ p.core.localSessions)
      (h : Still { p.core with
        localToDataQueue := rest
        localToStages := (registerStage info p.core).localToStages
        jobLocationTracker := (registerStage info p.core).jobLocationTracker } q.core)
  | collected (address : String) (response : StageResponse) (rest : List String)
      (collection collection' : Collection) (core : CoreControlApplication)
      (hpoint : p.point = .collect (address :: rest) collection) (hcore : Still p.core core)
      (h : collectStatisticsResult address response collection core = .ok (q.core, collection'))

theorem LoopStep.coreStep (h : LoopStep p q) : CoreStep p q := by
  cases h with
  | goes point h => exact .still (.refl _)
  | localTaken address rest session hpoint hpending hqueue hsession =>
    refine .localTaken address rest session hpoint hqueue
      ⟨rfl, rfl, rfl, rfl, rfl, fun a => ?_, stagesOf_emplace p.core address, rfl⟩
    rw [AList.mem_insert, AList.mem_insert, ← AList.lookup_isSome, Assoc.lookup_emplace]
    by_cases ha : a = address
    · simp [ha]
    · rw [if_neg ha, AList.lookup_isSome]
  | handshaken address rule response core hpoint htakes =>
    exact .still (htakes.still.trans ⟨rfl, rfl, rfl, rfl, rfl, fun _ => Iff.rfl, fun _ => rfl, rfl⟩)
  | stageTaken info rest session hpoint hpending hqueue hsession =>
    obtain ⟨_, _, _, hjob⟩ := emplaceJob_frame info.stageName { p.core with
      localToDataQueue := rest
      pendingDataPlaneSessions := p.core.pendingDataPlaneSessions - 1 }
    refine .stageTaken info rest hpoint hqueue (AList.lookup_isSome.mp (by rw [hsession]; rfl)) ?_
    simp only [registerStage, hjob]
    exact ⟨rfl, rfl, rfl, rfl, rfl, mem_insert_of_lookup hsession _, fun _ => rfl, rfl⟩
  | marked info rule response core hpoint htakes =>
    exact .still (htakes.still.trans ⟨rfl, rfl, rfl, rfl, rfl, fun _ => Iff.rfl, fun _ => rfl, rfl⟩)
  | control hpoint h =>
    obtain ⟨sessions, hcore, hmem⟩ := h.tables
    apply CoreStep.still
    rw [hcore]
    exact ⟨rfl, rfl, rfl, rfl, rfl, hmem, fun _ => rfl, rfl⟩
  | collectDone collection active point hpoint hgone hactive hnext =>
    exact .still ⟨rfl, rfl, rfl, rfl, rfl, fun _ => Iff.rfl, fun _ => rfl, rfl⟩
  | collectResult address rule rest collection collection' response core core' hpoint hcollects htakes h =>
    exact .collected address response rest collection collection' core hpoint htakes.still h
  | collectFault address rule rest collection response core fault hpoint hcollects htakes h =>
    exact .still htakes.still
  | computed dStats core updated hpoint h =>
    exact .still ((Still.of_frame (computeAndEnforce_computes h).frame).trans
      ⟨rfl, rfl, rfl, rfl, rfl, fun _ => Iff.rfl, fun _ => rfl, rfl⟩)
  | enforced job address rule rest response core hpoint htakes => exact .still htakes.still
  | finished hpoint => exact .still ⟨rfl, rfl, rfl, rfl, rfl, fun _ => Iff.rfl, fun _ => rfl, rfl⟩

structure Configured (p q : Process) : Prop where
  controlType : q.core.controlType = p.core.controlType
  maximumLimit : q.core.maximumLimit = p.core.maximumLimit
  housekeepingRules : q.core.housekeepingRules = p.core.housekeepingRules

theorem Step.configured {action : Action} (h : Step p action q) : Configured p q := by
  cases h with
  | loop h =>
    cases h.coreStep with
    | still h => exact ⟨h.controlType, h.maximumLimit, h.housekeepingRules⟩
    | localTaken address rest session hpoint hqueue h =>
      exact ⟨h.controlType, h.maximumLimit, h.housekeepingRules⟩
    | stageTaken info rest hpoint hqueue hsession h =>
      exact ⟨h.controlType, h.maximumLimit, h.housekeepingRules⟩
    | collected address response rest collection collection' core hpoint hcore h =>
      have hf := (collectStatisticsResult_forgets h).frame
      constructor
      · exact (congrArg (·.controlType) hf).trans hcore.controlType
      · exact (congrArg (·.maximumLimit) hf).trans hcore.maximumLimit
      · exact (congrArg (·.housekeepingRules) hf).trans hcore.housekeepingRules
  | _ => exact ⟨rfl, rfl, rfl⟩

end Cheferd.FeedbackLoop
