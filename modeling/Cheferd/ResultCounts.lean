import Cheferd.ResponsePairing

namespace Cheferd.FeedbackLoop

open Library CoreControlApplication LocalControllerSession

variable {p q : Process}

def Unaliased (p : Process) : Action → Prop
  | .loop => p.point.computing = true → p.core.Untangled
  | _ => True

instance : ∀ p action, Decidable (Unaliased p action)
  | _, .loop => inferInstanceAs (Decidable (_ → _))
  | _, .enqueueLocal _ | _, .countLocal _ | _, .enqueueStage _ | _, .countStage | _, .enqueueRule _
  | _, .serve _ _ | _, .rehash _ => inferInstanceAs (Decidable True)

namespace Process

def due (p : Process) (address : String) : ℕ :=
  match p.point with
  | .localHandshake a => (p.openRequest address).length + if address = a then 1 else 0
  | .markReady info => (p.openRequest address).length + if address = info.localAddress then 1 else 0
  | .collect todo _ => if address ∈ todo ∧ p.collects address then 1 else 0
  | .compute _ => 0
  | .enforce todo => (todo.filter (·.2 = address)).length
  | _ => (p.openRequest address).length

def Counts (p : Process) (address : String) (outstanding : List String) : Prop :=
  outstanding.length = p.due address ∧ ∀ rule ∈ outstanding, Supported rule

end Process

structure Accounted (p : Process) : Prop where
  holds : Holds p.core.localSessions p.Counts
  collecting : ∀ todo collection, p.point = .collect todo collection → todo.Nodup
  enforcing : ∀ todo, p.point = .enforce todo → p.roundsCounter = 0

theorem Process.Counts.nil {address : String} {outstanding : List String} (h : p.Counts address outstanding)
    (hdue : p.due address = 0) : outstanding = [] :=
  List.length_eq_zero_iff.mp (h.1.trans hdue)

theorem Accounted.of_point (h : Holds q.core.localSessions q.Counts)
    (hcollecting : ∀ todo collection, q.point ≠ .collect todo collection)
    (henforcing : ∀ todo, q.point ≠ .enforce todo) : Accounted q :=
  ⟨h, fun todo collection hq => absurd hq (hcollecting todo collection),
    fun todo hq => absurd hq (henforcing todo)⟩

theorem supported_handshake (core : CoreControlApplication) : Supported core.localHandshakeRule := by
  intro reply
  rw [sendRule_handshake]
  rfl

theorem supported_stageReady (info : StageInfo) : Supported (stageReadyRule info) := fun reply => by
  rw [sendRule_stageReady]
  rfl

theorem supported_collectStatistics {subtype : ℤ} (h : subtype = 5 ∨ subtype = 6) :
    Supported (collectStatisticsRule subtype) := fun reply => by
  rw [sendRule_collectStatistics h]
  rfl

theorem supported_request (rule : EnforcementRule) (address : String) : Supported (rule.request address) :=
  fun reply => by
    rw [sendRule_enforcement]
    rfl

theorem Holds.pushed {sessions sessions' : Assoc String LocalControllerSession}
    {session : LocalControllerSession}
    {address : String} {expected expected' : String → List String → Prop} (h : Holds sessions expected)
    (rule : String) (hsession : session = (sessions.lookup address).getD .new)
    (hlookup : ∀ a, sessions'.lookup a =
      if a = address then some (session.submitRule rule) else sessions.lookup a)
    (hnew : sessions.lookup address = none → expected address [])
    (hpushed : ∀ outstanding, expected address outstanding → expected' address (outstanding ++ [rule]))
    (hsame : ∀ a outstanding, a ≠ address → expected a outstanding → expected' a outstanding) :
    Holds sessions' expected' := by
  have hfound : expected address session.outstanding ∧ ∀ e ∈ session.completionQueue, Answers e.1 e.2 := by
    cases hl : sessions.lookup address with
    | none =>
      rw [hsession, hl]
      exact ⟨hnew hl, fun e he => absurd he List.not_mem_nil⟩
    | some found =>
      rw [hsession, hl]
      exact h address found hl
  intro a other ho
  rw [hlookup] at ho
  by_cases ha : a = address
  · rw [if_pos ha] at ho
    cases ho
    subst ha
    rw [outstanding_submitRule]
    exact ⟨hpushed _ hfound.1, hfound.2⟩
  · rw [if_neg ha] at ho
    exact ⟨hsame a _ ha (h a other ho).1, (h a other ho).2⟩

theorem Takes.counts {address rule : String} {response : StageResponse} {core : CoreControlApplication}
    (htakes : Takes p address rule response core) (h : Holds p.core.localSessions p.Counts)
    (hless : q.due address + 1 = p.due address) (hsame : ∀ a ≠ address, q.due a = p.due a)
    (hcore : q.core.localSessions = core.localSessions) : Holds q.core.localSessions q.Counts := by
  obtain ⟨rest, hrest, -, hq⟩ := htakes.holds h
  rw [hcore]
  refine hq.mono (fun _ _ hs => hs) fun a outstanding _ ho => ?_
  by_cases ha : a = address
  · rw [if_pos ha] at ho
    subst ha
    rw [ho]
    have hlength := hrest.1
    rw [List.length_cons] at hlength
    exact ⟨by omega, fun rule' hr => hrest.2 rule' (List.mem_cons_of_mem _ hr)⟩
  · rw [if_neg ha] at ho
    exact ⟨ho.1.trans (hsame a ha).symm, ho.2⟩

theorem openRequest_of_lost (hidle : p.core.controlType ≠ .dynamicLeftover → p.roundsCounter = 0)
    (hcovered : p.core.controlType = .dynamicLeftover → Covered p) (hhosted : Hosted p) {address : String}
    (hcollect : ∀ todo collection, p.point ≠ .collect todo collection)
    (hcompute : ∀ dStats, p.point ≠ .compute dStats) (halive : ¬ p.Crashed)
    (hlost : p.core.localSessions.lookup address = none) : p.openRequest address = [] := by
  unfold Process.openRequest
  rw [if_neg]
  rintro ⟨hround, hsent⟩
  have htype : p.core.controlType = .dynamicLeftover := by
    by_contra hne
    exact hround (hidle hne)
  have hstages := (hcovered htype).waiting hcollect hcompute halive hround address hsent
  exact AList.lookup_eq_none.mp hlost (hhosted.hosts address hstages)

theorem Accounted.served {address : String} {session session' : LocalControllerSession} {reply : Reply}
    (hp : Accounted p) (hsession : p.core.localSessions.lookup address = some session)
    (hserve : session.serve reply = some session') : Accounted { p with
      core := { p.core with localSessions := p.core.localSessions.insert address session' } } :=
  ⟨hp.holds.served (fun _ ho => ho.2) hsession hserve, hp.collecting, hp.enforcing⟩

theorem Accounted.localTaken {address : String} {rest : List String} {session : LocalControllerSession}
    (hp : Accounted p) (hpoint : p.point = .locals)
    (hlost : p.core.localSessions.lookup address = none → p.openRequest address = [])
    (hsession : session = (p.core.localSessions.lookup address).getD .new) : Accounted { p with
      core := { p.core with
        localQueue := rest
        pendingLocalControllerSessions := p.core.pendingLocalControllerSessions - 1
        localSessions := (p.core.localSessions.emplace address .new).insert address
          (session.submitRule p.core.localHandshakeRule)
        localToStages := p.core.localToStages.emplace address [] }
      point := .localHandshake address } := by
  have hdue : ∀ a, p.due a = (p.openRequest a).length := fun a => by simp only [Process.due, hpoint]
  refine .of_point (hp.holds.pushed p.core.localHandshakeRule hsession (fun a => ?_) (fun hl => ?_)
    (fun outstanding ho => ?_)
    fun a outstanding ha ho => ?_) (by simp) (by simp)
  · rw [Assoc.lookup_insert_eq]
    by_cases ha : a = address
    · rw [if_pos ha, if_pos ha]
    · rw [if_neg ha, if_neg ha, Assoc.lookup_emplace, if_neg ha]
  · exact ⟨by rw [hdue, hlost hl], fun _ hr => absurd hr List.not_mem_nil⟩
  · refine ⟨?_, fun rule hr => ?_⟩
    · rw [List.length_append, ho.1, hdue]
      simp only [Process.due, if_true]
      rfl
    · rcases List.mem_append.mp hr with hr | hr
      · exact ho.2 rule hr
      · rw [List.mem_singleton.mp hr]
        exact supported_handshake p.core
  · refine ⟨?_, ho.2⟩
    rw [ho.1, hdue]
    simp only [Process.due, if_neg ha]
    rfl

theorem Accounted.stageTaken {info : StageInfo} {rest : List StageInfo} {session : LocalControllerSession}
    (hp : Accounted p) (hpoint : p.point = .stages)
    (hsession : p.core.localSessions.lookup info.localAddress = some session) : Accounted { p with
      core := { registerStage info { p.core with
          localToDataQueue := rest
          pendingDataPlaneSessions := p.core.pendingDataPlaneSessions - 1 } with
        localSessions := p.core.localSessions.insert info.localAddress
          (session.submitRule (stageReadyRule info)) }
      point := .markReady info } := by
  have hdue : ∀ a, p.due a = (p.openRequest a).length := fun a => by simp only [Process.due, hpoint]
  refine .of_point (hp.holds.pushed (stageReadyRule info) (by rw [hsession]; rfl)
    (Assoc.lookup_insert_eq info.localAddress · (session.submitRule (stageReadyRule info)) p.core.localSessions)
    (fun hl => ?_) (fun outstanding ho => ?_) fun a outstanding ha ho => ?_) (by simp) (by simp)
  · rw [hsession] at hl
    cases hl
  · refine ⟨?_, fun rule hr => ?_⟩
    · rw [List.length_append, ho.1, hdue]
      simp only [Process.due, if_true]
      rfl
    · rcases List.mem_append.mp hr with hr | hr
      · exact ho.2 rule hr
      · rw [List.mem_singleton.mp hr]
        exact supported_stageReady info
  · refine ⟨?_, ho.2⟩
    rw [ho.1, hdue]
    simp only [Process.due, if_neg ha]
    rfl

theorem Accounted.handshaken {address rule : String} {response : StageResponse} {core : CoreControlApplication}
    (hp : Accounted p) (hpoint : p.point = .localHandshake address)
    (htakes : Takes p address rule response core) :
    Accounted { p with
      core := { core with activeLocalControllerSessions := core.activeLocalControllerSessions + 1 }
      point := .locals } := by
  have hdue : ∀ a, p.due a = (p.openRequest a).length + if a = address then 1 else 0 :=
    fun a => by simp only [Process.due, hpoint]
  refine .of_point (htakes.counts hp.holds ?_ (fun a ha => ?_) rfl) (by simp) (by simp)
  · rw [hdue, if_pos rfl]
    rfl
  · rw [hdue, if_neg ha]
    rfl

theorem Accounted.marked {info : StageInfo} {rule : String} {response : StageResponse}
    {core : CoreControlApplication}
    (hp : Accounted p) (hpoint : p.point = .markReady info)
    (htakes : Takes p info.localAddress rule response core) :
    Accounted { p with core := stageMarked info response core, point := .stages } := by
  have hdue : ∀ a, p.due a = (p.openRequest a).length + if a = info.localAddress then 1 else 0 :=
    fun a => by simp only [Process.due, hpoint]
  refine .of_point (htakes.counts hp.holds ?_ (fun a ha => ?_) rfl) (by simp) (by simp)
  · rw [hdue, if_pos rfl]
    rfl
  · rw [hdue, if_neg ha]
    rfl

theorem Accounted.control (hp : Accounted p) (hpoint : p.point = .control) (hcontrols : Controls p q)
    (hidle : p.core.controlType ≠ .dynamicLeftover → p.roundsCounter = 0)
    (hcovered : p.core.controlType = .dynamicLeftover → Covered p) (halive : ¬ p.Crashed) : Accounted q := by
  have hdue : ∀ a, p.due a = (p.openRequest a).length := fun a => by simp only [Process.due, hpoint]
  have hfree : p.roundsCounter = 0 → ∀ a outstanding, p.Counts a outstanding → outstanding = [] :=
    fun hround a outstanding ho => ho.nil (by rw [hdue, Process.openRequest_nil hround]; rfl)
  cases hcontrols with
  | requested htype =>
    have hne : p.core.controlType ≠ .dynamicLeftover := by
      rintro he
      simp [he] at htype
    have hq := hp.holds.requested (hfree (hidle hne)) 5
    obtain ⟨sessions, hcore, _⟩ := requestStatistics_tables 5 (Process.sessionOrder p.core) p.core
    refine ⟨hq.mono (fun _ _ hs => hs) fun a outstanding _ ho => ?_, ?_, by simp⟩
    · obtain ⟨hmem, rfl⟩ := ho
      have hcollects : (Process.collects { p with
          core := Process.requestStatistics 5 (Process.sessionOrder p.core) p.core
          point := .collect (Process.sessionOrder p.core) .empty } a = true) ↔ p.core.stagesOf a ≠ [] := by
        simp [Process.collects, hcore, hne, stagesOf]
      refine ⟨?_, fun rule hr => ?_⟩
      · simp only [Process.due, hmem, true_and, hcollects]
        split <;> rfl
      · split at hr
        · rw [List.mem_singleton.mp hr]
          exact supported_collectStatistics (.inl rfl)
        · cases hr
    · rintro _ _ ⟨⟩
      exact sessionOrder_nodup p.core
  | sent htype hround =>
    have hq := hp.holds.requested (hfree hround) 6
    refine .of_point (hq.mono (fun _ _ hs => hs) fun a outstanding _ ho => ?_) (by simp) (by simp)
    obtain ⟨hmem, rfl⟩ := ho
    refine ⟨?_, fun rule hr => ?_⟩
    · simp only [Process.due, Process.openRequest, List.mem_filter, hmem, true_and, decide_eq_true_eq, ne_eq,
        one_ne_zero, not_false_eq_true]
    · split at hr
      · rw [List.mem_singleton.mp hr]
        exact supported_collectStatistics (.inr rfl)
      · cases hr
  | counted htype hround =>
    refine .of_point (hp.holds.mono (fun _ _ hs => hs) fun a outstanding _ ho =>
      ⟨ho.1.trans ?_, ho.2⟩) (by simp)
      (by simp)
    rw [hdue]
    simp [Process.due, Process.openRequest, hround]
  | gathered htype hround =>
    have hne : p.roundsCounter ≠ 0 := by
      intro h0
      rw [h0] at hround
      cases hround
    have hstages := (hcovered htype).waiting (by simp [hpoint]) (by simp [hpoint]) halive hne
    refine ⟨hp.holds.mono (fun _ _ hs => hs) fun a outstanding ha ho => ⟨ho.1.trans ?_, ho.2⟩, ?_, by simp⟩
    · have hmem : a ∈ Process.sessionOrder p.core := mem_sessionOrder.mpr ha
      rw [hdue]
      by_cases hsent : a ∈ p.sessionsSent
      · simp [Process.due, Process.openRequest, Process.collects, hmem, hne, hsent, hstages a hsent]
      · simp [Process.due, Process.openRequest, Process.collects, htype, hsent]
    · rintro _ _ ⟨⟩
      exact sessionOrder_nodup p.core
  | idle htype =>
    exact .of_point (hp.holds.mono (fun _ _ hs => hs) fun a outstanding _ ho =>
      ⟨ho.1.trans (hdue a), ho.2⟩) (by simp)
      (by simp)

theorem Accounted.collectSkip {address : String} {rest : List String} {collection : Collection}
    (hp : Accounted p)
    (hpoint : p.point = .collect (address :: rest) collection) (hskip : ¬ p.collects address = true) :
    Accounted { p with point := .collect rest collection } := by
  refine ⟨hp.holds.mono (fun _ _ hs => hs) fun a outstanding _ ho => ⟨ho.1.trans ?_, ho.2⟩, ?_, by simp⟩
  · simp only [Process.due, hpoint]
    by_cases ha : a = address
    · subst ha
      rw [if_neg fun h => hskip h.2]
      exact (if_neg fun h => hskip h.2).symm
    · simp only [List.mem_cons, ha, false_or]
      rfl
  · rintro _ _ ⟨⟩
    exact (List.nodup_cons.mp (hp.collecting _ _ hpoint)).2

theorem Accounted.collectResult {address rule : String} {rest : List String}
    {collection collection' : Collection}
    {response : StageResponse} {core core' : CoreControlApplication} (hp : Accounted p)
    (hpoint : p.point = .collect (address :: rest) collection) (hcollects : p.collects address = true)
    (htakes : Takes p address rule response core)
    (h : collectStatisticsResult address response collection core = .ok (core', collection')) :
    Accounted { p with core := core', point := .collect rest collection' } := by
  obtain ⟨hnotin, hnodup⟩ := List.nodup_cons.mp (hp.collecting _ _ hpoint)
  obtain ⟨_, _, _, hpurged, hstages, _⟩ := collectStatisticsResult_ok h
  have htype : core'.controlType = p.core.controlType := by
    rw [show core'.controlType = core.controlType from
      congrArg (·.controlType) (collectStatisticsResult_forgets h).frame, htakes.tables]
  refine ⟨htakes.counts hp.holds ?_ (fun a ha => ?_) hpurged.localSessions, ?_, by simp⟩
  · simp only [Process.due, hpoint, hcollects, List.mem_cons_self, and_self, if_true]
    rw [if_neg fun h => hnotin h.1]
  · have hstages' : core'.stagesOf a = p.core.stagesOf a := by
      rw [hstages, if_neg ha, htakes.tables]
      rfl
    simp only [Process.due, hpoint, List.mem_cons, ha, false_or, Process.collects, hstages', htype]
  · rintro _ _ ⟨⟩
    exact hnodup

theorem Accounted.collectDone {collection : Collection} {active : ℤ} {point : Point} (hp : Accounted p)
    (hpoint : p.point = .collect [] collection)
    (hnext : point = .finish ∧ p.core.controlType = .static ∨ point = .compute collection.collectedStats)
    (hidle : p.core.controlType ≠ .dynamicLeftover → p.roundsCounter = 0) :
    Accounted { p with core := { p.core with activeLocalControllerSessions := active }, point := point } := by
  have hdue : ∀ a, p.due a = 0 := fun a => by simp [Process.due, hpoint]
  have hdue' : ∀ a, Process.due
      { p with core := { p.core with activeLocalControllerSessions := active }, point := point } a = 0 := by
    intro a
    rcases hnext with ⟨rfl, htype⟩ | rfl
    · have hnil := Process.openRequest_nil (hidle (by simp [htype])) a
      exact List.length_eq_zero_iff.mpr hnil
    · rfl
  refine .of_point (hp.holds.mono (fun _ _ hs => hs) fun a outstanding _ ho =>
    ⟨ho.1.trans ((hdue a).trans (hdue' a).symm), ho.2⟩) ?_ ?_
  all_goals rcases hnext with ⟨rfl, _⟩ | rfl <;> simp

theorem Accounted.enforced {job address rule : String} {rest : List (String × String)}
    {response : StageResponse}
    {core : CoreControlApplication} (hp : Accounted p) (hpoint : p.point = .enforce ((job, address) :: rest))
    (htakes : Takes p address rule response core) :
    Accounted { p with core := core, point := .enforce rest } := by
  refine ⟨htakes.counts hp.holds ?_ (fun a ha => ?_) rfl, by simp, ?_⟩
  · simp [Process.due, hpoint]
  · simp [Process.due, hpoint, Ne.symm ha]
  · rintro _ ⟨⟩
    exact hp.enforcing _ hpoint

theorem Accounted.computed {dStats : Assoc String Rates} {core : CoreControlApplication} {updated : List String}
    (hp : Accounted p) (hpoint : p.point = .compute dStats)
    (h : computeAndEnforce dStats p.sessionsSent p.core = .ok (core, updated)) (huntangled : p.core.Untangled) :
    Accounted { p with
      core := { core with history := .computed :: core.history }
      point := .enforce (waitList core updated)
      roundsCounter := 0 } := by
  have hcomputes := computeAndEnforce_computes h
  obtain ⟨core₁, operation, rules, hprepared, hr⟩ := hcomputes.requests
  have hwait := waitList_filter hr hcomputes.frame huntangled
  have hq := hp.holds.ruled (fun _ _ ho => ho.nil (by simp only [Process.due, hpoint])) hprepared hr
  refine ⟨hq.mono (fun _ _ hs => hs) fun a _ _ ho => ?_, by simp, by simp⟩
  subst ho
  refine ⟨?_, fun rule hrule => ?_⟩
  · simp only [Process.due, hwait a, List.length_map]
  · obtain ⟨own, -, rfl⟩ := List.mem_map.mp hrule
    exact supported_request own a

theorem Accounted.moved {point : Point} (hp : Accounted p)
    (hdue : ∀ a, p.due a = Process.due { p with point := point } a)
    (hcollecting : ∀ todo collection, point ≠ .collect todo collection)
    (henforcing : ∀ todo, point ≠ .enforce todo) : Accounted { p with point := point } :=
  .of_point (hp.holds.mono (fun _ _ hs => hs) fun a _ _ ho => ⟨ho.1.trans (hdue a), ho.2⟩) hcollecting
    henforcing

theorem Accounted.step {action : Action} (h : Step p action q) (hallowed : Unaliased p action)
    (hidle : p.core.controlType ≠ .dynamicLeftover → p.roundsCounter = 0)
    (hcovered : p.core.controlType = .dynamicLeftover → Covered p) (hhosted : Hosted p) (hp : Accounted p) :
    q.Crashed ∨ Accounted q := by
  cases h with
  | served address reply session session' hsession hserve => exact .inr (hp.served hsession hserve)
  | loop h =>
    have halive := h.alive
    cases h with
    | goes point h =>
      cases h with
      | started hpoint | entered hpoint | exited hpoint | localsDone hpoint | stagesDone hpoint =>
        exact .inr (hp.moved (fun a => by simp only [Process.due, hpoint]; rfl) (by simp) (by simp))
      | collectSkip address rest collection hpoint h => exact .inr (hp.collectSkip hpoint h)
      | enforceDone hpoint =>
        have hnil := Process.openRequest_nil (hp.enforcing _ hpoint)
        refine .inr (hp.moved (fun a => ?_) (by simp) (by simp))
        simp only [Process.due, hpoint]
        exact (List.length_eq_zero_iff.mpr (hnil a)).symm
      | _ => exact .inl ⟨_, rfl⟩
    | localTaken address rest session hpoint hpending hqueue hsession =>
      exact .inr (hp.localTaken hpoint (openRequest_of_lost hidle hcovered hhosted (by simp [hpoint])
        (by simp [hpoint]) halive) hsession)
    | handshaken address rule response core hpoint htakes => exact .inr (hp.handshaken hpoint htakes)
    | stageTaken info rest session hpoint hpending hqueue hsession => exact .inr (hp.stageTaken hpoint hsession)
    | marked info rule response core hpoint htakes => exact .inr (hp.marked hpoint htakes)
    | control hpoint h => exact .inr (hp.control hpoint h hidle hcovered halive)
    | collectDone collection active point hpoint hgone hactive hnext =>
      exact .inr (hp.collectDone hpoint hnext hidle)
    | collectResult address rule rest collection collection' response core core' hpoint hcollects htakes h =>
      exact .inr (hp.collectResult hpoint hcollects htakes h)
    | collectFault address rule rest collection response core fault hpoint hcollects htakes h =>
      exact .inl ⟨fault, rfl⟩
    | computed dStats core updated hpoint h =>
      exact .inr (hp.computed hpoint h (hallowed (by rw [hpoint]; rfl)))
    | enforced job address rule rest response core hpoint htakes => exact .inr (hp.enforced hpoint htakes)
    | finished hpoint =>
      refine .inr (.of_point (hp.holds.mono (fun _ _ hs => hs) fun a outstanding _ ho => ⟨ho.1.trans ?_, ho.2⟩)
        (by simp) (by simp))
      simp only [Process.due, hpoint]
      rfl
  | _ => exact .inr ⟨hp.holds, hp.collecting, hp.enforcing⟩

theorem accounted_reach (h : machine.Reach Unaliased p) : p.Crashed ∨ Accounted p := by
  induction h with
  | start h =>
    obtain ⟨_, _, _, _, core, hops, rfl⟩ := h
    obtain ⟨ops, op, rfl⟩ := initializeOps_ok hops
    exact .inr (.of_point (by rintro _ _ ⟨⟩) (by simp [Process.start]) (by simp [Process.start]))
  | step hreach hallowed hstep ih =>
    have hs := step_cases hstep
    rcases ih with hc | hp
    · exact .inl (hs.crashed hc)
    · exact hp.step hs hallowed (idle_reach hreach).1 (covered_reach hreach) (hosted_reach hreach)

end Cheferd.FeedbackLoop
