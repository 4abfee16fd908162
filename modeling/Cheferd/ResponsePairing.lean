import Cheferd.JobTables
import Cheferd.Library.Lists
import Cheferd.RegistryAgreement
import Cheferd.SessionTable

namespace Cheferd

open Library

namespace CoreControlApplication

open LocalControllerSession

def latestRules : List Event → List EnforcementRule
  | .enforced rule :: history => rule :: latestRules history
  | _ => []

theorem latestRules_append (rules : List EnforcementRule) (history : List Event) :
    latestRules ((rules.map .enforced) ++ history) = rules ++ latestRules history := by
  induction rules with
  | nil => rfl
  | cons rule rules ih => simp only [List.map_cons, List.cons_append, latestRules, ih]

theorem sendRule_handshake (core : CoreControlApplication) (reply : Reply) :
    sendRule core.localHandshakeRule reply = some (.ack 11 reply.message) := by
  simp only [sendRule, operationType_handshake]

theorem sendRule_stageReady (info : StageInfo) (reply : Reply) :
    sendRule (stageReadyRule info) reply = some (.ack 1 reply.message) := by
  simp only [sendRule, operationType_stageReady]

theorem sendRule_collectStatistics {subtype : ℤ} (h : subtype = 5 ∨ subtype = 6) (reply : Reply) :
    sendRule (collectStatisticsRule subtype) reply = some (.stats subtype reply.rates) := by
  have htoken : (Strings.parseRule '|' (collectStatisticsRule subtype))[1]?.bind (Decimal.signed 32) =
      some subtype := by
    rcases h with rfl | rfl <;> decide
  simp only [sendRule, operationType_collectStatistics, htoken]
  rcases h with rfl | rfl <;> rfl

theorem sendRule_enforcement (rule : EnforcementRule) (address : String) (reply : Reply) :
    sendRule (rule.request address) reply = some (.ack 6 reply.message) := by
  simp only [sendRule, EnforcementRule.request, operationType_enforcementRule]

def Untangled (core : CoreControlApplication) : Prop :=
  ∀ app ∈ core.jobLocationTracker.entries, ∀ address ∈ app.2.keys,
    ∀ app' ∈ core.jobLocationTracker.entries, ∀ address' ∈ app'.2.keys,
      updatedKey app.1 address = updatedKey app'.1 address' → app.1 = app'.1 ∧ address = address'

instance (core : CoreControlApplication) : Decidable core.Untangled :=
  inferInstanceAs (Decidable (∀ app ∈ core.jobLocationTracker.entries, ∀ address ∈ app.2.keys,
    ∀ app' ∈ core.jobLocationTracker.entries, ∀ address' ∈ app'.2.keys,
      updatedKey app.1 address = updatedKey app'.1 address' → app.1 = app'.1 ∧ address = address'))

theorem waitList_filter {core core₁ core' : CoreControlApplication} {operation : String}
    {rules : List EnforcementRule} {updated : List String}
    (hr : Requests operation core.jobLocationTracker.entries rules (core₁, []) (core', updated))
    (hf : Frame core core') (huntangled : core.Untangled) (address : String) :
    (waitList core' updated).filter (·.2 = address) =
      (rules.filter (address ∈ ·.localToEnvs)).map fun rule => (rule.appName, address) := by
  have hnodup : core.jobLocationTracker.entries.Nodup := List.Nodup.of_map _ core.jobLocationTracker.keys_nodup
  have hmem : ∀ app ∈ core.jobLocationTracker.entries, ∀ a ∈ app.2,
      updatedKey app.1 a ∈ updated ↔ app ∈ rules.map EnforcementRule.app := by
    intro app happ a ha
    have hupdated : updatedKey app.1 a ∈ updated ↔ ∃ rule ∈ rules, ∃ a' ∈ rule.localToEnvs,
        updatedKey rule.appName a' = updatedKey app.1 a := by
      rw [show updated = _ from hr.updated]
      simp [mem_order]
    rw [hupdated]
    constructor
    · rintro ⟨rule, hrule, a', ha', hkey⟩
      have happ' := hr.sublist.subset (List.mem_map_of_mem (f := EnforcementRule.app) hrule)
      have hname := (huntangled _ happ' a' ha' app happ a ha hkey).1
      have hsame : rule.app = app :=
        core.jobLocationTracker.nodupKeys.eq_of_fst_eq happ' happ hname
      exact List.mem_map.mpr ⟨rule, hrule, hsame⟩
    · intro hm
      obtain ⟨rule, hrule, rfl⟩ := List.mem_map.mp hm
      exact ⟨rule, hrule, a, ha, rfl⟩
  have hentry : ∀ app ∈ core.jobLocationTracker.entries,
      (((core.hash.order app.1 app.2.keys).filter (updatedKey app.1 · ∈ updated)).map
          (fun a => (app.1, a))).filter (·.2 = address) =
        if app ∈ rules.map EnforcementRule.app ∧ address ∈ app.2 then [(app.1, address)] else [] := by
    intro app happ
    rw [List.filter_map, List.filter_filter]
    have hcongr : (core.hash.order app.1 app.2.keys).filter (fun a =>
          ((fun e : String × String => decide (e.2 = address)) ∘ fun a => (app.1, a)) a &&
            decide (updatedKey app.1 a ∈ updated)) =
        ((core.hash.order app.1 app.2.keys).filter (· = address)).filter
          fun _ => app ∈ rules.map EnforcementRule.app := by
      rw [List.filter_filter]
      refine List.filter_congr fun a ha => ?_
      rw [Bool.eq_iff_iff]
      simp only [Function.comp_apply, Bool.and_eq_true, decide_eq_true_eq, hmem app happ a (mem_order.mp ha),
        and_comm]
    rw [hcongr, Lists.filter_eq_of_nodup (order_nodup core app.1 app.2)]
    by_cases ha : address ∈ app.2
    · rw [if_pos (mem_order.mpr ha)]
      by_cases hl : app ∈ rules.map EnforcementRule.app
      · rw [if_pos ⟨hl, ha⟩, List.filter_cons_of_pos (by simpa using hl)]
        rfl
      · rw [if_neg fun h => hl h.1, List.filter_cons_of_neg (by simpa using hl)]
        rfl
    · rw [if_neg fun h => ha (mem_order.mp h), if_neg fun h => ha h.2]
      rfl
  calc (waitList core' updated).filter (·.2 = address)
      = core.jobLocationTracker.entries.flatMap fun app =>
          if app ∈ rules.map EnforcementRule.app ∧ address ∈ app.2 then [(app.1, address)] else [] := by
        rw [waitList, hf.jobLocationTracker, hf.hash, List.filter_flatMap]
        exact List.flatMap_congr hentry
    _ = ((core.jobLocationTracker.entries.filter (· ∈ rules.map EnforcementRule.app)).filter
          (address ∈ ·.2)).map fun app => (app.1, address) := by
        rw [Lists.flatMap_ite, List.filter_filter]
        congr 1
        refine List.filter_congr fun app _ => ?_
        rw [Bool.eq_iff_iff]
        simp only [Bool.and_eq_true, decide_eq_true_eq, and_comm]
    _ = (rules.filter (address ∈ ·.localToEnvs)).map fun rule => (rule.appName, address) := by
        rw [Lists.filter_mem_sublist hr.sublist hnodup, List.filter_map, List.map_map]
        rfl

end CoreControlApplication

namespace FeedbackLoop

open CoreControlApplication LocalControllerSession

namespace Process

def subtype (p : Process) : ℤ := if p.core.controlType = .dynamicLeftover then 6 else 5

def ownRule (p : Process) (job address : String) : String :=
  ((latestRules p.core.history.tail).find? (·.appName = job)).elim "" (·.request address)

def openRequest (p : Process) (address : String) : List String :=
  if p.roundsCounter ≠ 0 ∧ address ∈ p.sessionsSent then [collectStatisticsRule 6] else []

def owed (p : Process) (address : String) : List String :=
  match p.point with
  | .localHandshake a => if address = a then [p.core.localHandshakeRule] else p.openRequest address
  | .markReady info => if address = info.localAddress then [stageReadyRule info] else p.openRequest address
  | .collect todo _ => if address ∈ todo ∧ p.collects address then [collectStatisticsRule p.subtype] else []
  | .compute _ => []
  | .enforce todo => (todo.filter (·.2 = address)).map fun e => p.ownRule e.1 address
  | _ => p.openRequest address

def awaits (p : Process) : Option (String × String × (Reply → StageResponse)) :=
  match p.point with
  | .localHandshake address => some (address, p.core.localHandshakeRule, fun reply => .ack 11 reply.message)
  | .markReady info => some (info.localAddress, stageReadyRule info, fun reply => .ack 1 reply.message)
  | .collect (address :: _) _ =>
    if p.collects address then
      some (address, collectStatisticsRule p.subtype, fun reply => .stats p.subtype reply.rates)
    else none
  | .enforce ((job, address) :: _) => some (address, p.ownRule job address, fun reply => .ack 6 reply.message)
  | _ => none

end Process

def Process.taken (p : Process) : Option String :=
  match p.point with
  | .locals => if p.core.pendingLocalControllerSessions > 0 then p.core.localQueue.head? else none
  | .stages =>
    if p.core.pendingDataPlaneSessions > 0 then p.core.localToDataQueue.head?.map (·.localAddress) else none
  | _ => none

/-- No registration goes to a controller with an open statistics request, and no key of
`job_address_updated` stands for two pairs. -/
def Undisturbed (p : Process) : Action → Prop
  | .loop =>
    (∀ address ∈ p.taken, p.openRequest address = []) ∧ (p.point.computing = true → p.core.Untangled)
  | _ => True

instance : ∀ p action, Decidable (Undisturbed p action)
  | _, .loop => inferInstanceAs (Decidable (_ ∧ _))
  | _, .enqueueLocal _ | _, .countLocal _ | _, .enqueueStage _ | _, .countStage | _, .enqueueRule _
  | _, .serve _ _ | _, .rehash _ => inferInstanceAs (Decidable True)

variable {p q : Process}

structure Paired (p : Process) : Prop where
  outstanding : ∀ address session, p.core.localSessions.lookup address = some session →
    session.outstanding = p.owed address
  answered : ∀ address session, p.core.localSessions.lookup address = some session →
    ∀ e ∈ session.completionQueue, Answers e.1 e.2
  shaking : ∀ address, p.point = .localHandshake address → p.openRequest address = []
  marking : ∀ info, p.point = .markReady info → p.openRequest info.localAddress = []
  collecting : ∀ todo collection, p.point = .collect todo collection → todo.Nodup
  enforcing : ∀ todo, p.point = .enforce todo → p.roundsCounter = 0 ∧
    ∀ e ∈ todo, e.2 ∈ p.core.localSessions ∧ ∃ rule ∈ latestRules p.core.history.tail, rule.appName = e.1

theorem Process.subtype_cases (p : Process) : p.subtype = 5 ∨ p.subtype = 6 := by
  unfold Process.subtype
  split
  · exact .inr rfl
  · exact .inl rfl

theorem Process.openRequest_supported (p : Process) (address : String) :
    ∀ rule ∈ p.openRequest address, Supported rule := by
  unfold Process.openRequest
  intro rule hr reply
  split at hr
  · rw [List.mem_singleton.mp hr, sendRule_collectStatistics (.inr rfl)]
    rfl
  · cases hr

theorem Process.ownRule_supported {job : String}
    (h : ∃ rule ∈ latestRules p.core.history.tail, rule.appName = job) (address : String) :
    ∃ rule : EnforcementRule, rule.appName = job ∧ p.ownRule job address = rule.request address := by
  unfold Process.ownRule
  cases hf : (latestRules p.core.history.tail).find? (·.appName = job) with
  | none =>
    obtain ⟨rule, hr, hname⟩ := h
    exact absurd hname (by simpa using List.find?_eq_none.mp hf rule hr)
  | some rule => exact ⟨rule, by simpa using List.find?_some hf, rfl⟩

theorem Paired.supported (hp : Paired p) (address : String) : ∀ rule ∈ p.owed address, Supported rule := by
  have hopen := p.openRequest_supported address
  intro rule hr reply
  unfold Process.owed at hr
  split at hr
  · split at hr
    · rw [List.mem_singleton.mp hr, sendRule_handshake]
      rfl
    · exact hopen rule hr reply
  · split at hr
    · rw [List.mem_singleton.mp hr, sendRule_stageReady]
      rfl
    · exact hopen rule hr reply
  · split at hr
    · rw [List.mem_singleton.mp hr, sendRule_collectStatistics p.subtype_cases]
      rfl
    · cases hr
  · cases hr
  case h_5 todo hpoint =>
    obtain ⟨e, he, rfl⟩ := List.mem_map.mp hr
    obtain ⟨_, hown⟩ := (hp.enforcing todo hpoint).2 e (List.mem_of_mem_filter he)
    obtain ⟨rule, _, hrequest⟩ := p.ownRule_supported hown address
    rw [hrequest, sendRule_enforcement]
    rfl
  · exact hopen rule hr reply

theorem Paired.holds (hp : Paired p) :
    Holds p.core.localSessions fun address outstanding => outstanding = p.owed address :=
  fun address session hs => ⟨hp.outstanding address session hs, hp.answered address session hs⟩

theorem Paired.of_point (h : Holds q.core.localSessions fun address outstanding => outstanding = q.owed address)
    (hshaking : ∀ address, q.point ≠ .localHandshake address) (hmarking : ∀ info, q.point ≠ .markReady info)
    (hcollecting : ∀ todo collection, q.point = .collect todo collection → todo.Nodup)
    (henforcing : ∀ todo, q.point ≠ .enforce todo) : Paired q where
  outstanding address session hs := (h address session hs).1
  answered address session hs := (h address session hs).2
  shaking address hq := absurd hq (hshaking address)
  marking info hq := absurd hq (hmarking info)
  collecting := hcollecting
  enforcing todo hq := absurd hq (henforcing todo)

theorem Step.idle {action : Action} (h : Step p action q)
    (hp : p.core.controlType ≠ .dynamicLeftover → p.roundsCounter = 0)
    (hq : q.core.controlType ≠ .dynamicLeftover) : q.roundsCounter = 0 := by
  rw [h.configured.controlType] at hq
  have hround := hp hq
  cases h with
  | loop h =>
    cases h with
    | control hpoint h =>
      cases h with
      | requested htype => exact hround
      | idle htype => exact hround
      | _ => exact absurd ‹_› hq
    | computed dStats core updated hpoint h => rfl
    | _ => exact hround
  | _ => exact hround

theorem Step.latest {action : Action} (h : Step p action q) (hp : latestRules p.core.history = []) :
    latestRules q.core.history = [] := by
  cases h.tableStep with
  | kept h henforcing hfinish =>
    rw [h.history]
    exact hp
  | registered info hpoint h =>
    rw [h.history]
    rfl
  | removed todo collection core hpoint hcore h =>
    obtain ⟨infos, hhistory, _⟩ := h.events
    rw [hhistory, hcore.history]
    cases infos with
    | nil => exact hp
    | cons info infos => rfl
  | computed dStats core updated haction hpoint h hcore hnext =>
    rw [hcore]
    rfl
  | finished hpoint hcore hnext =>
    rw [hcore]
    exact hp

theorem idle_reach {allowed : Process → Action → Prop} (h : machine.Reach allowed p) :
    (p.core.controlType ≠ .dynamicLeftover → p.roundsCounter = 0) ∧ latestRules p.core.history = [] := by
  induction h with
  | start h =>
    obtain ⟨_, _, _, _, core, hops, rfl⟩ := h
    obtain ⟨ops, op, rfl⟩ := initializeOps_ok hops
    exact ⟨fun _ => rfl, rfl⟩
  | step _ _ hstep ih =>
    have hs := step_cases hstep
    exact ⟨hs.idle ih.1, hs.latest ih.2⟩

theorem Process.openRequest_nil (h : p.roundsCounter = 0) (address : String) : p.openRequest address = [] := by
  simp [Process.openRequest, h]

theorem Paired.served {address : String} {session session' : LocalControllerSession} {reply : Reply}
    (hp : Paired p) (hsession : p.core.localSessions.lookup address = some session)
    (hserve : session.serve reply = some session') : Paired { p with
      core := { p.core with localSessions := p.core.localSessions.insert address session' } } := by
  have h := hp.holds.served (fun outstanding ho => by rw [ho]; exact hp.supported address) hsession hserve
  refine ⟨fun a other ho => (h a other ho).1, fun a other ho => (h a other ho).2, hp.shaking, hp.marking,
    hp.collecting, fun todo ht => ?_⟩
  obtain ⟨hround, hmem⟩ := hp.enforcing todo ht
  exact ⟨hround, fun e he => ⟨(AList.mem_insert _).mpr (.inr (hmem e he).1), (hmem e he).2⟩⟩

theorem Paired.localTaken {address : String} {rest : List String} {session : LocalControllerSession}
    (hp : Paired p) (hpoint : p.point = .locals) (hfree : p.openRequest address = [])
    (hsession : session = (p.core.localSessions.lookup address).getD .new) : Paired { p with
      core := { p.core with
        localQueue := rest
        pendingLocalControllerSessions := p.core.pendingLocalControllerSessions - 1
        localSessions := (p.core.localSessions.emplace address .new).insert address
          (session.submitRule p.core.localHandshakeRule)
        localToStages := p.core.localToStages.emplace address [] }
      point := .localHandshake address } := by
  have howed : ∀ a, p.owed a = p.openRequest a := fun a => by simp only [Process.owed, hpoint]
  have hlookup : ∀ a, ((p.core.localSessions.emplace address .new).insert address
      (session.submitRule p.core.localHandshakeRule)).lookup a =
        if a = address then some (session.submitRule p.core.localHandshakeRule)
        else p.core.localSessions.lookup a := by
    intro a
    rw [Assoc.lookup_insert_eq]
    by_cases ha : a = address
    · rw [if_pos ha, if_pos ha]
    · rw [if_neg ha, if_neg ha, Assoc.lookup_emplace, if_neg ha]
  have hq := (hp.holds.submitted (fun outstanding ho => ho.trans ((howed address).trans hfree))
    hsession hlookup).owing
  refine ⟨fun a other ho => (hq a other ho).1.trans ?_,
    fun a other ho => (hq a other ho).2, ?_, by simp, by simp,
    by simp⟩
  · rw [howed]
    rfl
  · rintro a ⟨⟩
    exact hfree

theorem Paired.stageTaken {info : StageInfo} {rest : List StageInfo} {session : LocalControllerSession}
    (hp : Paired p) (hpoint : p.point = .stages) (hfree : p.openRequest info.localAddress = [])
    (hsession : p.core.localSessions.lookup info.localAddress = some session) : Paired { p with
      core := { registerStage info { p.core with
          localToDataQueue := rest
          pendingDataPlaneSessions := p.core.pendingDataPlaneSessions - 1 } with
        localSessions := p.core.localSessions.insert info.localAddress
          (session.submitRule (stageReadyRule info)) }
      point := .markReady info } := by
  have howed : ∀ a, p.owed a = p.openRequest a := fun a => by simp only [Process.owed, hpoint]
  have hs : session = (p.core.localSessions.lookup info.localAddress).getD .new := by rw [hsession]; rfl
  have hq := (hp.holds.submitted (fun outstanding ho => ho.trans ((howed info.localAddress).trans hfree)) hs
    (Assoc.lookup_insert_eq info.localAddress · (session.submitRule (stageReadyRule info))
    p.core.localSessions)).owing
  refine ⟨fun a other ho => (hq a other ho).1.trans ?_,
    fun a other ho => (hq a other ho).2, by simp, ?_, by simp,
    by simp⟩
  · rw [howed]
    rfl
  · rintro a ⟨⟩
    exact hfree

theorem Takes.settled {address rule own : String} {response : StageResponse} {core : CoreControlApplication}
    (h : Takes p address rule response core) (hp : Paired p) (howed : p.owed address = [own]) :
    Holds core.localSessions fun a outstanding => outstanding = if a = address then [] else p.owed a := by
  obtain ⟨rest, hrest, _, hq⟩ := h.holds hp.holds
  have hnil : rest = [] := by
    rw [howed] at hrest
    exact (List.cons.inj hrest).2
  rw [hnil] at hq
  exact hq.owing

theorem Paired.handshaken {address rule : String} {response : StageResponse} {core : CoreControlApplication}
    (hp : Paired p) (hpoint : p.point = .localHandshake address) (htakes : Takes p address rule response core) :
    Paired { p with
      core := { core with activeLocalControllerSessions := core.activeLocalControllerSessions + 1 }
      point := .locals } := by
  have howed : ∀ a, p.owed a = if a = address then [p.core.localHandshakeRule] else p.openRequest a :=
    fun a => by simp only [Process.owed, hpoint]
  have hq := htakes.settled hp (by rw [howed, if_pos rfl])
  refine .of_point (hq.mono (fun _ _ hs => hs) fun a outstanding _ ho => ho.trans ?_) (by simp)
    (by simp) (by simp)
    (by simp)
  rw [howed]
  by_cases ha : a = address
  · rw [if_pos ha, ha]
    exact (hp.shaking address hpoint).symm
  · rw [if_neg ha, if_neg ha]
    rfl

theorem Paired.marked {info : StageInfo} {rule : String} {response : StageResponse}
    {core : CoreControlApplication}
    (hp : Paired p) (hpoint : p.point = .markReady info)
    (htakes : Takes p info.localAddress rule response core) :
    Paired { p with core := stageMarked info response core, point := .stages } := by
  have howed : ∀ a, p.owed a = if a = info.localAddress then [stageReadyRule info] else p.openRequest a :=
    fun a => by simp only [Process.owed, hpoint]
  have hq := htakes.settled hp (by rw [howed, if_pos rfl])
  refine .of_point (hq.mono (fun _ _ hs => hs) fun a outstanding _ ho => ho.trans ?_) (by simp)
    (by simp) (by simp)
    (by simp)
  rw [howed]
  by_cases ha : a = info.localAddress
  · rw [if_pos ha, ha]
    exact (hp.marking info hpoint).symm
  · rw [if_neg ha, if_neg ha]
    rfl

theorem Paired.control (hp : Paired p) (hpoint : p.point = .control) (hcontrols : Controls p q)
    (hidle : p.core.controlType ≠ .dynamicLeftover → p.roundsCounter = 0)
    (hcovered : p.core.controlType = .dynamicLeftover → Covered p) (halive : ¬ p.Crashed) : Paired q := by
  have howed : ∀ a, p.owed a = p.openRequest a := fun a => by simp only [Process.owed, hpoint]
  cases hcontrols with
  | requested htype =>
    have hne : p.core.controlType ≠ .dynamicLeftover := by
      rintro he
      simp [he] at htype
    have hq := hp.holds.requested
      (fun a outstanding ho => ho.trans ((howed a).trans (Process.openRequest_nil (hidle hne) a))) 5
    obtain ⟨sessions, hcore, _⟩ := requestStatistics_tables 5 (Process.sessionOrder p.core) p.core
    refine .of_point (hq.mono (fun _ _ hs => hs) fun a outstanding _ ho => ho.2.trans ?_) (by simp) (by simp) ?_
      (by simp)
    · have hmem := ho.1
      simp only [Process.owed, Process.collects, Process.subtype, hcore, stagesOf, hmem, hne, true_and,
        false_implies, and_true, decide_eq_true_eq, if_false]
      congr
    · rintro _ _ ⟨⟩
      exact sessionOrder_nodup p.core
  | sent htype hround =>
    have hq := hp.holds.requested
      (fun a outstanding ho => ho.trans ((howed a).trans (Process.openRequest_nil hround a))) 6
    refine .of_point (hq.mono (fun _ _ hs => hs) fun a outstanding _ ho => ho.2.trans ?_) (by simp) (by simp)
      (by simp) (by simp)
    have hmem := ho.1
    simp [Process.owed, Process.openRequest, hmem]
  | counted htype hround =>
    refine .of_point (hp.holds.mono (fun _ _ hs => hs) fun a outstanding _ ho => ho.trans ?_)
      (by simp) (by simp)
      (by simp) (by simp)
    rw [howed]
    simp [Process.owed, Process.openRequest, hround]
  | gathered htype hround =>
    have hne : p.roundsCounter ≠ 0 := by
      intro h0
      rw [h0] at hround
      cases hround
    have hstages := (hcovered htype).waiting (by simp [hpoint]) (by simp [hpoint]) halive hne
    refine .of_point (hp.holds.mono (fun _ _ hs => hs) fun a outstanding ha ho => ho.trans ?_) (by simp)
      (by simp) ?_
      (by simp)
    · have hmem : a ∈ Process.sessionOrder p.core := mem_sessionOrder.mpr ha
      rw [howed]
      by_cases hsent : a ∈ p.sessionsSent
      · simp [Process.owed, Process.openRequest, Process.collects, Process.subtype, hmem, hne, htype, hsent,
          hstages a hsent]
      · simp [Process.owed, Process.openRequest, Process.collects, htype, hsent]
    · rintro _ _ ⟨⟩
      exact sessionOrder_nodup p.core
  | idle htype =>
    exact .of_point (hp.holds.mono (fun _ _ hs => hs) fun a outstanding _ ho => ho.trans (howed a))
      (by simp) (by simp)
      (by simp) (by simp)

theorem Paired.collectSkip {address : String} {rest : List String} {collection : Collection} (hp : Paired p)
    (hpoint : p.point = .collect (address :: rest) collection) (hskip : ¬ p.collects address = true) :
    Paired { p with point := .collect rest collection } := by
  refine ⟨fun a session hs => (hp.outstanding a session hs).trans ?_, hp.answered,
    by simp, by simp, ?_, by simp⟩
  · simp only [Process.owed, hpoint]
    by_cases ha : a = address
    · subst ha
      rw [if_neg fun h => hskip h.2]
      exact (if_neg fun h => hskip h.2).symm
    · simp only [List.mem_cons, ha, false_or]
      rfl
  · rintro _ _ ⟨⟩
    exact (List.nodup_cons.mp (hp.collecting _ _ hpoint)).2

theorem Paired.collectResult {address rule : String} {rest : List String} {collection collection' : Collection}
    {response : StageResponse} {core core' : CoreControlApplication} (hp : Paired p)
    (hpoint : p.point = .collect (address :: rest) collection) (hcollects : p.collects address = true)
    (htakes : Takes p address rule response core)
    (h : collectStatisticsResult address response collection core = .ok (core', collection')) :
    Paired { p with core := core', point := .collect rest collection' } := by
  obtain ⟨hnotin, hnodup⟩ := List.nodup_cons.mp (hp.collecting _ _ hpoint)
  have howed : ∀ a, p.owed a =
      if a ∈ address :: rest ∧ p.collects a then [collectStatisticsRule p.subtype] else [] :=
    fun a => by simp only [Process.owed, hpoint]
  have hq := htakes.settled hp (by rw [howed, if_pos ⟨List.mem_cons_self, hcollects⟩])
  obtain ⟨_, _, _, hpurged, hstages, _⟩ := collectStatisticsResult_ok h
  have htype : core'.controlType = p.core.controlType := by
    rw [show core'.controlType = core.controlType from
      congrArg (·.controlType) (collectStatisticsResult_forgets h).frame, htakes.tables]
  have hstages' : ∀ a ≠ address, core'.stagesOf a = p.core.stagesOf a := fun a ha => by
    rw [hstages, if_neg ha, htakes.tables]
    rfl
  refine ⟨fun a session hs => ?_, fun a session hs => ?_, by simp, by simp, ?_, by simp⟩
  · rw [hpurged.localSessions] at hs
    rw [(hq a session hs).1, howed]
    by_cases ha : a = address
    · subst ha
      rw [if_pos rfl]
      exact (if_neg fun h => hnotin h.1).symm
    · rw [if_neg ha]
      simp only [List.mem_cons, ha, false_or, Process.owed, Process.collects, Process.subtype, hstages' a ha,
        htype]
  · rw [hpurged.localSessions] at hs
    exact (hq a session hs).2
  · rintro _ _ ⟨⟩
    exact hnodup

theorem Paired.collectDone {collection : Collection} {active : ℤ} {point : Point} (hp : Paired p)
    (hpoint : p.point = .collect [] collection)
    (hnext : point = .finish ∧ p.core.controlType = .static ∨ point = .compute collection.collectedStats)
    (hidle : p.core.controlType ≠ .dynamicLeftover → p.roundsCounter = 0) :
    Paired { p with core := { p.core with activeLocalControllerSessions := active }, point := point } := by
  have howed : ∀ a, p.owed a = [] := fun a => by simp [Process.owed, hpoint]
  have howed' : ∀ a, Process.owed
      { p with core := { p.core with activeLocalControllerSessions := active }, point := point } a = [] := by
    intro a
    rcases hnext with ⟨rfl, htype⟩ | rfl
    · exact Process.openRequest_nil (hidle (by simp [htype])) a
    · rfl
  refine ⟨fun a session hs => ?_, hp.answered, ?_, ?_, ?_, ?_⟩
  · rw [hp.outstanding a session hs, howed, howed']
  all_goals rcases hnext with ⟨rfl, _⟩ | rfl <;> simp

theorem Paired.enforced {job address rule : String} {rest : List (String × String)} {response : StageResponse}
    {core : CoreControlApplication} (hp : Paired p) (hpoint : p.point = .enforce ((job, address) :: rest))
    (htakes : Takes p address rule response core) : Paired { p with core := core, point := .enforce rest } := by
  obtain ⟨tail, hr, _, hq⟩ := htakes.holds hp.holds
  replace hq := hq.owing
  have hhistory : core.history = p.core.history := by rw [htakes.tables]
  have howed : ∀ a, p.owed a = (((job, address) :: rest).filter (·.2 = a)).map fun e => p.ownRule e.1 a :=
    fun a => by simp only [Process.owed, hpoint]
  refine ⟨fun a session hs => ?_, fun a session hs => (hq a session hs).2, by simp, by simp, by simp, ?_⟩
  · have howed' : Process.owed { p with core := core, point := .enforce rest } a =
        (rest.filter (·.2 = a)).map fun e => p.ownRule e.1 a := by
      simp only [Process.owed, Process.ownRule, hhistory]
    rw [(hq a session hs).1, howed']
    by_cases ha : a = address
    · subst ha
      rw [if_pos rfl]
      rw [howed, List.filter_cons_of_pos (by simp)] at hr
      exact (List.cons.inj hr).2
    · rw [if_neg ha, howed, List.filter_cons_of_neg (by simpa using fun h => ha h.symm)]
  · rintro _ ⟨⟩
    obtain ⟨hround, hmem⟩ := hp.enforcing _ hpoint
    refine ⟨hround, fun e he => ?_⟩
    obtain ⟨hsession, hrule⟩ := hmem e (List.mem_cons_of_mem _ he)
    refine ⟨Step.mem_localSessions (.loop (.enforced job address rule rest response core hpoint htakes)) e.2
      hsession, ?_⟩
    rw [hhistory]
    exact hrule

theorem Paired.computed {dStats : Assoc String Rates} {core : CoreControlApplication} {updated : List String}
    (hp : Paired p) (hpoint : p.point = .compute dStats)
    (h : computeAndEnforce dStats p.sessionsSent p.core = .ok (core, updated)) (huntangled : p.core.Untangled)
    (hlatest : latestRules p.core.history = []) : Paired { p with
      core := { core with history := .computed :: core.history }
      point := .enforce (waitList core updated)
      roundsCounter := 0 } := by
  have hcomputes := computeAndEnforce_computes h
  obtain ⟨core₁, operation, rules, hprepared, hr⟩ := hcomputes.requests
  have hsessions : core₁.localSessions = p.core.localSessions ∧ core₁.history = p.core.history := by
    obtain ⟨_, _, _, _, _, rfl, _⟩ := hprepared
    exact ⟨rfl, rfl⟩
  have hhistory : latestRules core.history = rules.reverse := by
    rw [show core.history = (rules.map .enforced).reverse ++ core₁.history from hr.history, ← List.map_reverse,
      latestRules_append, hsessions.2, hlatest, List.append_nil]
  have hnames : (rules.map EnforcementRule.appName).Nodup := by
    have hsub := hr.sublist.map Sigma.fst
    rw [List.map_map] at hsub
    exact p.core.jobLocationTracker.keys_nodup.sublist hsub
  have hwait := waitList_filter hr hcomputes.frame huntangled
  have hown : ∀ rule ∈ rules, ∀ a, Process.ownRule { p with
      core := { core with history := .computed :: core.history }
      point := .enforce (waitList core updated)
      roundsCounter := 0 } rule.appName a = rule.request a := by
    intro rule hrule a
    have hfind := Lists.find?_of_nodup (l := rules.reverse) (f := EnforcementRule.appName)
      (by rw [List.map_reverse]; exact List.nodup_reverse.mpr hnames) (List.mem_reverse.mpr hrule)
    simp only [Process.ownRule, List.tail_cons, hhistory, hfind, Option.elim_some]
  have hq := hp.holds.ruled (fun a outstanding ho => ho.trans (by simp only [Process.owed, hpoint]))
    hprepared hr
  refine ⟨fun a session hs => ?_, fun a session hs => (hq a session hs).2, by simp, by simp, by simp, ?_⟩
  · rw [(hq a session hs).1]
    simp only [Process.owed, hwait a, List.map_map]
    refine List.map_congr_left fun rule hrule => ?_
    exact (hown rule (List.mem_of_mem_filter hrule) a).symm
  · rintro _ ⟨⟩
    refine ⟨rfl, fun e he => ?_⟩
    have hmem : e ∈ (waitList core updated).filter (·.2 = e.2) := List.mem_filter.mpr ⟨he, by simp⟩
    rw [hwait] at hmem
    obtain ⟨rule, hrule, heq⟩ := List.mem_map.mp hmem
    obtain ⟨hrule, ha⟩ := List.mem_filter.mp hrule
    have hhosted := hr.hosted rule hrule e.2 (by simpa using ha)
    refine ⟨(hcomputes.frame.localSessions _).mpr (hsessions.1 ▸ hhosted), rule, ?_, by rw [← heq]⟩
    simpa [hhistory] using hrule

theorem Paired.moved {point : Point} (hp : Paired p)
    (howed : ∀ a, p.owed a = Process.owed { p with point := point } a)
    (hshaking : ∀ address, point ≠ .localHandshake address) (hmarking : ∀ info, point ≠ .markReady info)
    (hcollecting : ∀ todo collection, point ≠ .collect todo collection)
    (henforcing : ∀ todo, point ≠ .enforce todo) : Paired { p with point := point } where
  outstanding a session hs := (hp.outstanding a session hs).trans (howed a)
  answered := hp.answered
  shaking address h := absurd h (hshaking address)
  marking info h := absurd h (hmarking info)
  collecting todo collection h := absurd h (hcollecting todo collection)
  enforcing todo h := absurd h (henforcing todo)

theorem Paired.step {action : Action} (h : Step p action q) (hallowed : Undisturbed p action)
    (hidle : p.core.controlType ≠ .dynamicLeftover → p.roundsCounter = 0)
    (hlatest : latestRules p.core.history = [])
    (hcovered : p.core.controlType = .dynamicLeftover → Covered p) (hp : Paired p) : q.Crashed ∨ Paired q := by
  cases h with
  | served address reply session session' hsession hserve => exact .inr (hp.served hsession hserve)
  | loop h =>
    have halive := h.alive
    cases h with
    | goes point h =>
      cases h with
      | started hpoint | entered hpoint | exited hpoint | localsDone hpoint | stagesDone hpoint =>
        exact .inr (hp.moved (fun a => by simp only [Process.owed, hpoint]; rfl) (by simp) (by simp)
          (by simp) (by simp))
      | collectSkip address rest collection hpoint h => exact .inr (hp.collectSkip hpoint h)
      | enforceDone hpoint =>
        have hnil := Process.openRequest_nil (hp.enforcing _ hpoint).1
        exact .inr (hp.moved (fun a => by simp only [Process.owed, hpoint]; exact (hnil a).symm)
          (by simp) (by simp) (by simp) (by simp))
      | _ => exact .inl ⟨_, rfl⟩
    | localTaken address rest session hpoint hpending hqueue hsession =>
      refine .inr (hp.localTaken hpoint (hallowed.1 address ?_) hsession)
      simp [Process.taken, hpoint, hpending, hqueue]
    | handshaken address rule response core hpoint htakes => exact .inr (hp.handshaken hpoint htakes)
    | stageTaken info rest session hpoint hpending hqueue hsession =>
      refine .inr (hp.stageTaken hpoint (hallowed.1 info.localAddress ?_) hsession)
      simp [Process.taken, hpoint, hpending, hqueue]
    | marked info rule response core hpoint htakes => exact .inr (hp.marked hpoint htakes)
    | control hpoint h => exact .inr (hp.control hpoint h hidle hcovered halive)
    | collectDone collection active point hpoint hgone hactive hnext =>
      exact .inr (hp.collectDone hpoint hnext hidle)
    | collectResult address rule rest collection collection' response core core' hpoint hcollects htakes h =>
      exact .inr (hp.collectResult hpoint hcollects htakes h)
    | collectFault address rule rest collection response core fault hpoint hcollects htakes h =>
      exact .inl ⟨fault, rfl⟩
    | computed dStats core updated hpoint h =>
      exact .inr (hp.computed hpoint h (hallowed.2 (by rw [hpoint]; rfl)) hlatest)
    | enforced job address rule rest response core hpoint htakes => exact .inr (hp.enforced hpoint htakes)
    | finished hpoint =>
      refine .inr ⟨fun a session hs => (hp.outstanding a session hs).trans ?_, hp.answered, by simp, by simp,
        by simp, by simp⟩
      simp only [Process.owed, hpoint]
      rfl
  | _ => exact .inr ⟨hp.outstanding, hp.answered, hp.shaking, hp.marking, hp.collecting, hp.enforcing⟩

theorem paired_reach (h : machine.Reach Undisturbed p) : p.Crashed ∨ Paired p := by
  induction h with
  | start h =>
    obtain ⟨_, _, _, _, core, hops, rfl⟩ := h
    obtain ⟨ops, op, rfl⟩ := initializeOps_ok hops
    exact .inr ⟨by rintro _ _ ⟨⟩, by rintro _ _ ⟨⟩, by rintro _ ⟨⟩, by rintro _ ⟨⟩, by rintro _ _ ⟨⟩,
      by rintro _ ⟨⟩⟩
  | step hreach hallowed hstep ih =>
    have hs := step_cases hstep
    rcases ih with hc | hp
    · exact .inl (hs.crashed hc)
    · obtain ⟨hidle, hlatest⟩ := idle_reach hreach
      exact hp.step hs hallowed hidle hlatest (covered_reach hreach)

theorem Paired.awaits (hp : Paired p) (hhosted : Hosted p) {address rule : String}
    {form : Reply → StageResponse}
    (ha : p.awaits = some (address, rule, form)) :
    address ∈ p.core.localSessions ∧ (∃ rest, p.owed address = rule :: rest) ∧
      ∀ reply, sendRule rule reply = some (form reply) := by
  unfold Process.awaits at ha
  split at ha
  case h_1 a hpoint =>
    cases ha
    exact ⟨hhosted.shaking _ hpoint, ⟨[], by simp only [Process.owed, hpoint, if_true]⟩, sendRule_handshake _⟩
  case h_2 info hpoint =>
    cases ha
    exact ⟨hhosted.marking _ hpoint, ⟨[], by simp only [Process.owed, hpoint, if_true]⟩, sendRule_stageReady _⟩
  case h_3 a rest collection hpoint =>
    simp only [Option.ite_none_right_eq_some] at ha
    obtain ⟨hcollects, ha⟩ := ha
    cases ha
    refine ⟨hhosted.hosts _ (of_decide_eq_true hcollects).1, ⟨[], ?_⟩,
      sendRule_collectStatistics p.subtype_cases⟩
    simp only [Process.owed, hpoint, hcollects, List.mem_cons_self, and_self, if_true]
  case h_4 job a rest hpoint =>
    cases ha
    obtain ⟨_, hmem⟩ := hp.enforcing _ hpoint
    obtain ⟨hsession, hrule⟩ := hmem _ List.mem_cons_self
    obtain ⟨own, _, hrequest⟩ := Process.ownRule_supported hrule address
    refine ⟨hsession, ⟨(rest.filter (·.2 = address)).map fun e => p.ownRule e.1 address, ?_⟩, fun reply => ?_⟩
    · simp [Process.owed, hpoint]
    · rw [hrequest]
      exact sendRule_enforcement own address reply
  case h_5 => cases ha

theorem own_response_popped (h : machine.Reach Undisturbed p) {address rule : String}
    {form : Reply → StageResponse} (ha : p.awaits = some (address, rule, form)) :
    ∃ session, p.core.localSessions.lookup address = some session ∧ session.outstanding.head? = some rule ∧
      ∀ popped session', session.getResult = some (popped, session') →
        popped.1 = rule ∧ ∃ reply, popped.2 = form reply := by
  have halive : ¬ p.Crashed := by
    rintro ⟨fault, hf⟩
    simp [Process.awaits, hf] at ha
  have hp := (paired_reach h).resolve_left halive
  obtain ⟨hmem, ⟨rest, howed⟩, hform⟩ := hp.awaits (hosted_reach h) ha
  obtain ⟨session, hs⟩ := Option.isSome_iff_exists.mp (AList.lookup_isSome.mpr hmem)
  have hout := (hp.outstanding address session hs).trans howed
  refine ⟨session, hs, by rw [hout]; rfl, fun popped session' hr => ?_⟩
  have hfirst := outstanding_getResult hr
  rw [hout] at hfirst
  obtain ⟨hqueue, _⟩ := getResult_eq_some hr
  obtain ⟨reply, hreply⟩ := hp.answered address session hs popped (by rw [hqueue]; exact List.mem_cons_self)
  have hrule : popped.1 = rule := (List.cons.inj hfirst).1.symm
  rw [hrule, hform] at hreply
  exact ⟨hrule, reply, (Option.some.inj hreply).symm⟩

def firstStage : List Action :=
  firstController ++ [.loop, .enqueueStage ⟨"j", 1, "u", "A"⟩, .countStage, .loop, .serve "A" ⟨1, ∅⟩, .loop]

theorem own_response_popped_stage_ready :
    ∃ p, machine.Reach Undisturbed p ∧ p.point = .markReady ⟨"j", 1, "u", "A"⟩ ∧
      ∃ session, p.core.localSessions.lookup "A" = some session ∧ session.outstanding.head? = some "1|j+1|" ∧
        ∀ popped session', session.getResult = some (popped, session') →
          popped.1 = "1|j+1|" ∧ ∃ reply : Reply, popped.2 = .ack 1 reply.message := by
  obtain ⟨p, hp, hpoint⟩ : ∃ p, machine.Reach Undisturbed p ∧ p.point = .markReady ⟨"j", 1, "u", "A"⟩ :=
    reach_of_run .dynamicLeftover 100
      (firstController ++ [.loop, .enqueueStage ⟨"j", 1, "u", "A"⟩, .countStage, .loop]) (by decide)
  exact ⟨p, hp, hpoint, own_response_popped hp (by simp only [Process.awaits, hpoint]; rfl)⟩

theorem statistics_popped_for_stage_ready :
    ∃ p, machine.Reach (fun _ _ => True) p ∧ p.core.controlType = .dynamicLeftover ∧
      p.point = .markReady ⟨"j", 2, "u", "A"⟩ ∧ ∃ session session',
      p.core.localSessions.lookup "A" = some session ∧
        session.getResult = some (("3|6|", .stats 6 (AList.singleton "j+1" 5)), session') := by
  obtain ⟨p, hp, htype, hpoint, hsession⟩ : ∃ p, machine.Reach (fun _ _ => True) p ∧
      p.core.controlType = .dynamicLeftover ∧ p.point = .markReady ⟨"j", 2, "u", "A"⟩ ∧
      p.core.localSessions.lookup "A" = some ⟨["1|j+2|"], [("3|6|", .stats 6 (AList.singleton "j+1" 5))]⟩ :=
    reach_of_run .dynamicLeftover 100
      (firstStage ++ [.loop, .loop, .loop, .loop, .loop,
        .enqueueStage ⟨"j", 2, "u", "A"⟩, .countStage, .loop, .serve "A" ⟨0, AList.singleton "j+1" 5⟩])
        (by decide)
  exact ⟨p, hp, htype, hpoint, _, _, hsession, rfl⟩

end FeedbackLoop

end Cheferd
