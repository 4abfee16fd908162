import Cheferd.RejectedLimits

namespace Cheferd

open Library

namespace CoreControlApplication

variable {core core' : CoreControlApplication} {updated : List String}

def Near (core : CoreControlApplication) : Prop :=
  ∀ job ∈ core.jobs, |core.vanillaRate job - core.jobPreviousRates.read job| < iopsThreshold

theorem Near.congr (hlimit : core.jobs.length ≤ core.maximumLimit) (hjobs : core'.jobs = core.jobs)
    (hmaximum : core'.maximumLimit = core.maximumLimit)
    (hdemands : ∀ job ∈ core.jobs, core'.settledDemand job = core.settledDemand job)
    (hprevious : ∀ job, core'.jobPreviousRates.read job = core.jobPreviousRates.read job) (h : core.Near) :
    core'.Near := by
  intro job hj
  rw [hjobs] at hj
  have hrate : core'.vanillaRate job = core.vanillaRate job := by
    rw [vanillaRate_eq hlimit hj, vanillaRate_eq (by rwa [hjobs, hmaximum]) (hjobs ▸ hj), hjobs, hmaximum]
    exact FairShare.rate_congr hdemands hj
  rw [hrate, hprevious]
  exact h job hj

theorem computeAndEnforceDynamicVanillaRules_near (hlimit : core.jobs.length ≤ core.maximumLimit)
    (h : computeAndEnforceDynamicVanillaRules core = .ok (core', updated)) : core'.Near := by
  have hframe := (computeAndEnforceDynamicVanillaRules_computes h).frame
  obtain ⟨hjobs, hmaximum⟩ := core.withRule_frame
  have hjobs' : core'.jobs = core.jobs := by rw [jobs, jobs, hframe.jobLocationTracker]
  obtain ⟨hpassed, _⟩ := computeAndEnforceDynamicVanillaRules_passed h
  have hdemands := computeAndEnforceDynamicVanillaRules_demands hlimit h
  intro job hj
  rw [hjobs'] at hj
  have hrate : core'.vanillaRate job = core.withRule.2.vanillaRate job := by
    apply vanillaRate_settled
    · rwa [hjobs, hmaximum]
    · rw [hjobs', hjobs]
    · rw [hframe.maximumLimit, hmaximum]
    · rwa [hjobs]
    · rwa [hjobs]
  obtain ⟨app, happ, rfl⟩ := List.mem_map.mp hj
  have hjob := hpassed app happ
  rw [hrate]
  by_cases hskip : core.changeInSystem = false ∧
      |core.withRule.2.vanillaRate app.1 - core.jobPreviousRates.read app.1| < iopsThreshold
  · rw [(hjob.skipped hskip).1]
    exact hskip.2
  · rw [(hjob.sent hskip).2.1, sub_self]
    decide

theorem computeAndEnforceDynamicVanillaRules_quiet (hlimit : core.jobs.length ≤ core.maximumLimit)
    (hrules : core.pendingRulesQueue = []) (hflag : core.changeInSystem = false) (hnear : core.Near)
    (h : computeAndEnforceDynamicVanillaRules core = .ok (core', updated)) :
    core'.history = core.history ∧ core'.jobPreviousRates.read = core.jobPreviousRates.read ∧
      ∀ job ∈ core.jobs, core'.settledDemand job = core.settledDemand job := by
  have hwith : core.withRule = ("", core) := by
    unfold withRule updateJobDemands
    rw [hrules]
    rfl
  have hdemands := computeAndEnforceDynamicVanillaRules_demands hlimit h
  obtain ⟨hpassed, hother⟩ := computeAndEnforceDynamicVanillaRules_passed h
  rw [hwith] at hpassed hdemands
  have hskipped : ∀ job, core'.jobPreviousRates.read job = core.jobPreviousRates.read job ∧
      about job core'.history = about job core.history := by
    intro job
    by_cases hj : job ∈ core.jobs
    · obtain ⟨app, happ, rfl⟩ := List.mem_map.mp hj
      exact (hpassed app happ).skipped ⟨hflag, hnear app.1 hj⟩
    · exact hother job hj
  obtain ⟨core₁, operation, rules, ⟨_, _, _, _, _, rfl, _⟩, hr⟩ :=
    (computeAndEnforceDynamicVanillaRules_computes h).requests
  have hhistory : core'.history = (rules.map .enforced).reverse ++ core.history := hr.history
  have hnil : rules = [] := by
    apply List.eq_nil_iff_forall_not_mem.mpr
    intro rule hrule
    have hmem : Event.enforced rule ∈ (rules.map .enforced).reverse :=
      List.mem_reverse.mpr (List.mem_map_of_mem hrule)
    exact about_append_ne hmem rfl (hhistory ▸ (hskipped rule.appName).2)
  rw [hnil] at hhistory
  constructor
  · exact hhistory
  · constructor
    · funext job
      exact (hskipped job).1
    · intro job hj
      rw [settledDemand, hdemands job hj]
      exact settle_settle _

end CoreControlApplication

namespace FeedbackLoop

open CoreControlApplication

variable {p q s t : Process}

def members (history : List Event) : List Event :=
  history.filter fun event => match event with
    | .registered _ | .removed _ => true
    | .enforced _ | .computed => false

def Unruled (p : Process) (action : Action) : Prop :=
  action = .loop → p.point.computing = true → p.core.pendingRulesQueue = []

instance : ∀ p action, Decidable (Unruled p action)
  | p, .loop => decidable_of_iff (p.point.computing = true → p.core.pendingRulesQueue = [])
      ⟨fun h _ => h, fun h => h rfl⟩
  | _, .enqueueLocal _ | _, .countLocal _ | _, .enqueueStage _ | _, .countStage | _, .enqueueRule _
  | _, .serve _ _ | _, .rehash _ => .isTrue fun h => by cases h

structure Resting (q s : Process) : Prop where
  subsided : Subsided s
  jobLocationTracker : s.core.jobLocationTracker = q.core.jobLocationTracker
  settledDemand : ∀ job ∈ q.core.jobs, s.core.settledDemand job = q.core.settledDemand job
  jobPreviousRates : ∀ job, s.core.jobPreviousRates.read job = q.core.jobPreviousRates.read job
  controlType : s.core.controlType = q.core.controlType
  maximumLimit : s.core.maximumLimit = q.core.maximumLimit
  sent : s.core.history.filter Event.sends = q.core.history.filter Event.sends

theorem Resting.jobs (h : Resting q s) : s.core.jobs = q.core.jobs := by
  rw [CoreControlApplication.jobs, h.jobLocationTracker]
  rfl

theorem Resting.kept (hq : Resting q s) {action : Action} (h : Step s action t)
    (hkept : SameReads s.core t.core) :
    Resting q t where
  subsided := h.subsided hkept.changeInSystem hq.subsided
  jobLocationTracker := hkept.jobLocationTracker.trans hq.jobLocationTracker
  settledDemand job hj := by
    rw [CoreControlApplication.settledDemand, hkept.jobDemands]
    exact hq.settledDemand job hj
  jobPreviousRates job := (hkept.jobPreviousRates job).trans (hq.jobPreviousRates job)
  controlType := h.configured.controlType.trans hq.controlType
  maximumLimit := h.configured.maximumLimit.trans hq.maximumLimit
  sent := by
    rw [hkept.history]
    exact hq.sent

theorem Resting.finished (hq : Resting q s) (hcore : t.core = { s.core with changeInSystem := false }) :
    Resting q t := by
  constructor
  · exact .inr (.inr (.inl (by rw [hcore])))
  · rw [hcore]
    exact hq.jobLocationTracker
  · intro job hj
    rw [hcore]
    exact hq.settledDemand job hj
  · rw [hcore]
    exact hq.jobPreviousRates
  · rw [hcore]
    exact hq.controlType
  · rw [hcore]
    exact hq.maximumLimit
  · rw [hcore]
    exact hq.sent

theorem Resting.computed (hq : Resting q s) (htype : q.core.controlType = .dynamicVanilla)
    (hlimit : q.core.jobs.length ≤ q.core.maximumLimit) (hnear : q.core.Near) {dStats : Assoc String Rates}
    {core : CoreControlApplication} {updated : List String} (hpoint : s.point = .compute dStats)
    (hrules : s.core.pendingRulesQueue = [])
    (h : computeAndEnforce dStats s.sessionsSent s.core = .ok (core, updated))
    (hcore : t.core = { core with history := .computed :: core.history }) (hnext : t.point.enforcing = true) :
    Resting q t := by
  have hframe := (computeAndEnforce_computes h).frame
  have hflag := hq.subsided.unchanged (by rw [hpoint]; rfl)
  simp only [computeAndEnforce, hq.controlType, htype] at h
  obtain ⟨hhistory, hprevious, hdemands⟩ := computeAndEnforceDynamicVanillaRules_quiet
    (by rwa [hq.jobs, hq.maximumLimit]) hrules hflag
    (hnear.congr hlimit hq.jobs hq.maximumLimit hq.settledDemand hq.jobPreviousRates) h
  constructor
  · exact .inl hnext
  · rw [hcore]
    exact hframe.jobLocationTracker.trans hq.jobLocationTracker
  · intro job hj
    rw [hcore]
    exact (hdemands job (hq.jobs ▸ hj)).trans (hq.settledDemand job hj)
  · intro job
    rw [hcore]
    exact (congrFun hprevious job).trans (hq.jobPreviousRates job)
  · rw [hcore]
    exact hframe.controlType.trans hq.controlType
  · rw [hcore]
    exact hframe.maximumLimit.trans hq.maximumLimit
  · rw [hcore]
    exact (congrArg (List.filter Event.sends) hhistory).trans hq.sent

theorem members_append (events history : List Event) :
    members (events ++ history) = members events ++ members history :=
  List.filter_append _ _

theorem Resting.step (htype : q.core.controlType = .dynamicVanilla)
    (hlimit : q.core.jobs.length ≤ q.core.maximumLimit) (hnear : q.core.Near)
    (hq : ∃ events, members s.core.history = events ++ members q.core.history ∧ (events = [] → Resting q s))
    {action : Action} (hrules : Unruled s action) (h : Step s action t) :
    ∃ events, members t.core.history = events ++ members q.core.history ∧ (events = [] → Resting q t) := by
  obtain ⟨events, hmembers, hrests⟩ := hq
  cases h.tableStep with
  | kept hkept henforcing hfinish =>
    refine ⟨events, ?_, fun he => (hrests he).kept h hkept.reads⟩
    rw [hkept.history]
    exact hmembers
  | registered info hpoint hr =>
    refine ⟨.registered info :: events, ?_, by simp⟩
    rw [hr.history, List.cons_append, ← hmembers]
    rfl
  | removed todo collection core hpoint hcore hf =>
    obtain ⟨infos, hinfos, _⟩ := hf.events
    refine ⟨members (infos.map .removed) ++ events, ?_, fun he => ?_⟩
    · rw [hinfos, hcore.history, members_append, hmembers, List.append_assoc]
    · obtain ⟨hnone, rfl⟩ := List.append_eq_nil_iff.mp he
      have hnil : infos = [] := by
        cases infos with
        | nil => rfl
        | cons info infos => cases hnone
      exact (hrests rfl).kept h (hf.reads hcore (by rw [hinfos, hnil, List.map_nil, List.nil_append]))
  | computed dStats core updated haction hpoint hc hcore hnext =>
    refine ⟨events, ?_, fun he => ?_⟩
    · obtain ⟨core₁, operation, rules, ⟨_, _, _, _, _, rfl, _⟩, hr⟩ := (computeAndEnforce_computes hc).requests
      have hhistory : core.history = (rules.map .enforced).reverse ++ s.core.history := hr.history
      have hnone : members (rules.map .enforced).reverse = [] := by
        apply List.filter_eq_nil_iff.mpr
        intro event hevent
        obtain ⟨rule, _, rfl⟩ := List.mem_map.mp (List.mem_reverse.mp hevent)
        exact Bool.false_ne_true
      rw [hcore, ← hmembers]
      change members core.history = _
      rw [hhistory, members_append, hnone, List.nil_append]
    · exact (hrests he).computed htype hlimit hnear hpoint (hrules haction (by rw [hpoint]; rfl)) hc hcore
        (by rw [hnext]; rfl)
  | finished hpoint hcore hnext =>
    refine ⟨events, ?_, fun he => (hrests he).finished hcore⟩
    rw [hcore]
    exact hmembers

theorem vanilla_rests (htype : p.core.controlType = .dynamicVanilla)
    (hlimit : p.core.jobs.length ≤ p.core.maximumLimit) (hpoint : p.point.computing = true)
    (hstep : p.step .loop = some q) (hpass : q.point.enforcing = true)
    (hrun : (machine.resume q).Reach Unruled s)
    (hmembers : members s.core.history = members q.core.history) :
    s.core.history.filter Event.sends = q.core.history.filter Event.sends ∧
      ∀ job, s.core.jobPreviousRates.read job = q.core.jobPreviousRates.read job := by
  obtain ⟨⟨fault, hcrashed⟩, _⟩ | ⟨_, dStats, core, updated, hc, hq⟩ := computed_of_step hpoint hstep
  · rw [hcrashed] at hpass
    cases hpass
  have hframe := (computeAndEnforce_computes hc).frame
  simp only [computeAndEnforce, htype] at hc
  have hlimit' : core.jobs.length ≤ core.maximumLimit := by
    rw [jobs, hframe.jobLocationTracker, hframe.maximumLimit]
    exact hlimit
  have hnear : q.core.Near := by
    rw [hq]
    exact (computeAndEnforceDynamicVanillaRules_near hlimit hc).congr hlimit' rfl rfl (fun _ _ => rfl)
      fun _ => rfl
  have htype' : q.core.controlType = .dynamicVanilla := by
    rw [hq]
    exact hframe.controlType.trans htype
  have hlimit'' : q.core.jobs.length ≤ q.core.maximumLimit := by
    rw [hq]
    exact hlimit'
  obtain ⟨events, hevents, hrests⟩ : ∃ events, members s.core.history = events ++ members q.core.history ∧
      (events = [] → Resting q s) := by
    clear hmembers
    induction hrun with
    | start hs =>
      cases hs
      exact ⟨[], rfl, fun _ => ⟨.inl hpass, rfl, fun _ _ => rfl, fun _ => rfl, rfl, rfl, rfl⟩⟩
    | step _ hrules hstep ih => exact Resting.step htype' hlimit'' hnear ih hrules (step_cases hstep)
  have hs := hrests (List.append_left_eq_self.mp (hevents.symm.trans hmembers))
  exact ⟨hs.sent, hs.jobPreviousRates⟩

theorem vanilla_rests_two_jobs : ∃ p q s, machine.Reach (fun _ _ => True) p ∧ p.core.jobs = ["a", "b"] ∧
    p.step .loop = some q ∧ (machine.resume q).Reach Unruled s ∧
    s.core.history = .computed :: q.core.history ∧
    s.core.history.filter Event.sends = q.core.history.filter Event.sends ∧
      ∀ job, s.core.jobPreviousRates.read job = q.core.jobPreviousRates.read job := by
  obtain ⟨p, hp, htype, hpoint, hjobs, hlimit, hq⟩ : ∃ p, machine.Reach (fun _ _ => True) p ∧
      p.core.controlType = .dynamicVanilla ∧ p.point.computing = true ∧ p.core.jobs = ["a", "b"] ∧
      p.core.jobs.length ≤ p.core.maximumLimit ∧
      (p.step .loop).any (fun q => decide (q.point.enforcing = true ∧
        ((machine.resume q).exec Unruled q ((twoDemands.drop 25).take 8 ++ twoDemands.drop 34)).any
        (fun s => decide
          (s.core.history = .computed :: q.core.history)) = true)) = true :=
    reach_of_run .dynamicVanilla 100 (twoDemands.take 24) (by decide)
  obtain ⟨q, hq, hpass, hs⟩ := Machine.exists_of_any hq
  obtain ⟨s, hs, hhistory⟩ :=
    (Machine.Reach.start rfl : (machine.resume q).Reach Unruled q).of_exec _ hs
  have hmembers : members s.core.history = members q.core.history := by
    rw [hhistory]
    rfl
  exact ⟨p, q, s, hp, hjobs, hq, hs, hhistory, vanilla_rests htype hlimit hpoint hq hpass hs hmembers⟩

end FeedbackLoop

end Cheferd
