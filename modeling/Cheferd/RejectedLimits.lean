import Cheferd.VanillaLimits

namespace Cheferd

open Library

namespace CoreControlApplication

variable {core core' : CoreControlApplication}

section Shares

theorem assignShares_demands {names : List String} (hnodup : names.Nodup) {left : ℤ}
    (hleft : names.length ≤ left) (core : CoreControlApplication) :
    (∀ job ∈ names, (assignShares names names.length left core).1.jobDemands.read job =
        settle (core.jobDemands.read job)) ∧
      ∀ job ∉ names, (assignShares names names.length left core).1.jobDemands.read job =
        core.jobDemands.read job := by
  induction names generalizing left core with
  | nil => exact ⟨by simp, fun _ _ => rfl⟩
  | cons first rest ih =>
    obtain ⟨hnotin, hnodup⟩ := List.nodup_cons.mp hnodup
    have hpos : 0 < (first :: rest).length := List.length_pos_of_mem List.mem_cons_self
    obtain ⟨demands, hother, hself, heq⟩ := assignShares_share first rest (first :: rest).length left core
    have hsettle : demands.read first = settle (core.jobDemands.read first) := by
      have hone := FairShare.one_le_ediv hpos hleft
      rw [hself, Int.tdiv_eq_ediv_of_nonneg (by omega)]
      split
      case isTrue => rfl
      case isFalse hlt => rw [settle, if_neg (by omega)]
    have hcount : ((first :: rest).length : ℤ) - 1 = rest.length := by simp
    have hrest : rest.length ≤ left - share left (first :: rest).length (core.jobDemands.read first) := by
      have hgreedy : rest.length ≤ left - FairShare.greedy core.settledDemand first left (rest.length + 1) :=
        FairShare.le_sub_greedy hleft
      rw [share_eq_min hpos hleft]
      exact hgreedy
    rw [heq, hcount]
    obtain ⟨hin, hout⟩ := ih hnodup hrest (setRate first
      (share left (first :: rest).length (core.jobDemands.read first)) { core with jobDemands := demands })
    constructor
    · intro job hj
      by_cases he : job = first
      · rw [he, hout first hnotin]
        exact hsettle
      · rw [hin job ((List.mem_cons.mp hj).resolve_left he)]
        exact congrArg settle (hother job he)
    · intro job hj
      obtain ⟨hne, hj⟩ := not_or.mp fun h => hj (List.mem_cons.mpr h)
      rw [hout job hj]
      exact hother job hne

theorem vanillaRate_settled (hlimit : core.jobs.length ≤ core.maximumLimit) (hjobs : core'.jobs = core.jobs)
    (hsame : core'.maximumLimit = core.maximumLimit)
    (hdemands : ∀ job ∈ core.jobs, core'.jobDemands.read job = settle (core.jobDemands.read job))
    {job : String} (hj : job ∈ core.jobs) : core'.vanillaRate job = core.vanillaRate job := by
  rw [vanillaRate_eq hlimit hj, vanillaRate_eq (by rwa [hjobs, hsame]) (hjobs ▸ hj), hjobs, hsame]
  apply FairShare.rate_congr _ hj
  intro k hk
  rw [settledDemand, hdemands k hk]
  exact settle_settle _

theorem computeAndEnforceDynamicVanillaRules_demands {updated : List String}
    (hlimit : core.jobs.length ≤ core.maximumLimit)
    (h : computeAndEnforceDynamicVanillaRules core = .ok (core', updated)) :
    ∀ job ∈ core.jobs, core'.jobDemands.read job = settle (core.withRule.2.jobDemands.read job) := by
  obtain ⟨⟨operation, core₁⟩, h₁, h⟩ := Fault.bind_eq_ok.mp h
  obtain ⟨⟨_, _, _, _, _, hcore₁, _⟩, _⟩ := updateJobDemands_prepared h₁
  have hjobs₁ : core₁.jobs = core.jobs := by rw [hcore₁]; rfl
  have hlimit₁ : core₁.maximumLimit = core.maximumLimit := by rw [hcore₁]
  rw [withRule_eq h₁, ← hjobs₁]
  rw [← hjobs₁, ← hlimit₁] at hlimit
  dsimp only at h ⊢
  split at h
  case isTrue hnil =>
    intro job hj
    rw [List.eq_nil_of_length_eq_zero (by exact_mod_cast hnil : core₁.jobs.length = 0)] at hj
    cases hj
  case isFalse =>
    intro job hj
    obtain ⟨hdemands, _⟩ := assignShares_demands core₁.jobs_nodup hlimit core₁
    obtain ⟨_, hr⟩ := (turns_of_foldlM (fun _ _ _ => enforceVanilla_turn) h).requests (AList.keys_nodup _)
    rw [show core'.jobDemands = _ from hr.jobDemands]
    exact hdemands job hj

end Shares

theorem withRule_kept (core : CoreControlApplication) : core.withRule.2.jobRates = core.jobRates := by
  unfold withRule
  cases h : updateJobDemands core with
  | error e => rfl
  | ok result => exact (updateJobDemands_prepared h).2.1

theorem computeAndEnforceStaticRules_again {core₂ core₃ : CoreControlApplication}
    {updated updated' : List String}
    {job : String} (h : computeAndEnforceStaticRules core = .ok (core', updated))
    (hsent : about job core'.history ≠ about job core.history)
    (h' : computeAndEnforceStaticRules core₂ = .ok (core₃, updated'))
    (htracker : core₂.jobLocationTracker = core.jobLocationTracker)
    (hrates : core₂.jobRates.read job = core'.jobRates.read job)
    (hprevious : core₂.jobPreviousRates.read job = core'.jobPreviousRates.read job)
    (hdemands : job ∈ core.jobs → core₂.withRule.2.jobDemands.lookup job = core'.jobDemands.lookup job) :
    about job core₃.history = about job core₂.history := by
  obtain ⟨operation, core₁, h₁, hdemands₁, _⟩ := computeAndEnforceStaticRules_decided h
  rw [show core₁ = core.withRule.2 by rw [withRule_eq h₁]] at hdemands₁
  rcases computeAndEnforceStaticRules_passed h with ⟨_, _, hsame⟩ | ⟨hpassed, hother⟩
  · exact absurd (congrArg (about job) hsame) hsent
  by_cases hj : job ∈ core.jobs
  swap
  · exact absurd (hother job hj).2 hsent
  obtain ⟨app, happ, rfl⟩ := List.mem_map.mp hj
  have hjob := hpassed app happ
  obtain ⟨hrate, hrate', _⟩ := hjob.sent fun hskip => hsent (hjob.skipped hskip).2
  rcases computeAndEnforceStaticRules_passed h' with ⟨_, _, hsame⟩ | ⟨hpassed', _⟩
  · exact congrArg (about app.1) hsame
  have hwanted : core₂.withRule.2.wanted app.1 = core.withRule.2.wanted app.1 := by
    rw [hdemands₁] at hdemands
    rw [wanted, hdemands hj, withRule_kept, hrates, hrate]
    unfold wanted
    cases core.withRule.2.jobDemands.lookup app.1 with
    | none => rfl
    | some demand => dsimp only; split <;> rfl
  refine ((hpassed' app (htracker ▸ happ)).skipped ?_).2
  rw [hwanted, hprevious, hrate', sub_self]
  decide

theorem computeAndEnforceDynamicVanillaRules_again {core₂ core₃ : CoreControlApplication}
    {updated updated' : List String} {job : String} (hlimit : core.jobs.length ≤ core.maximumLimit)
    (h : computeAndEnforceDynamicVanillaRules core = .ok (core', updated))
    (hsent : about job core'.history ≠ about job core.history)
    (h' : computeAndEnforceDynamicVanillaRules core₂ = .ok (core₃, updated'))
    (hflag : core₂.changeInSystem = false) (htracker : core₂.jobLocationTracker = core.jobLocationTracker)
    (hsame : core₂.maximumLimit = core.maximumLimit)
    (hprevious : core₂.jobPreviousRates.read job = core'.jobPreviousRates.read job)
    (hdemands : ∀ k ∈ core.jobs, core₂.withRule.2.jobDemands.lookup k = core'.jobDemands.lookup k) :
    about job core₃.history = about job core₂.history := by
  have hdemands' := computeAndEnforceDynamicVanillaRules_demands hlimit h
  obtain ⟨hpassed, hother⟩ := computeAndEnforceDynamicVanillaRules_passed h
  obtain ⟨hpassed', _⟩ := computeAndEnforceDynamicVanillaRules_passed h'
  obtain ⟨hjobs, hmaximum⟩ := core.withRule_frame
  obtain ⟨hjobs', hmaximum'⟩ := core₂.withRule_frame
  by_cases hj : job ∈ core.jobs
  swap
  · exact absurd (hother job hj).2 hsent
  obtain ⟨app, happ, rfl⟩ := List.mem_map.mp hj
  have hjob := hpassed app happ
  obtain ⟨_, hrate, _⟩ := hjob.sent fun hskip => hsent (hjob.skipped hskip).2
  have hagain : core₂.withRule.2.vanillaRate app.1 = core.withRule.2.vanillaRate app.1 := by
    refine vanillaRate_settled (by rw [hjobs, hmaximum]; exact hlimit) ?_ ?_ (fun k hk => ?_) (hjobs ▸ hj)
    · rw [hjobs', hjobs, jobs, htracker, jobs]
    · rw [hmaximum', hmaximum, hsame]
    · rw [hjobs] at hk
      rw [Assoc.read, hdemands k hk]
      exact hdemands' k hk
  refine ((hpassed' app (htracker ▸ happ)).skipped ⟨hflag, ?_⟩).2
  rw [hagain, hprevious, hrate, sub_self]
  decide

end CoreControlApplication

namespace FeedbackLoop

open CoreControlApplication

variable {p q p' q' s t : Process}

def Sends (p q : Process) (job address : String) : Prop :=
  ∃ events rule, q.core.history = events ++ p.core.history ∧ .enforced rule ∈ events ∧ rule.appName = job ∧
    address ∈ rule.localToEnvs

theorem Sends.about_ne {job address : String} (h : Sends p q job address) :
    about job q.core.history ≠ about job p.core.history := by
  obtain ⟨events, rule, hhistory, hrule, rfl, _⟩ := h
  rw [hhistory]
  exact about_append_ne hrule rfl

theorem Step.settles {action : Action} (h : Step p action q)
    (hp : p.point.enforcing = true ∨ p.point = .finish) :
    q.point.enforcing = true ∨ q.point = .finish ∨ q.core.changeInSystem = false ∨ q.Crashed := by
  cases h with
  | loop h =>
    cases h with
    | goes point h =>
      cases h with
      | enforceDone hpoint => exact .inr (.inl rfl)
      | enforceLost job address rest hpoint h => exact .inr (.inr (.inr ⟨_, rfl⟩))
      | _ => simp [*, Point.enforcing] at hp
    | enforced job address rule rest response core hpoint htakes => exact .inl rfl
    | finished hpoint => exact .inr (.inr (.inl rfl))
    | _ => simp [*, Point.enforcing] at hp
  | _ => exact hp.imp_right .inl

def Subsided (s : Process) : Prop :=
  s.point.enforcing = true ∨ s.point = .finish ∨ s.core.changeInSystem = false ∨ s.Crashed

theorem Step.subsided {action : Action} (h : Step s action t)
    (hflag : t.core.changeInSystem = s.core.changeInSystem) (hs : Subsided s) : Subsided t := by
  rcases hs with hs | hs | hs | hs
  · exact h.settles (.inl hs)
  · exact h.settles (.inr hs)
  · exact .inr (.inr (.inl (hflag.trans hs)))
  · exact .inr (.inr (.inr (h.crashed hs)))

theorem Subsided.unchanged (hs : Subsided s) (hpoint : s.point.computing = true) :
    s.core.changeInSystem = false := by
  rcases hs with h | h | h | ⟨fault, h⟩
  · cases hp : s.point <;> simp_all [Point.computing, Point.enforcing]
  · simp [h, Point.computing] at hpoint
  · exact h
  · simp [h, Point.computing] at hpoint

structure Calm (q s : Process) : Prop where
  settled : s.point.enforcing = true ∨ s.point = .finish ∨ s.core.changeInSystem = false ∨ s.Crashed
  jobLocationTracker : s.core.jobLocationTracker = q.core.jobLocationTracker
  jobRates : ∀ job, s.core.jobRates.read job = q.core.jobRates.read job
  jobPreviousRates : ∀ job, s.core.jobPreviousRates.read job = q.core.jobPreviousRates.read job
  controlType : s.core.controlType = q.core.controlType
  maximumLimit : s.core.maximumLimit = q.core.maximumLimit

theorem Calm.kept (hq : Calm q s) {action : Action} (h : Step s action t) (hkept : SameReads s.core t.core) :
    Calm q t := by
  constructor
  · exact h.subsided hkept.changeInSystem hq.settled
  · exact hkept.jobLocationTracker.trans hq.jobLocationTracker
  · intro job
    exact (hkept.jobRates job).trans (hq.jobRates job)
  · intro job
    exact (hkept.jobPreviousRates job).trans (hq.jobPreviousRates job)
  · exact h.configured.controlType.trans hq.controlType
  · exact h.configured.maximumLimit.trans hq.maximumLimit

theorem Calm.finished (hq : Calm q s) (hcore : t.core = { s.core with changeInSystem := false }) :
    Calm q t := by
  refine ⟨.inr (.inr (.inl (by rw [hcore]))), ?_, ?_, ?_, ?_, ?_⟩
  · rw [hcore]
    exact hq.jobLocationTracker
  · rw [hcore]
    exact hq.jobRates
  · rw [hcore]
    exact hq.jobPreviousRates
  · rw [hcore]
    exact hq.controlType
  · rw [hcore]
    exact hq.maximumLimit

theorem Calm.step (hq : ∃ events, s.core.history = events ++ q.core.history ∧ (events = [] → Calm q s))
    {action : Action} (h : Step s action t) :
    ∃ events, t.core.history = events ++ q.core.history ∧ (events = [] → Calm q t) := by
  obtain ⟨events, hhistory, hcalm⟩ := hq
  cases h.tableStep with
  | kept hkept henforcing hfinish =>
    exact ⟨events, hkept.history.trans hhistory, fun he => (hcalm he).kept h hkept.reads⟩
  | registered info hpoint hr =>
    exact ⟨.registered info :: events, by rw [hr.history, hhistory, List.cons_append], by simp⟩
  | removed todo collection core hpoint hcore hf =>
    obtain ⟨infos, hinfos, _⟩ := hf.events
    refine ⟨infos.map .removed ++ events,
      by rw [hinfos, hcore.history, hhistory, List.append_assoc], fun he => ?_⟩
    obtain ⟨hnil, rfl⟩ := List.append_eq_nil_iff.mp he
    exact (hcalm rfl).kept h (hf.reads hcore (by rw [hinfos, hnil, List.nil_append]))
  | computed dStats core updated haction hpoint hc hcore hnext =>
    obtain ⟨core₁, operation, rules, ⟨_, _, _, _, _, rfl, _⟩, hr⟩ := (computeAndEnforce_computes hc).requests
    refine ⟨.computed :: ((rules.map .enforced).reverse ++ events), ?_, by simp⟩
    rw [hcore, List.cons_append, List.append_assoc, ← hhistory]
    exact congrArg (List.cons Event.computed) hr.history
  | finished hpoint hcore hnext =>
    exact ⟨events, by rw [hcore]; exact hhistory, fun he => (hcalm he).finished hcore⟩

theorem calm_reach {allowed : Process → Action → Prop} (hq : q.point.enforcing = true)
    (h : (machine.resume q).Reach allowed s) :
    ∃ events, s.core.history = events ++ q.core.history ∧ (events = [] → Calm q s) := by
  induction h with
  | start h =>
    cases h
    exact ⟨[], rfl, fun _ => ⟨.inl hq, rfl, fun _ => rfl, fun _ => rfl, rfl, rfl⟩⟩
  | step _ _ hstep ih => exact Calm.step ih (step_cases hstep)

theorem computed_of_step (hpoint : p.point.computing = true) (hstep : p.step .loop = some q) :
    q.Crashed ∧ q.core = p.core ∨ q.point.enforcing = true ∧ ∃ dStats core updated,
      computeAndEnforce dStats p.sessionsSent p.core = .ok (core, updated) ∧
        q.core = { core with history := .computed :: core.history } := by
  cases step_cases hstep with
  | loop h =>
    cases h with
    | goes point h =>
      cases h with
      | computeFault dStats fault hcompute h => exact .inl ⟨⟨fault, rfl⟩, rfl⟩
      | _ => simp [*, Point.computing] at hpoint
    | computed dStats core updated hpoint h => exact .inr ⟨rfl, dStats, core, updated, h, rfl⟩
    | control hcontrol h =>
      rw [hcontrol] at hpoint
      cases hpoint
    | _ => simp [*, Point.computing] at hpoint

theorem about_computed (job : String) (history : List Event) :
    about job (.computed :: history) = about job history :=
  about_cons_ne (by simp [Event.job])

theorem rejected_not_resent (htype : p.core.controlType = .static ∨
      p.core.controlType = .dynamicVanilla ∧ p.core.jobs.length ≤ p.core.maximumLimit)
    (hpoint : p.point.computing = true) (hstep : p.step .loop = some q) {job address : String}
    (hsent : Sends p q job address) (hcycle : (machine.resume q).Reach (fun _ _ => True) p')
    (hpoint' : p'.point.computing = true) (hmembers : p'.core.history = q.core.history)
    (hdemands : ∀ k ∈ p.core.jobs, p'.core.withRule.2.jobDemands.lookup k = q.core.jobDemands.lookup k)
    (hstep' : p'.step .loop = some q') (address' : String) : ¬ Sends p' q' job address' := by
  intro hagain
  obtain ⟨_, hsame⟩ | ⟨henforcing, dStats, core, updated, hc, hq⟩ := computed_of_step hpoint hstep
  · exact hsent.about_ne (by rw [hsame])
  obtain ⟨_, hsame⟩ | ⟨_, dStats', core', updated', hc', hq'⟩ := computed_of_step hpoint' hstep'
  · exact hagain.about_ne (by rw [hsame])
  obtain ⟨events, hhistory, hcalm⟩ := calm_reach henforcing hcycle
  have hp' : Calm q p' := hcalm (List.append_left_eq_self.mp (hhistory.symm.trans hmembers))
  have hflag : p'.core.changeInSystem = false := Subsided.unchanged hp'.settled hpoint'
  have hframe := (computeAndEnforce_computes hc).frame
  have hrule := hsent.about_ne
  have hrule' := hagain.about_ne
  rw [hq, about_computed] at hrule
  rw [hq', about_computed] at hrule'
  have htracker : p'.core.jobLocationTracker = p.core.jobLocationTracker := by
    rw [hp'.jobLocationTracker, hq, ← hframe.jobLocationTracker]
  have hcontrol : p'.core.controlType = p.core.controlType := by
    rw [hp'.controlType, hq, ← hframe.controlType]
  have hlimit : p'.core.maximumLimit = p.core.maximumLimit := by
    rw [hp'.maximumLimit, hq, ← hframe.maximumLimit]
  have hrates := hp'.jobRates job
  have hprevious := hp'.jobPreviousRates job
  rw [hq] at hrates hprevious hdemands
  refine hrule' ?_
  unfold computeAndEnforce at hc hc'
  rw [hcontrol] at hc'
  rcases htype with htype | ⟨htype, hjobs⟩ <;> simp only [htype] at hc hc'
  · exact computeAndEnforceStaticRules_again hc hrule hc' htracker hrates hprevious (hdemands job)
  · exact computeAndEnforceDynamicVanillaRules_again hjobs hc hrule hc' hflag htracker hlimit hprevious hdemands

def rejectedRound : List Action :=
  List.replicate 7 .loop ++ [.serve "A" ⟨0, (∅ : Rates).insert "j+1" 5⟩, .loop, .loop]

structure Rejected (p q r p' q' : Process) : Prop where
  reach : machine.Reach (fun _ _ => True) p
  controlType : p.core.controlType = .static
  computing : p.point.computing = true
  sending : p.step .loop = some q
  sends : Sends p q "j" "A"
  rejected : q.step (.serve "A" .failed) = some r ∧ r.point = .enforce [("j", "A")] ∧
    (r.core.localSessions.lookup "A").map (·.completionQueue.map Prod.snd) = some [.ack 6 0]
  cycle : (machine.resume r).Reach (fun _ _ => True) p'
  computing' : p'.point.computing = true
  members : p'.core.history = q.core.history ∧ p'.core.envsOf "j" "A" = [1]
  demands : p.core.jobs = ["j"] ∧ p'.core.withRule.2.jobDemands.lookup "j" = q.core.jobDemands.lookup "j"
  passing : p'.step .loop = some q'
  silent : q'.core.history = .computed :: p'.core.history

theorem exists_rejected : ∃ p q r p' q', Rejected p q r p' q' := by
  obtain ⟨p, hp, htype, hpoint, hjobs, hq⟩ : ∃ p, machine.Reach (fun _ _ => True) p ∧
      p.core.controlType = .static ∧ p.point.computing = true ∧ p.core.jobs = ["j"] ∧
      (p.step .loop).any (fun q => decide (q.core.history =
          ([.computed, .enforced ⟨"j", "op", AList.singleton "A" [1], 100⟩] : List Event) ++ p.core.history ∧
        (q.step (.serve "A" .failed)).any (fun r => decide (r.point = .enforce [("j", "A")] ∧
          (r.core.localSessions.lookup "A").map (·.completionQueue.map Prod.snd) = some [.ack 6 0] ∧
          ((machine.resume r).exec (fun _ _ => True) r rejectedRound).any (fun p' => decide
            (p'.point.computing = true ∧ p'.core.history = q.core.history ∧ p'.core.envsOf "j" "A" = [1] ∧
              p'.core.withRule.2.jobDemands.lookup "j" = q.core.jobDemands.lookup "j" ∧
              (p'.step .loop).any (fun q' => decide (q'.core.history = .computed :: p'.core.history)) = true)) =
            true)) = true)) = true :=
    reach_of_run .static 100 ((demandedStage []).take 19) (by decide)
  obtain ⟨q, hq, hsends, hr⟩ := Machine.exists_of_any hq
  obtain ⟨r, hr, hpoint', hanswer, hp'⟩ := Machine.exists_of_any hr
  obtain ⟨p', hp', hcomputing, hmembers, henvs, hdemands, hq'⟩ :=
    (Machine.Reach.start rfl : (machine.resume r).Reach (fun _ _ => True) r).of_exec rejectedRound hp'
  obtain ⟨q', hq', hsilent⟩ := Machine.exists_of_any hq'
  exact ⟨p, q, r, p', q', hp, htype, hpoint, hq,
    ⟨_, _, hsends, List.mem_cons_of_mem _ List.mem_cons_self, rfl, by decide⟩, ⟨hr, hpoint', hanswer⟩,
    hp', hcomputing, ⟨hmembers, henvs⟩, ⟨hjobs, hdemands⟩, hq', hsilent⟩

theorem rejected_not_resent_static : ∃ p q p' q', machine.Reach (fun _ _ => True) p ∧ Sends p q "j" "A" ∧
    (machine.resume q).Reach (fun _ _ => True) p' ∧ p'.step .loop = some q' ∧ ¬ Sends p' q' "j" "A" := by
  obtain ⟨p, q, r, p', q', h⟩ := exists_rejected
  have hserve : machine.step q (.serve "A" .failed) = some r := h.rejected.1
  have hcycle := h.cycle.after hserve trivial
  refine ⟨p, q, p', q', h.reach, h.sends, hcycle, h.passing, ?_⟩
  refine rejected_not_resent (.inl h.controlType) h.computing h.sending h.sends hcycle h.computing' h.members.1
    (fun k hk => ?_) h.passing "A"
  rw [h.demands.1, List.mem_singleton] at hk
  rw [hk]
  exact h.demands.2

theorem rejected_limit_forgotten : ∃ p q r p' q', machine.Reach (fun _ _ => True) p ∧
    p.core.controlType = .static ∧
    p.step .loop = some q ∧ Sends p q "j" "A" ∧ q.step (.serve "A" .failed) = some r ∧
    r.point = .enforce [("j", "A")] ∧
    (r.core.localSessions.lookup "A").map (·.completionQueue.map Prod.snd) = some [.ack 6 0] ∧
    (machine.resume r).Reach (fun _ _ => True) p' ∧ p'.point.computing = true ∧
    p'.core.history = q.core.history ∧ p'.core.envsOf "j" "A" = [1] ∧
    p'.core.withRule.2.jobDemands.lookup "j" = q.core.jobDemands.lookup "j" ∧
    p'.step .loop = some q' ∧ ¬ Sends p' q' "j" "A" := by
  obtain ⟨p, q, r, p', q', h⟩ := exists_rejected
  refine ⟨p, q, r, p', q', h.reach, h.controlType, h.sending, h.sends, h.rejected.1, h.rejected.2.1,
    h.rejected.2.2,
    h.cycle, h.computing', h.members.1, h.members.2, h.demands.2, h.passing, fun hs => hs.about_ne ?_⟩
  rw [h.silent, about_computed]

end FeedbackLoop

end Cheferd
