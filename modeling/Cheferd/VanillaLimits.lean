import Cheferd.JobPasses

namespace Cheferd

open Library

namespace CoreControlApplication

variable {core core' : CoreControlApplication}

section Shares

theorem tdiv_between {v n : ℤ} (hn : 0 ≤ n) : min v 0 ≤ v.tdiv n ∧ v.tdiv n ≤ max v 0 := by
  rcases le_total 0 v with hv | hv
  · rw [Int.tdiv_eq_ediv_of_nonneg hv]
    have h0 := Int.ediv_nonneg hv hn
    have h1 := Int.ediv_le_self n hv
    omega
  · obtain ⟨w, rfl⟩ : ∃ w, v = -w := ⟨-v, by omega⟩
    have hw : 0 ≤ w := by omega
    rw [Int.neg_tdiv, Int.tdiv_eq_ediv_of_nonneg hw]
    have h0 := Int.ediv_nonneg hw hn
    have h1 := Int.ediv_le_self n hw
    omega

theorem share_between (left demand : ℤ) {currentJobs : ℤ} (hjobs : 0 ≤ currentJobs) :
    (min left 0 - max 0 (-demand) ≤ share left currentJobs demand ∧
      share left currentJobs demand ≤ max left 0 + max 0 (-demand)) ∧
    min left 0 - max 0 (-demand) ≤ left - share left currentJobs demand ∧
      left - share left currentJobs demand ≤ max left 0 + max 0 (-demand) := by
  obtain ⟨hlow, hhigh⟩ := tdiv_between (v := left) hjobs
  unfold share settle
  split
  · split <;> omega
  · omega

theorem assignShares_between {names : List String} (hnodup : names.Nodup) {currentJobs : ℤ}
    (hjobs : currentJobs = names.length) (left : ℤ) (core : CoreControlApplication) {low high : ℤ}
    (hlow : low = min left 0 - core.owed names) (hhigh : high = max left 0 + core.owed names) :
    (low ≤ (assignShares names currentJobs left core).2 ∧ (assignShares names currentJobs left core).2 ≤ high) ∧
    ∀ job ∈ names, (low ≤ (assignShares names currentJobs left core).1.jobRates.read job ∧
        (assignShares names currentJobs left core).1.jobRates.read job ≤ high) ∧
      low ≤ (assignShares names currentJobs left core).1.jobRates.read job +
          (assignShares names currentJobs left core).2 ∧
        (assignShares names currentJobs left core).1.jobRates.read job +
          (assignShares names currentJobs left core).2 ≤ high := by
  induction names generalizing currentJobs left core low high with
  | nil =>
    simp only [owed, List.map_nil, List.sum_nil] at hlow hhigh
    simp only [assignShares, List.not_mem_nil, false_implies, implies_true, and_true]
    omega
  | cons first rest ih =>
    obtain ⟨hnotin, hnodup⟩ := List.nodup_cons.mp hnodup
    obtain ⟨demands, hdemands, _, heq⟩ := assignShares_share first rest currentJobs left core
    obtain ⟨hrate, hleft⟩ := share_between left (core.jobDemands.read first) (by omega : 0 ≤ currentJobs)
    have howed : core.owed (first :: rest) = max 0 (-core.jobDemands.read first) + core.owed rest := by
      rw [owed, List.map_cons, List.sum_cons, owed]
    have hrest := core.owed_nonneg rest
    rw [howed] at hlow hhigh
    rw [heq]
    generalize share left currentJobs (core.jobDemands.read first) = rate at hrate hleft
    have hread : (setRate first rate { core with jobDemands := demands }).jobRates.read first = rate := by
      rw [setRate, Assoc.read_insert, if_pos rfl]
    have hnext : CoreControlApplication.owed (setRate first rate { core with jobDemands := demands }) rest =
        core.owed rest := by
      refine congrArg List.sum (List.map_congr_left fun job hj => ?_)
      rw [← hdemands job fun he => hnotin (he ▸ hj)]
      rfl
    generalize setRate first rate { core with jobDemands := demands } = next at hread hnext
    have hcount : currentJobs - 1 = rest.length := by
      rw [hjobs, List.length_cons]
      push_cast
      omega
    obtain ⟨hout, hothers⟩ := ih hnodup hcount (left - rate) next rfl rfl
    rw [hnext] at hout hothers
    refine ⟨by omega, fun job hj => ?_⟩
    by_cases he : job = first
    · subst he
      rw [assignShares_other hnotin, hread]
      omega
    · have hjob := hothers job ((List.mem_cons.mp hj).resolve_left he)
      omega

theorem vanillaRate_abs_le {job : String} (hj : job ∈ core.jobs) :
    |core.vanillaRate job| ≤ |core.maximumLimit| + core.owed core.jobs := by
  obtain ⟨_, hrates⟩ := assignShares_between core.jobs_nodup rfl core.maximumLimit core rfl rfl
  obtain ⟨hrate, hsum⟩ := hrates job hj
  unfold vanillaRate
  dsimp only
  obtain ⟨hlow, hhigh⟩ := tdiv_between (v := (assignShares core.jobs core.jobs.length core.maximumLimit core).2)
    (Int.natCast_nonneg core.jobs.length)
  have hnonneg := core.owed_nonneg core.jobs
  rw [abs_le]
  rcases abs_cases core.maximumLimit with ⟨he, _⟩ | ⟨he, _⟩ <;> omega

end Shares

def Fits (core : CoreControlApplication) : Prop :=
  |core.maximumLimit| + core.withRule.2.owed core.jobs ≤ 2 ^ 53

instance (core : CoreControlApplication) : Decidable core.Fits := inferInstanceAs (Decidable (_ ≤ _))

def Ruled (core : CoreControlApplication) (job : String) (locations : Locations) : Prop :=
  ∃ operation, newest job core.history =
    some (.enforced (ruleFor operation ⟨job, locations⟩ (core.jobPreviousRates.read job)))

def AllRuled (core : CoreControlApplication) : Prop :=
  ∀ job locations, core.jobLocationTracker.lookup job = some locations → Ruled core job locations

structure Shared (core : CoreControlApplication) : Prop where
  ruled : core.changeInSystem = true ∨ core.AllRuled
  previousRates : ∀ job, |core.jobPreviousRates.read job| ≤ 2 ^ 53

theorem withRule_frame (core : CoreControlApplication) :
    core.withRule.2.jobs = core.jobs ∧ core.withRule.2.maximumLimit = core.maximumLimit := by
  unfold withRule
  cases h : updateJobDemands core with
  | error e => exact ⟨rfl, rfl⟩
  | ok result =>
    obtain ⟨operation, core₁⟩ := result
    obtain ⟨⟨_, _, _, _, _, hcore₁, _⟩, _⟩ := updateJobDemands_prepared h
    rw [hcore₁]
    exact ⟨rfl, rfl⟩

theorem computeAndEnforceDynamicVanillaRules_shared {updated : List String} (hp : Shared core)
    (hfits : core.Fits)
    (h : computeAndEnforceDynamicVanillaRules core = .ok (core', updated)) :
    core'.AllRuled ∧ ∀ job, |core'.jobPreviousRates.read job| ≤ 2 ^ 53 := by
  have hframe := (computeAndEnforceDynamicVanillaRules_computes h).frame
  obtain ⟨hpassed, hother⟩ := computeAndEnforceDynamicVanillaRules_passed h
  obtain ⟨hjobs, hlimit⟩ := core.withRule_frame
  have hrate : ∀ job ∈ core.jobs, |core.withRule.2.vanillaRate job| ≤ 2 ^ 53 := fun job hj => by
    have hbound := vanillaRate_abs_le (hjobs ▸ hj : job ∈ core.withRule.2.jobs)
    rw [hjobs, hlimit] at hbound
    exact hbound.trans hfits
  refine ⟨fun job locations hl => ?_, fun job => ?_⟩
  · rw [hframe.jobLocationTracker] at hl
    have hjob := hpassed ⟨job, locations⟩ (AList.mem_lookup_iff.mp hl)
    by_cases hskip : core.changeInSystem = false ∧
        |core.withRule.2.vanillaRate job - core.jobPreviousRates.read job| < iopsThreshold
    · obtain ⟨hprevious, habout⟩ := hjob.skipped hskip
      obtain ⟨operation, hnewest⟩ := hp.ruled.resolve_left (by rw [hskip.1]; decide) job locations hl
      refine ⟨operation, ?_⟩
      rw [newest_eq, habout, ← newest_eq, hprevious]
      exact hnewest
    · obtain ⟨_, hprevious, habout⟩ := hjob.sent hskip
      refine ⟨core.withRule.2.activeOp, ?_⟩
      rw [newest_eq, habout, hprevious]
      rfl
  · by_cases hj : job ∈ core.jobs
    · obtain ⟨app, happ, rfl⟩ := List.mem_map.mp hj
      have hjob := hpassed app happ
      by_cases hskip : core.changeInSystem = false ∧
          |core.withRule.2.vanillaRate app.1 - core.jobPreviousRates.read app.1| < iopsThreshold
      · rw [(hjob.skipped hskip).1]
        exact hp.previousRates app.1
      · rw [(hjob.sent hskip).2.1]
        exact hrate app.1 hj
    · rw [(hother job hj).1]
      exact hp.previousRates job

theorem SameTables.allRuled (h : SameTables core core') (hp : core.AllRuled) : core'.AllRuled := by
  intro job locations hl
  rw [h.jobLocationTracker] at hl
  rw [Ruled, h.history, h.jobPreviousRates]
  exact hp job locations hl

theorem SameTables.shared (h : SameTables core core') (hp : Shared core) : Shared core' :=
  ⟨hp.ruled.imp (fun hc => by rw [h.changeInSystem]; exact hc) h.allRuled,
    fun job => by rw [h.jobPreviousRates]; exact hp.previousRates job⟩

theorem Registers.shared {info : StageInfo} (h : Registers info core core') (hp : Shared core) :
    Shared core' := by
  refine ⟨.inl h.changeInSystem, fun job => ?_⟩
  by_cases hj : job = info.stageName
  · rw [hj]
    rcases List.mem_pair.mp h.emplaced.2 with hr | hr
    · rw [hr]
      exact hp.previousRates _
    · rw [hr]
      decide
  · rw [Assoc.read, (h.kept job (.inr hj)).2.2]
    exact hp.previousRates job

theorem Forgets.shared (h : Forgets core core') (hp : Shared core) : Shared core' := by
  have hprevious : ∀ job, |core'.jobPreviousRates.read job| ≤ 2 ^ 53 := fun job => by
    by_cases hk : job ∈ core.jobLocationTracker → job ∈ core'.jobLocationTracker
    · rw [Assoc.read, (h.kept job hk).2.2]
      exact hp.previousRates job
    · obtain ⟨hj, hj'⟩ := Classical.not_imp.mp hk
      rw [Assoc.read, (h.forgotten job hj hj').2.2]
      decide
  refine ⟨?_, hprevious⟩
  obtain ⟨infos, hhistory, hflag, htracker⟩ := h.events
  cases infos with
  | cons info infos => exact .inl (by simp [hflag])
  | nil =>
    refine hp.ruled.imp (fun hc => by simp [hflag, hc]) fun hruled job locations hl => ?_
    rw [htracker job (by simp)] at hl
    have hkept := h.kept job fun _ => AList.lookup_isSome.mp (by rw [htracker job (by simp), hl]; rfl)
    have hread : core'.jobPreviousRates.read job = core.jobPreviousRates.read job := by
      rw [Assoc.read, hkept.2.2, Assoc.read]
    rw [Ruled, hhistory, hread]
    exact hruled job locations hl

end CoreControlApplication

namespace FeedbackLoop

open CoreControlApplication

variable {p q : Process}

def Fitting (p : Process) : Action → Prop
  | .loop => p.point.computing = true → p.core.Fits
  | _ => True

instance : ∀ p action, Decidable (Fitting p action)
  | _, .loop => inferInstanceAs (Decidable (_ → _))
  | _, .enqueueLocal _ | _, .countLocal _ | _, .enqueueStage _ | _, .countStage | _, .enqueueRule _
  | _, .serve _ _ | _, .rehash _ => inferInstanceAs (Decidable True)

structure SharedOut (p : Process) : Prop where
  shared : Shared p.core
  enforcing : p.point.enforcing = true → p.core.AllRuled
  finish : p.point = .finish → p.core.AllRuled

theorem SharedOut.step {action : Action} (h : Step p action q) (hvanilla : p.core.controlType = .dynamicVanilla)
    (hfitting : Fitting p action) (hp : SharedOut p) : SharedOut q := by
  cases h.tableStep with
  | kept h henforcing hfinish =>
    refine ⟨h.shared hp.shared, fun hq => h.allRuled (hp.enforcing (henforcing hq)), fun hq => h.allRuled ?_⟩
    rcases hfinish hq with hp' | hp' | hp'
    · exact hp.finish hp'
    · exact hp.enforcing hp'
    · exact absurd hvanilla hp'
  | registered info hpoint h =>
    exact ⟨h.shared hp.shared, by simp [hpoint, Point.enforcing], by simp [hpoint]⟩
  | removed todo collection core hpoint hcore h =>
    exact ⟨h.shared (hcore.shared hp.shared), by simp [hpoint, Point.enforcing], by simp [hpoint]⟩
  | computed dStats core updated haction hpoint h hcore hnext =>
    rw [haction] at hfitting
    unfold computeAndEnforce at h
    simp only [hvanilla] at h
    obtain ⟨hruled, hprevious⟩ :=
      computeAndEnforceDynamicVanillaRules_shared hp.shared (hfitting (by rw [hpoint]; rfl)) h
    have hq : q.core.AllRuled := by
      rw [hcore]
      intro job locations hl
      obtain ⟨operation, hnewest⟩ := hruled job locations hl
      exact ⟨operation, (newest_cons_ne (by simp [Event.job])).trans hnewest⟩
    refine ⟨⟨.inr hq, ?_⟩, fun _ => hq, fun _ => hq⟩
    rw [hcore]
    exact hprevious
  | finished hpoint hcore hnext =>
    have hq : q.core.AllRuled := by
      rw [hcore]
      exact hp.finish hpoint
    refine ⟨⟨.inr hq, ?_⟩, fun _ => hq, fun _ => hq⟩
    rw [hcore]
    exact hp.shared.previousRates

theorem sharedOut_reach (h : machine.Reach Fitting p) (hvanilla : p.core.controlType = .dynamicVanilla) :
    SharedOut p := by
  induction h with
  | start h =>
    obtain ⟨_, _, _, _, core, hops, rfl⟩ := h
    obtain ⟨ops, op, rfl⟩ := initializeOps_ok hops
    exact ⟨⟨.inr fun _ _ hl => (nomatch hl), fun _ => (by decide : |(0 : ℤ)| ≤ 2 ^ 53)⟩,
      by simp [Process.start, Point.enforcing], by simp [Process.start]⟩
  | step _ hfitting hstep ih =>
    have hs := step_cases hstep
    rw [hs.configured.controlType] at hvanilla
    exact (ih hvanilla).step hs hvanilla hfitting

theorem stages_hold_previous (h : machine.Reach Fitting p) (hvanilla : p.core.controlType = .dynamicVanilla)
    {todo : List (String × String)} (hpoint : p.point = .enforce todo) {job : String} {locations : Locations}
    (hl : p.core.jobLocationTracker.lookup job = some locations) {address : String} {env : ℤ}
    (henv : env ∈ p.core.envsOf job address) : lastLimit job address env p.core.history =
      some ((p.core.jobPreviousRates.read job).tdiv (totalStages locations)) := by
  have hp := sharedOut_reach h hvanilla
  obtain ⟨operation, hnewest⟩ := hp.enforcing (by rw [hpoint]; rfl) job locations hl
  have hstages : 0 ≤ totalStages locations := List.sum_nonneg fun x hx => by
    obtain ⟨e, _, rfl⟩ := List.mem_map.mp hx
    exact Int.natCast_nonneg _
  have hexact : Double.ofInt ((p.core.jobPreviousRates.read job).tdiv (totalStages locations)) =
      (p.core.jobPreviousRates.read job).tdiv (totalStages locations) := by
    refine Double.ofInt_eq ?_
    obtain ⟨hlow, hhigh⟩ := tdiv_between (v := p.core.jobPreviousRates.read job) hstages
    have hbound := abs_le.mp (hp.shared.previousRates job)
    omega
  rw [envsOf_lookup hl] at henv
  rw [lastLimit_of_newest hnewest henv, ruleFor, hexact]

theorem stages_hold_previous_two_stages :
    ∃ p, machine.Reach Fitting p ∧ p.core.jobPreviousRates.read "j" = 100 ∧ p.core.envsOf "j" "A" = [1, 2] ∧
      lastLimit "j" "A" 2 p.core.history =
        some ((p.core.jobPreviousRates.read "j").tdiv (totalStages (AList.singleton "A" [1, 2]))) := by
  obtain ⟨p, hp, htype, hpoint, hl, hprevious⟩ : ∃ p, machine.Reach Fitting p ∧
      p.core.controlType = .dynamicVanilla ∧ p.point = .enforce [("j", "A")] ∧
      p.core.jobLocationTracker.lookup "j" = some (AList.singleton "A" [1, 2]) ∧
      p.core.jobPreviousRates.read "j" = 100 :=
    reach_of_run .dynamicVanilla 100 (demandedStage
      [.enqueueStage ⟨"j", 2, "u", "A"⟩, .countStage, .loop, .serve "A" ⟨1, ∅⟩, .loop]) (by decide)
  exact ⟨p, hp, hprevious, envsOf_lookup hl, stages_hold_previous hp htype hpoint hl
    (by rw [envsOf_lookup hl]; decide)⟩

theorem single_stage_loses_unit :
    ∃ p, machine.Reach (fun _ _ => True) p ∧ p.core.controlType = .dynamicVanilla ∧
      p.point = .enforce [("j", "A")] ∧
      p.core.jobLocationTracker.lookup "j" = some (AList.singleton "A" [1]) ∧ 1 ∈ p.core.envsOf "j" "A" ∧
      lastLimit "j" "A" 1 p.core.history = some (2 ^ 53) ∧
      (p.core.jobPreviousRates.read "j").tdiv (totalStages (AList.singleton "A" [1])) = 2 ^ 53 + 1 :=
  reach_of_run .dynamicVanilla (2 ^ 53 + 1) ((demandedStage []).take 20) (by decide)

end FeedbackLoop

end Cheferd
