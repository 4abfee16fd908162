import Cheferd.JobPasses
import Cheferd.LeftoverAllocation
import Cheferd.LeftoverNotification
import Mathlib.Algebra.Order.BigOperators.Group.Finset

namespace Cheferd

open Library

namespace CoreControlApplication

variable {core core' core₁ : CoreControlApplication} {dStats : Assoc String Rates} {sessionsSent : List String}

theorem toLong_eq {v : ℤ} (hlow : -2 ^ 63 ≤ v) (hhigh : v < 2 ^ 63) : toLong v = v := by
  unfold toLong unsigned
  split <;> omega

section Usages

def Used (dStats : Assoc String Rates) (sessionsSent : List String) (app : Σ _ : String, Locations) : Prop :=
  ∀ address ∈ sessionsSent, ∀ rates ∈ dStats.lookup address, ∀ env ∈ (app.2.lookup address).getD [],
    1 ≤ reportedRate rates (stageKey app.1 env)

instance (app : Σ _ : String, Locations) : Decidable (Used dStats sessionsSent app) :=
  inferInstanceAs (Decidable (∀ _ ∈ sessionsSent, _))

theorem Used.measured {app : Σ _ : String, Locations} (h : Used dStats sessionsSent app) :
    Measured dStats sessionsSent app :=
  fun address hsent rates hrates env henv => zero_le_one.trans (h address hsent rates hrates env henv)

end Usages

section Phases

structure Assigned (usages : (Σ _ : String, Locations) → ℤ) (apps : List (Σ _ : String, Locations))
    (usage usage' : Usage) (core core' : CoreControlApplication) : Prop where
  sum : (apps.map fun app => core'.jobRates.read app.1).sum + usage'.leftIops = usage.leftIops
  left : 0 ≤ usage'.leftIops
  rates : ∀ app ∈ apps, 0 ≤ core'.jobRates.read app.1
  others : ∀ job ∉ apps.map Sigma.fst, core'.jobRates.read job = core.jobRates.read job
  perAppUsage : usage'.perAppUsage = usage.perAppUsage ++ apps.map fun app => (app.1, usages app)
  systemTotalRate : usage'.systemTotalRate = usage.systemTotalRate + (apps.map usages).sum

theorem assignUsage_assigned {apps : List (Σ _ : String, Locations)} (hnodup : (apps.map Sigma.fst).Nodup)
    {currentJobs : ℤ} (hjobs : currentJobs = apps.length) {usage usage' : Usage}
    (hdemands : ∀ app ∈ apps, 0 ≤ core.jobDemands.read app.1)
    (hmeasured : ∀ app ∈ apps, Measured dStats sessionsSent app) (hleft : 0 ≤ usage.leftIops)
    (hbound : usage.leftIops < 2 ^ 64) (htotal : 0 ≤ usage.systemTotalRate)
    (hfit : usage.systemTotalRate + (apps.map (usageOf dStats sessionsSent core)).sum < 2 ^ 64)
    (h : assignUsage dStats sessionsSent apps currentJobs core usage = .ok (core', usage')) :
    Assigned (usageOf dStats sessionsSent core) apps usage usage' core core' := by
  have hnonneg : ∀ v ∈ apps.map (usageOf dStats sessionsSent core), 0 ≤ v := by
    intro v hv
    obtain ⟨app, happ, rfl⟩ := List.mem_map.mp hv
    exact usageOf_nonneg (hmeasured app happ)
  have hsum := List.sum_nonneg hnonneg
  obtain ⟨hper, hsystem, husage⟩ := assignUsage_totals hmeasured (unsigned_eq htotal (by omega)) h
  have howed : core.owed (apps.map Sigma.fst) = 0 := by
    apply List.sum_eq_zero
    intro v hv
    obtain ⟨job, hj, rfl⟩ := List.mem_map.mp hv
    obtain ⟨app, happ, rfl⟩ := List.mem_map.mp hj
    have hdemand := hdemands app happ
    omega
  have hhanded := assignUsage_handed hnodup hjobs.ge hmeasured hleft (by rw [howed]; omega) h
  constructor
  · exact hhanded.sum
  · exact hhanded.left
  · intro app happ
    have hrate := hhanded.rates app happ
    have hdemand := hdemands app happ
    omega
  · exact hhanded.others
  · rw [hper]
    congr 1
    apply List.map_congr_left
    intro app happ
    have hle := List.single_le_sum hnonneg _ (List.mem_map_of_mem happ)
    rw [← husage app happ, unsigned_eq (usageOf_nonneg (hmeasured app happ)) (by omega)]
  · rw [hsystem, ← List.map_congr_left husage]
    exact unsigned_eq (by omega) hfit

theorem leftoverRates_fit {core₂ : CoreControlApplication} {usage : Usage} (hlimit : 0 ≤ core.maximumLimit)
    (hlong : core.maximumLimit < 2 ^ 63) (hdemands : ∀ job ∈ core.jobs, 0 ≤ core.jobDemands.read job)
    (hused : ∀ app ∈ core.jobLocationTracker.entries, Used dStats sessionsSent app)
    (hfit : (core.jobLocationTracker.entries.map (usageOf dStats sessionsSent core)).sum < 2 ^ 64)
    (h : assignUsage dStats sessionsSent core.jobLocationTracker.entries core.jobs.length core
      ⟨[], 0, unsigned core.maximumLimit⟩ = .ok (core₂, usage)) :
    (∀ job ∈ core.jobs, 0 ≤ (distributeLeftover usage core₂).jobRates.read job) ∧
      (core.jobs.map (distributeLeftover usage core₂).jobRates.read).sum ≤ core.maximumLimit := by
  have hkeys : (core.jobLocationTracker.entries.map Sigma.fst).Nodup := core.jobLocationTracker.keys_nodup
  have husages : ∀ app ∈ core.jobLocationTracker.entries, 0 ≤ usageOf dStats sessionsSent core app :=
    fun app happ => usageOf_nonneg (hused app happ).measured
  rw [unsigned_eq hlimit (by omega)] at h
  obtain ⟨hsum, hleft, hrates, _, hper, htotal⟩ :=
    assignUsage_assigned hkeys (by simp [jobs, AList.keys, List.keys])
    (fun app happ => hdemands app.1 (List.mem_map_of_mem happ)) (fun app happ => (hused app happ).measured)
    hlimit (by dsimp only; omega) le_rfl
    (by dsimp only; omega) h
  dsimp only at hsum hper htotal
  rw [List.nil_append] at hper
  rw [zero_add] at htotal
  have hread := @distributeLeftover_read core₂ usage _ _ hkeys hper
  rw [htotal] at hread
  have hnonneg : 0 ≤ (core.jobLocationTracker.entries.map (usageOf dStats sessionsSent core)).sum :=
    List.sum_nonneg fun v hv => by
      obtain ⟨app, happ, rfl⟩ := List.mem_map.mp hv
      exact husages app happ
  constructor
  · intro job hj
    obtain ⟨app, happ, rfl⟩ := List.mem_map.mp hj
    rw [hread app happ]
    refine add_nonneg (hrates app happ) (Int.floor_nonneg.mpr (mul_nonneg ?_ (div_nonneg ?_ ?_)))
    · exact_mod_cast husages app happ
    · exact_mod_cast hleft
    · exact_mod_cast hnonneg
  · have hshares := Shares.sum_floor_share_le (l := core.jobLocationTracker.entries)
      (usageOf dStats sessionsSent core) hleft
    have hmap : core.jobs.map (distributeLeftover usage core₂).jobRates.read =
        core.jobLocationTracker.entries.map fun app => core₂.jobRates.read app.1 +
          ⌊(usageOf dStats sessionsSent core app : ℚ) * (usage.leftIops /
            (core.jobLocationTracker.entries.map (usageOf dStats sessionsSent core)).sum)⌋ := by
      rw [jobs, AList.keys, List.keys, List.map_map]
      exact List.map_congr_left hread
    rw [hmap, List.sum_map_add]
    omega

end Phases

section Bands

variable {systemTotalRate : ℤ}

theorem maintained_between {job : String} (hrate : 0 ≤ core.jobRates.read job)
    (h : maintained systemTotalRate core job = true) :
    0 ≤ core.jobPreviousRates.read job ∧ 100 * core.jobPreviousRates.read job ≤ 105 * core.jobRates.read job ∧
      (¬ (systemTotalRate : ℚ) < 0.95 * core.maximumLimit →
        100 * core.jobPreviousRates.read job ≤ 101 * core.jobRates.read job) := by
  unfold maintained at h
  dsimp only at h
  generalize core.jobRates.read job = rate at hrate h ⊢
  generalize core.jobPreviousRates.read job = previous at h ⊢
  obtain ⟨_, hband⟩ := of_decide_eq_true h
  have hnonneg : (0 : ℚ) ≤ rate := by exact_mod_cast hrate
  have habs : ((|rate - previous| : ℤ) : ℚ) < rate * 0.05 := by
    rcases hband with hband | ⟨_, hband⟩
    · linarith
    · exact hband
  push_cast at habs hband
  obtain ⟨hlow, hhigh⟩ := abs_lt.mp habs
  refine ⟨?_, ?_, fun hsaturated => ?_⟩
  · have hprevious : (0 : ℚ) ≤ previous := by linarith
    exact_mod_cast hprevious
  · have hle : (100 : ℚ) * previous ≤ 105 * rate := by linarith
    exact_mod_cast hle
  · have hclose := hband.resolve_right fun hb => hsaturated hb.1
    have hle : (100 : ℚ) * previous ≤ 101 * rate := by
      have := (abs_lt.mp hclose).1
      linarith
    exact_mod_cast hle

def held (core : CoreControlApplication) : ℤ :=
  (core.jobs.map fun job => max (core.jobPreviousRates.read job) 0).sum

theorem committed_le_held (core : CoreControlApplication) : core.committed ≤ core.held :=
  List.sum_le_sum fun _ _ => le_max_left _ _

theorem sum_mixed_le (systemTotalRate : ℤ) (hlimit : 0 ≤ core.maximumLimit) (hlong : core.maximumLimit < 2 ^ 63)
    (hrates : ∀ job ∈ core.jobs, 0 ≤ core.jobRates.read job)
    (hsum : (core.jobs.map core.jobRates.read).sum ≤ core.maximumLimit)
    (hheld : 100 * core.held ≤ 101 * core.maximumLimit) :
    100 * (core.jobs.map fun job =>
      max (Shares.mixed (maintained systemTotalRate core) core.jobPreviousRates.read
      core.jobRates.read (variedPerc systemTotalRate core) job) 0).sum ≤ 101 * core.maximumLimit := by
  have hband := fun job hj (hk : maintained systemTotalRate core job = true) =>
    maintained_between (hrates job hj) hk
  have hkept : 0 ≤ ((core.jobs.filter (maintained systemTotalRate core)).map core.jobPreviousRates.read).sum :=
    Shares.sum_filter_nonneg fun job hj hk => (hband job hj hk).1
  have hchanged : 0 ≤ ((core.jobs.filter (! maintained systemTotalRate core ·)).map core.jobRates.read).sum :=
    Shares.sum_filter_nonneg fun job hj _ => hrates job hj
  have hwide := Shares.sum_kept_le fun job hj hk => (hband job hj hk).2.1
  have hsplit := Shares.sum_kept_add_changed (maintained systemTotalRate core) core.jobs core.jobRates.read
    core.jobRates.read
  have hmixed := Shares.sum_kept_add_changed (maintained systemTotalRate core)
    core.jobs core.jobPreviousRates.read
    core.jobRates.read
  simp only [ite_self] at hsplit
  have hone : (core.jobs.map fun job =>
      max (Shares.mixed (maintained systemTotalRate core) core.jobPreviousRates.read
      core.jobRates.read 1 job) 0) = core.jobs.map (Shares.mixed (maintained systemTotalRate core)
        core.jobPreviousRates.read core.jobRates.read 1) := by
    refine List.map_congr_left fun job hj => max_eq_left ?_
    rw [Shares.mixed_one]
    split
    case isTrue hk => exact (hband job hj hk).1
    case isFalse => exact hrates job hj
  unfold variedPerc
  dsimp only
  rw [unsigned_eq hkept (by omega), unsigned_eq hchanged (by omega), unsigned_eq (by omega) (by omega),
    unsigned_eq hlimit (by omega)]
  split
  case isTrue hfull =>
    rw [toLong_eq (by omega) (by omega)]
    have hscaled := Shares.sum_mixed_scaled_le core.maximumLimit hrates
      (fun job hj hk => (hband job hj hk).1) rfl
    have hbefore := Shares.sum_kept_le_max (l := core.jobs) (maintained systemTotalRate core)
      core.jobPreviousRates.read
    rw [held] at hheld
    omega
  case isFalse hfree =>
    rw [hone]
    by_cases hsaturated : (systemTotalRate : ℚ) < 0.95 * core.maximumLimit
    · have hroom := not_lt.mp fun hlt => hfree ⟨hsaturated, hlt⟩
      have hread : core.jobs.map (Shares.mixed (maintained systemTotalRate core) core.jobPreviousRates.read
          core.jobRates.read 1) = core.jobs.map fun job => if maintained systemTotalRate core job = true then
            core.jobPreviousRates.read job else core.jobRates.read job :=
        List.map_congr_left fun job _ => Shares.mixed_one job
      rw [hread, hmixed]
      omega
    · exact Shares.sum_mixed_one_le (by norm_num) (by norm_num) hrates
        (fun job hj hk => (hband job hj hk).2.2 hsaturated) hsum

end Bands

section Pass

def leftoverView (job : String) (s : Enforcement) : ℤ × ℤ :=
  (s.1.jobRates.read job, s.1.jobPreviousRates.read job)

theorem enforceLeftover_view {operation : String} {kept : List String} {perc : ℚ}
    {app : Σ _ : String, Locations}
    {s t : Enforcement} (h : enforceLeftover operation kept perc s app = .ok t) :
    (leftoverView app.1 t).2 = (if app.1 ∈ kept then (leftoverView app.1 s).2
        else ⌊(unsigned (leftoverView app.1 s).1 : ℚ) * perc⌋) ∧
      ∀ job ≠ app.1, leftoverView job t = leftoverView job s := by
  unfold enforceLeftover at h
  split at h
  case isTrue hkept =>
    cases h
    exact ⟨(if_pos hkept).symm, fun _ _ => rfl⟩
  case isFalse hkept =>
    obtain ⟨hsent, _⟩ := sendEnforcementRule_ok h
    refine ⟨?_, fun job hj => ?_⟩
    · simp [leftoverView, hsent.jobPreviousRates, setRate, Assoc.read_insert, hkept]
    · simp [leftoverView, hsent.jobPreviousRates, hsent.jobRates, setRate, Assoc.read_insert, hj]

def Busy (dStats : Assoc String Rates) (sessionsSent : List String) (core : CoreControlApplication) : Prop :=
  (∀ job ∈ core.jobs, 1 ≤ core.withRule.2.jobDemands.read job) ∧
    ∀ app ∈ core.jobLocationTracker.entries, Used dStats sessionsSent app

instance : Decidable (Busy dStats sessionsSent core) := inferInstanceAs (Decidable (_ ∧ _))

def Countable (dStats : Assoc String Rates) (sessionsSent : List String)
    (core : CoreControlApplication) : Prop :=
  (core.jobLocationTracker.entries.map (usageOf dStats sessionsSent core)).sum < 2 ^ 64

instance : Decidable (Countable dStats sessionsSent core) := inferInstanceAs (Decidable (_ < _))

theorem computeAndEnforceDynamicLeftoverRules_held {updated : List String} (hlimit : 0 ≤ core.maximumLimit)
    (hlong : core.maximumLimit < 2 ^ 63) (hbusy : Busy dStats sessionsSent core)
    (hcountable : Countable dStats sessionsSent core) (hbefore : 100 * core.held ≤ 101 * core.maximumLimit)
    (h : computeAndEnforceDynamicLeftoverRules dStats sessionsSent core = .ok (core', updated)) :
    100 * core'.held ≤ 101 * core'.maximumLimit ∧
      ∀ job ∉ core.jobs, core'.jobPreviousRates.read job = core.jobPreviousRates.read job := by
  obtain ⟨hdemands, hused⟩ := hbusy
  have hframe := (computeAndEnforceDynamicLeftoverRules_computes h).frame
  have hjobs' : core'.jobs = core.jobs := by rw [jobs, jobs, hframe.jobLocationTracker]
  rw [hframe.maximumLimit, held, hjobs']
  obtain ⟨operation, core₁, h₁, hcases⟩ := computeAndEnforceDynamicLeftoverRules_cases h
  rw [withRule_eq h₁] at hdemands
  obtain ⟨⟨_, _, _, _, _, hcore₁, _⟩, _⟩ := updateJobDemands_prepared h₁
  have hjobs₁ : core₁.jobs = core.jobs := by rw [hcore₁]; rfl
  have hlimit₁ : core₁.maximumLimit = core.maximumLimit := by rw [hcore₁]
  have hprevious₁ : core₁.jobPreviousRates = core.jobPreviousRates := by rw [hcore₁]
  have htracker₁ : core₁.jobLocationTracker = core.jobLocationTracker := by rw [hcore₁]
  have husage : usageOf dStats sessionsSent core₁ = usageOf dStats sessionsSent core :=
    usageOf_congr hlimit₁ hjobs₁ (by rw [hcore₁])
  dsimp only at hdemands
  rcases hcases with ⟨hnil, rfl, _⟩ | ⟨_, core₂, usage, core₃, h₂, hcore₃, hframe₃, hfold⟩
  · exact ⟨by simp [hnil, hlimit], fun job _ => congrArg (·.read job) hprevious₁⟩
  · rw [← htracker₁] at h₂
    obtain ⟨hrates, hsum⟩ := leftoverRates_fit (hlimit₁ ▸ hlimit) (hlimit₁ ▸ hlong)
      (fun job hj => (zero_le_one).trans (hdemands job (hjobs₁ ▸ hj))) (by rw [htracker₁]; exact hused)
      (by rw [htracker₁, husage]; exact hcountable) h₂
    rw [← hcore₃] at hrates hsum
    have hjobs₃ : core₃.jobs = core.jobs := by rw [hframe₃]; exact hjobs₁
    have hlimit₃ : core₃.maximumLimit = core.maximumLimit := by rw [hframe₃]; exact hlimit₁
    have hprevious₃ : core₃.jobPreviousRates = core.jobPreviousRates := by rw [hframe₃]; exact hprevious₁
    rw [hjobs₁, ← hjobs₃] at hrates hsum
    rw [hlimit₁, ← hlimit₃] at hsum
    obtain ⟨hown, hother⟩ := Lists.foldlM_pointwise Sigma.fst leftoverView
      (R := fun app before after => after.2 =
        if app.1 ∈ core₃.jobs.filter (maintained usage.systemTotalRate core₃) then before.2
        else ⌊(unsigned before.1 : ℚ) * variedPerc usage.systemTotalRate core₃⌋)
      (fun _ _ _ => enforceLeftover_view) core.jobLocationTracker.keys_nodup hfold
    have hheld : 100 * core₃.held ≤ 101 * core₃.maximumLimit := by
      rw [held, hjobs₃, hprevious₃, hlimit₃]
      exact hbefore
    have hmixed := sum_mixed_le usage.systemTotalRate (hlimit₃ ▸ hlimit) (hlimit₃ ▸ hlong) hrates hsum hheld
    have hread : ∀ job ∈ core₃.jobs, core'.jobPreviousRates.read job =
        Shares.mixed (maintained usage.systemTotalRate core₃) core₃.jobPreviousRates.read core₃.jobRates.read
          (variedPerc usage.systemTotalRate core₃) job := by
      intro job hj
      obtain ⟨app, happ, rfl⟩ := List.mem_map.mp (show job ∈ core.jobs from hjobs₃ ▸ hj)
      refine (hown app happ).trans ?_
      have hrate : core₃.jobRates.read app.1 ≤ (core₃.jobs.map core₃.jobRates.read).sum :=
        List.single_le_sum (fun v hv => by
          obtain ⟨job, hj, rfl⟩ := List.mem_map.mp hv
          exact hrates job hj) _ (List.mem_map_of_mem hj)
      simp only [Shares.mixed, leftoverView, List.mem_filter, hj, true_and]
      rw [unsigned_eq (hrates _ hj) (by omega)]
    constructor
    · rw [← hjobs₃, ← hlimit₃, List.map_congr_left fun job hj => congrArg (max · 0) (hread job hj)]
      exact hmixed
    · intro job hj
      have hsame := congrArg Prod.snd (hother job hj)
      rw [← hprevious₃]
      exact hsame

end Pass

section Tables

theorem held_mono
    (hrates : ∀ job ∈ core'.jobs, core'.jobPreviousRates.read job = core.jobPreviousRates.read job)
    (huntracked : ∀ job ∉ core.jobs, core.jobPreviousRates.read job = 0) : core'.held ≤ core.held := by
  have hsame : core'.held = (core'.jobs.map fun job => max (core.jobPreviousRates.read job) 0).sum := by
    rw [held, List.map_congr_left fun job hj => congrArg (max · 0) (hrates job hj)]
  rw [hsame, held, ← List.sum_toFinset _ core'.jobs_nodup, ← List.sum_toFinset _ core.jobs_nodup]
  calc ∑ job ∈ core'.jobs.toFinset, max (core.jobPreviousRates.read job) 0
      ≤ ∑ job ∈ core.jobs.toFinset ∪ core'.jobs.toFinset, max (core.jobPreviousRates.read job) 0 :=
        Finset.sum_le_sum_of_subset_of_nonneg Finset.subset_union_right fun _ _ _ => le_max_right _ _
    _ = ∑ job ∈ core.jobs.toFinset, max (core.jobPreviousRates.read job) 0 := by
        refine (Finset.sum_subset Finset.subset_union_left fun job _ hj => ?_).symm
        rw [huntracked job fun h => hj (List.mem_toFinset.mpr h), max_self]

theorem mem_jobs {job : String} : job ∈ core.jobs ↔ job ∈ core.jobLocationTracker := AList.mem_keys.symm

structure Apportioned (core : CoreControlApplication) : Prop where
  held : 100 * core.held ≤ 101 * core.maximumLimit
  untracked : ∀ job ∉ core.jobs, core.jobPreviousRates.read job = 0

theorem SameTables.apportioned (h : SameTables core core') (hlimit : core'.maximumLimit = core.maximumLimit)
    (hp : Apportioned core) : Apportioned core' := by
  refine ⟨?_, fun job hj => ?_⟩
  · rw [CoreControlApplication.held, h.jobs, h.jobPreviousRates, hlimit]
    exact hp.held
  · rw [h.jobPreviousRates]
    rw [h.jobs] at hj
    exact hp.untracked job hj

theorem Registers.apportioned {info : StageInfo} (h : Registers info core core')
    (hlimit : core'.maximumLimit = core.maximumLimit) (hp : Apportioned core) : Apportioned core' := by
  have hrates : ∀ job, core'.jobPreviousRates.read job = core.jobPreviousRates.read job := by
    intro job
    by_cases hj : job ∈ core.jobLocationTracker ∨ job ≠ info.stageName
    · rw [Assoc.read, Assoc.read, (h.kept job hj).2.2]
    · obtain ⟨hnotin, hname⟩ := not_or.mp hj
      obtain rfl := not_not.mp hname
      have hzero := hp.untracked _ (mem_jobs.not.mpr hnotin)
      have hread := h.emplaced.2
      rw [hzero] at hread ⊢
      simpa using hread
  refine ⟨?_, fun job hj => ?_⟩
  · rw [hlimit]
    have hle : core'.held ≤ core.held := held_mono (fun job _ => hrates job) hp.untracked
    have := hp.held
    omega
  · rw [hrates]
    refine hp.untracked job fun hm => hj ?_
    rw [mem_jobs, h.jobLocationTracker, trackStage, Assoc.mem_insertSorted]
    exact .inr (mem_jobs.mp hm)

theorem Forgets.apportioned (h : Forgets core core') (hlimit : core'.maximumLimit = core.maximumLimit)
    (hp : Apportioned core) : Apportioned core' := by
  refine ⟨?_, fun job hj => ?_⟩
  · rw [hlimit]
    have hle : core'.held ≤ core.held := held_mono (fun job hj => by
      rw [Assoc.read, Assoc.read, (h.kept job fun _ => mem_jobs.mp hj).2.2]) hp.untracked
    have := hp.held
    omega
  · rw [mem_jobs] at hj
    by_cases hm : job ∈ core.jobLocationTracker
    · rw [Assoc.read, (h.forgotten job hm hj).2.2]
      rfl
    · rw [Assoc.read, (h.kept job fun hm' => absurd hm' hm).2.2]
      exact hp.untracked job (mem_jobs.not.mpr hm)

end Tables

end CoreControlApplication

namespace FeedbackLoop

open CoreControlApplication

variable {p q : Process}

def Point.stats : Point → Option (Assoc String Rates)
  | .compute dStats => some dStats
  | _ => none

def AtPass (condition : Assoc String Rates → List String → CoreControlApplication → Prop) (p : Process) :
    Action → Prop
  | .loop => ∀ dStats ∈ p.point.stats, condition dStats p.sessionsSent p.core
  | _ => True

instance (condition : Assoc String Rates → List String → CoreControlApplication → Prop)
    [∀ dStats sessionsSent core, Decidable (condition dStats sessionsSent core)] :
    ∀ p action, Decidable (AtPass condition p action)
  | p, .loop => inferInstanceAs (Decidable (∀ dStats ∈ p.point.stats, _))
  | _, .enqueueLocal _ | _, .countLocal _ | _, .enqueueStage _ | _, .countStage | _, .enqueueRule _
  | _, .serve _ _ | _, .rehash _ => inferInstanceAs (Decidable True)

def Fed (p : Process) (action : Action) : Prop := AtPass Busy p action ∧ AtPass Countable p action

instance (p : Process) (action : Action) : Decidable (Fed p action) := inferInstanceAs (Decidable (_ ∧ _))

theorem apportioned_step {action : Action} (h : Step p action q)
    (hleftover : p.core.controlType = .dynamicLeftover)
    (hlimit : 0 ≤ p.core.maximumLimit) (hlong : p.core.maximumLimit < 2 ^ 63) (hfed : Fed p action)
    (hp : Apportioned p.core) : Apportioned q.core := by
  have hmaximum := h.configured.maximumLimit
  cases h.tableStep with
  | kept h => exact h.apportioned hmaximum hp
  | registered info hpoint h => exact h.apportioned hmaximum hp
  | removed todo collection core hpoint hcore h =>
    have hsame : core.maximumLimit = q.core.maximumLimit := by rw [h.frame]
    exact h.apportioned hsame.symm (hcore.apportioned (hsame.trans hmaximum) hp)
  | computed dStats core updated haction hpoint h hcore hnext =>
    obtain ⟨hbusy, hcountable⟩ : Busy dStats p.sessionsSent p.core ∧
      Countable dStats p.sessionsSent p.core := by
      rw [haction] at hfed
      have hstats : dStats ∈ p.point.stats := by rw [hpoint]; rfl
      exact ⟨hfed.1 dStats hstats, hfed.2 dStats hstats⟩
    unfold computeAndEnforce at h
    simp only [hleftover] at h
    obtain ⟨hheld, hothers⟩ := computeAndEnforceDynamicLeftoverRules_held hlimit hlong hbusy
      hcountable hp.held h
    have hframe := (computeAndEnforceDynamicLeftoverRules_computes h).frame
    have hjobs : core.jobs = p.core.jobs := by rw [jobs, jobs, hframe.jobLocationTracker]
    rw [hcore]
    refine ⟨hheld, fun job hj => ?_⟩
    have hj' : job ∉ p.core.jobs := hjobs ▸ hj
    exact (hothers job hj').trans (hp.untracked job hj')
  | finished hpoint hcore hnext =>
    rw [hcore]
    exact ⟨hp.held, hp.untracked⟩

theorem apportioned_reach (h : machine.Reach Fed p) (hleftover : p.core.controlType = .dynamicLeftover)
    (hlimit : 0 ≤ p.core.maximumLimit) (hlong : p.core.maximumLimit < 2 ^ 63) : Apportioned p.core := by
  induction h with
  | start h =>
    obtain ⟨_, _, _, _, core, hops, rfl⟩ := h
    obtain ⟨ops, op, rfl⟩ := initializeOps_ok hops
    exact ⟨by simpa [held, jobs, Process.start, CoreControlApplication.new] using hlimit, fun _ _ => rfl⟩
  | step _ hfed hstep ih =>
    have hs := step_cases hstep
    rw [hs.configured.controlType] at hleftover
    rw [hs.configured.maximumLimit] at hlimit hlong
    exact apportioned_step hs hleftover hlimit hlong hfed (ih hleftover hlimit hlong)

theorem leftover_within_band (h : machine.Reach Fed p) (hleftover : p.core.controlType = .dynamicLeftover)
    (hlimit : 0 ≤ p.core.maximumLimit) (hlong : p.core.maximumLimit < 2 ^ 63) :
    100 * p.core.committed ≤ 101 * p.core.maximumLimit := by
  have hheld := (apportioned_reach h hleftover hlimit hlong).held
  have hle := p.core.committed_le_held
  omega

def demandedJobs (rules jobs : List String) : List Action :=
  let round (rule : String) : List Action := .enqueueRule rule :: List.replicate 29 .loop
  let stage (job : String) : List Action :=
    [.enqueueStage ⟨job, 1, "u", "A"⟩, .countStage, .loop, .serve "A" ⟨1, ∅⟩, .loop]
  firstController ++ [.loop] ++ rules.flatMap round ++ jobs.flatMap stage

def leftoverRound (rates : Rates) : List Action :=
  [.loop, .loop, .serve "A" ⟨0, rates⟩] ++ List.replicate 23 .loop

def twoRounds : List Action :=
  let rates (a : ℚ) : Rates := ((∅ : Rates).insert "a+1" a).insert "b+1" 9500
  demandedJobs ["1|demand|a|op|500", "1|demand|b|op|20000"] ["a", "b"] ++ leftoverRound (rates 460) ++
    [.serve "A" ⟨1, ∅⟩, .loop, .serve "A" ⟨1, ∅⟩, .loop, .loop, .loop, .loop, .loop] ++
    leftoverRound (rates 500)

theorem leftover_within_band_two_rounds :
    ∃ p, machine.Reach Fed p ∧ p.point.enforcing = true ∧ p.core.maximumLimit = 10000 ∧
      p.core.jobs = ["a", "b"] ∧
      100 * p.core.committed ≤ 101 * p.core.maximumLimit := by
  obtain ⟨p, hp, htype, hpoint, hlimit, hjobs⟩ : ∃ p, machine.Reach Fed p ∧
      p.core.controlType = .dynamicLeftover ∧ p.point.enforcing = true ∧ p.core.maximumLimit = 10000 ∧
      p.core.jobs = ["a", "b"] :=
    reach_of_run .dynamicLeftover 10000 twoRounds (by decide +kernel)
  exact ⟨p, hp, hpoint, hlimit, hjobs, leftover_within_band hp htype (by omega) (by omega)⟩

def threeLoads : List Action :=
  let rates : Rates := (((∅ : Rates).insert "a+1" (7 * 10 ^ 18)).insert "b+1" (7 * 10 ^ 18)).insert "c+1"
    (7 * 10 ^ 18)
  demandedJobs ["1|demand|a|op|1", "1|demand|b|op|1", "1|demand|c|op|1"] ["a", "b", "c"] ++ leftoverRound rates

/-- The rate of 9530 stays beside the 500 of the other job in a round that gave it 9500. Without the other
conditions not even the tolerance holds: below a negative limit, or when the sum of the usages wraps. -/
theorem leftover_above_limit :
    (∃ p, machine.Reach Fed p ∧ p.core.controlType = .dynamicLeftover ∧ p.point.enforcing = true ∧
      p.core.maximumLimit = 10000 ∧ p.core.committed = 10030) ∧
    (∃ p, machine.Reach Fed p ∧ p.core.controlType = .dynamicLeftover ∧ p.point.enforcing = true ∧
      p.core.maximumLimit = -1000 ∧ p.core.committed = 0) ∧
    ∃ p, machine.Reach (AtPass Busy) p ∧ p.core.controlType = .dynamicLeftover ∧ p.point.enforcing = true ∧
      p.core.maximumLimit = 3000 ∧ p.core.committed = 24651 :=
  ⟨reach_of_run .dynamicLeftover 10000 twoRounds (by decide +kernel),
    reach_of_run .dynamicLeftover (-1000) (demandedJobs [] [] ++ List.replicate 25 .loop) (by decide +kernel),
    reach_of_run .dynamicLeftover 3000 threeLoads (by decide +kernel)⟩

end FeedbackLoop

end Cheferd
