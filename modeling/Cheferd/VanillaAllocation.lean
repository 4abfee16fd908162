import Cheferd.ComputeRules
import Cheferd.Library.FairShare
import Mathlib.Algebra.Order.BigOperators.Group.List

namespace Cheferd.CoreControlApplication

open Library

variable {core : CoreControlApplication} {names : List String} {left : ℤ}

def settle (demand : ℤ) : ℤ := if demand = -1 then 1 else demand

def share (left currentJobs demand : ℤ) : ℤ :=
  if demand ≤ left.tdiv currentJobs then settle demand else left.tdiv currentJobs

def settledDemand (core : CoreControlApplication) (job : String) : ℤ := settle (core.jobDemands.read job)

def vanillaRate (core : CoreControlApplication) (job : String) : ℤ :=
  let assigned := assignShares core.jobs core.jobs.length core.maximumLimit core
  assigned.1.jobRates.read job + assigned.2.tdiv core.jobs.length

def owed (core : CoreControlApplication) (names : List String) : ℤ :=
  (names.map fun job => max 0 (-core.jobDemands.read job)).sum

theorem owed_nonneg (names : List String) : 0 ≤ core.owed names :=
  List.sum_nonneg fun v hv => by
    obtain ⟨job, _, rfl⟩ := List.mem_map.mp hv
    exact le_max_left _ _

theorem settle_settle (demand : ℤ) : settle (settle demand) = settle demand := by
  unfold settle
  split <;> omega

theorem jobs_nodup (core : CoreControlApplication) : core.jobs.Nodup := core.jobLocationTracker.keys_nodup

theorem assignShares_share (job : String) (rest : List String) (currentJobs left : ℤ)
    (core : CoreControlApplication) :
    ∃ demands : Assoc String ℤ, (∀ k ≠ job, demands.read k = core.jobDemands.read k) ∧
      (demands.read job =
        if core.jobDemands.read job ≤ left.tdiv currentJobs then settle (core.jobDemands.read job)
        else core.jobDemands.read job) ∧
      assignShares (job :: rest) currentJobs left core =
        assignShares rest (currentJobs - 1) (left - share left currentJobs (core.jobDemands.read job))
          (setRate job (share left currentJobs (core.jobDemands.read job))
            { core with jobDemands := demands }) := by
  rw [assignShares, share]
  dsimp only
  split
  · exact ⟨_, fun k hk => by rw [Assoc.read_insert, if_neg hk], by rw [Assoc.read_insert, if_pos rfl]; rfl, rfl⟩
  · exact ⟨core.jobDemands, fun _ _ => rfl, rfl, rfl⟩

theorem assignShares_other {currentJobs : ℤ} {job : String} (hj : job ∉ names) :
    (assignShares names currentJobs left core).1.jobRates.read job = core.jobRates.read job := by
  induction names generalizing currentJobs left core with
  | nil => rfl
  | cons first rest ih =>
    obtain ⟨hne, hj⟩ := not_or.mp fun h => hj (List.mem_cons.mpr h)
    obtain ⟨demands, _, _, heq⟩ := assignShares_share first rest currentJobs left core
    rw [heq, ih hj, setRate, Assoc.read_insert, if_neg hne]

theorem assignShares_sum (hnodup : names.Nodup) (currentJobs left : ℤ) (core : CoreControlApplication) :
    (names.map (assignShares names currentJobs left core).1.jobRates.read).sum +
      (assignShares names currentJobs left core).2 = left := by
  induction names generalizing currentJobs left core with
  | nil => simp [assignShares]
  | cons first rest ih =>
    obtain ⟨hnotin, hnodup⟩ := List.nodup_cons.mp hnodup
    obtain ⟨demands, _, _, heq⟩ := assignShares_share first rest currentJobs left core
    have hrest := ih hnodup (currentJobs - 1) (left - share left currentJobs (core.jobDemands.read first))
      (setRate first (share left currentJobs (core.jobDemands.read first)) { core with jobDemands := demands })
    have hfirst : (assignShares (first :: rest) currentJobs left core).1.jobRates.read first =
        share left currentJobs (core.jobDemands.read first) := by
      rw [heq, assignShares_other hnotin, setRate, Assoc.read_insert, if_pos rfl]
    rw [List.map_cons, List.sum_cons, hfirst, heq]
    omega

section Remainder

theorem share_le_max (left currentJobs demand : ℤ) :
    share left currentJobs demand ≤ max (left.tdiv currentJobs) 1 := by
  unfold share settle
  split
  · split <;> omega
  · exact le_max_left _ _

theorem assignShares_left {missing : ℤ} (hmissing : 0 ≤ missing) (hone : missing ≤ 1)
    (hleft : names.length ≤ left + missing) (core : CoreControlApplication) :
    -missing ≤ (assignShares names names.length left core).2 := by
  induction names generalizing left core with
  | nil =>
    simp only [List.length_nil, Nat.cast_zero] at hleft
    simp only [assignShares]
    omega
  | cons first rest ih =>
    obtain ⟨demands, _, _, heq⟩ := assignShares_share first rest (first :: rest).length left core
    have hcount : ((first :: rest).length : ℤ) = rest.length + 1 := by simp
    have hmax := share_le_max left (rest.length + 1) (core.jobDemands.read first)
    rw [heq]
    rw [hcount] at hleft ⊢
    rw [add_sub_cancel_right]
    apply ih
    have hnonneg : 0 ≤ left := by omega
    have hquotient := Int.ediv_mul_le left (by omega : (rest.length : ℤ) + 1 ≠ 0)
    rw [Int.tdiv_eq_ediv_of_nonneg hnonneg] at hmax
    by_cases hfew : left < rest.length + 1
    · rw [Int.ediv_eq_zero_of_lt hnonneg hfew] at hmax
      omega
    · have hunit : 1 ≤ left / (rest.length + 1) := (Int.le_ediv_iff_mul_le (by omega)).mpr (by omega)
      have hrest : 0 ≤ (left / (rest.length + 1) - 1) * (rest.length : ℤ) := mul_nonneg (by omega) (by omega)
      have hkeeps : (rest.length : ℤ) ≤ left - left / (rest.length + 1) := by linarith
      omega

theorem assignShares_last (hnames : names ≠ []) (left : ℤ) (core : CoreControlApplication) :
    -2 ≤ (assignShares names names.length left core).2 := by
  induction names generalizing left core with
  | nil => exact absurd rfl hnames
  | cons first rest ih =>
    obtain ⟨demands, _, _, heq⟩ := assignShares_share first rest (first :: rest).length left core
    have hcount : ((first :: rest).length : ℤ) = rest.length + 1 := by simp
    rw [heq, hcount, add_sub_cancel_right]
    by_cases hrest : rest = []
    · subst hrest
      simp only [assignShares, List.length_nil, Nat.cast_zero, zero_add, share, settle, Int.tdiv_one]
      split
      · split <;> omega
      · omega
    · exact ih hrest _ _

theorem sub_mul_tdiv_between {v n : ℤ} (hn : 0 < n) :
    (min v 0 ≤ v - n * v.tdiv n ∧ v - n * v.tdiv n ≤ max v 0) ∧ v - n * v.tdiv n < n := by
  rcases le_total 0 v with hv | hv
  · have hlow := Int.emod_nonneg v hn.ne'
    have hhigh := Int.emod_lt_of_pos v hn
    have hmul := mul_nonneg hn.le (Int.ediv_nonneg hv hn.le)
    rw [Int.emod_def] at hlow hhigh
    rw [Int.tdiv_eq_ediv_of_nonneg hv]
    omega
  · obtain ⟨w, rfl⟩ : ∃ w, v = -w := ⟨-v, by omega⟩
    have hw : 0 ≤ w := by omega
    have hlow := Int.emod_nonneg w hn.ne'
    have hmul := mul_nonneg hn.le (Int.ediv_nonneg hw hn.le)
    rw [Int.emod_def] at hlow
    rw [Int.neg_tdiv, Int.tdiv_eq_ediv_of_nonneg hw, mul_neg]
    omega

end Remainder

section Offers

theorem share_eq_min {n : ℕ} (hn : 0 < n) (hleft : n ≤ left) (demand : ℤ) :
    share left n demand = min (settle demand) (left / n) := by
  have hone := FairShare.one_le_ediv hn hleft
  unfold share settle
  rw [Int.tdiv_eq_ediv_of_nonneg (by omega)]
  split <;> split <;> omega

theorem assignShares_fair (hnodup : names.Nodup) (hleft : names.length ≤ left) (core : CoreControlApplication) :
    (assignShares names names.length left core).2 =
        FairShare.spare (FairShare.greedy core.settledDemand) names left ∧
      ∀ job ∈ names, (assignShares names names.length left core).1.jobRates.read job =
        min (core.settledDemand job)
          (FairShare.offer (FairShare.greedy core.settledDemand) names left job) := by
  induction names generalizing left core with
  | nil => exact ⟨rfl, by simp⟩
  | cons first rest ih =>
    obtain ⟨hnotin, hnodup⟩ := List.nodup_cons.mp hnodup
    obtain ⟨demands, hother, _, heq⟩ := assignShares_share first rest (first :: rest).length left core
    have hshare : share left (first :: rest).length (core.jobDemands.read first) =
        FairShare.greedy core.settledDemand first left (rest.length + 1) :=
      share_eq_min (List.length_pos_of_mem List.mem_cons_self) hleft _
    have hcount : ((first :: rest).length : ℤ) - 1 = rest.length := by simp
    rw [heq, hshare, hcount]
    have hgreedy : ∀ job ∈ rest, FairShare.greedy (settledDemand (setRate first
        (FairShare.greedy core.settledDemand first left (rest.length + 1)) { core with jobDemands := demands }))
        job =
          FairShare.greedy core.settledDemand job := by
      intro job hj
      have hne : job ≠ first := fun he => hnotin (he ▸ hj)
      funext left n
      exact congrArg (fun demand => min (settle demand) (left / n)) (hother job hne)
    obtain ⟨hspare, hrates⟩ := ih hnodup (FairShare.le_sub_greedy hleft) (setRate first
      (FairShare.greedy core.settledDemand first left (rest.length + 1)) { core with jobDemands := demands })
    constructor
    · rw [hspare, FairShare.spare_congr hgreedy]
      rfl
    · intro job hj
      by_cases he : job = first
      · subst he
        rw [assignShares_other hnotin, setRate, Assoc.read_insert, if_pos rfl, FairShare.offer, if_pos rfl]
        rfl
      · have hmem := (List.mem_cons.mp hj).resolve_left he
        rw [hrates job hmem, FairShare.offer_congr hgreedy, FairShare.offer, if_neg he]
        congr 1
        exact congrArg settle (hother job he)

theorem vanillaRate_eq (hlimit : core.jobs.length ≤ core.maximumLimit) {job : String} (hj : job ∈ core.jobs) :
    core.vanillaRate job = FairShare.rate core.settledDemand core.jobs core.maximumLimit job := by
  obtain ⟨hspare, hrates⟩ := assignShares_fair core.jobs_nodup hlimit core
  have hnonneg : 0 ≤ FairShare.spare (FairShare.greedy core.settledDemand) core.jobs core.maximumLimit :=
    FairShare.spare_nonneg FairShare.greedy_le (by omega)
  unfold vanillaRate
  dsimp only
  rw [hspare, hrates job hj, Int.tdiv_eq_ediv_of_nonneg hnonneg]
  rfl

end Offers

section Rates

def demanded (limit : ℤ) (demands : List (String × ℤ)) : CoreControlApplication :=
  demands.foldl (fun core e =>
    { registerStage ⟨e.1, 1, "u", "A"⟩ core with jobDemands := core.jobDemands.insert e.1 e.2 })
    (.new .dynamicVanilla [] limit .id)

theorem vanillaRate_sum (hjobs : core.jobs ≠ []) :
    core.maximumLimit - core.jobs.length < (core.jobs.map core.vanillaRate).sum ∧
      (core.jobs.map core.vanillaRate).sum ≤ max core.maximumLimit core.jobs.length := by
  have hpos : (0 : ℤ) < core.jobs.length := by exact_mod_cast List.length_pos_iff.mpr hjobs
  have hsum := assignShares_sum core.jobs_nodup core.jobs.length core.maximumLimit core
  have hlast := assignShares_last hjobs core.maximumLimit core
  have henough := @assignShares_left core.jobs core.maximumLimit 0 le_rfl zero_le_one
  have hnearly := @assignShares_left core.jobs core.maximumLimit 1 zero_le_one le_rfl
  have hrates : (core.jobs.map core.vanillaRate).sum =
      (core.jobs.map (assignShares core.jobs core.jobs.length core.maximumLimit core).1.jobRates.read).sum +
        core.jobs.length * (assignShares core.jobs core.jobs.length core.maximumLimit core).2.tdiv
        core.jobs.length := by
    have hrate : core.vanillaRate = fun job =>
        (assignShares core.jobs core.jobs.length core.maximumLimit core).1.jobRates.read job +
          (assignShares core.jobs core.jobs.length core.maximumLimit core).2.tdiv core.jobs.length := rfl
    rw [hrate, List.sum_map_add, List.map_const', List.sum_replicate, nsmul_eq_mul]
  obtain ⟨⟨hlow, hhigh⟩, hless⟩ :=
    sub_mul_tdiv_between (v := (assignShares core.jobs core.jobs.length core.maximumLimit core).2) hpos
  rw [hrates]
  constructor
  · omega
  · by_cases hunits : (core.jobs.length : ℤ) ≤ core.maximumLimit
    · have hleft := henough (by omega) core
      omega
    · by_cases hlack : (core.jobs.length : ℤ) ≤ core.maximumLimit + 1
      · have hleft := hnearly hlack core
        omega
      · omega

theorem vanillaRate_sum_no_unit :
    (0 : ℤ) - 3 < ((demanded 0 [("a", -1), ("b", -1), ("c", -1)]).jobs.map
        (demanded 0 [("a", -1), ("b", -1), ("c", -1)]).vanillaRate).sum ∧
      ((demanded 0 [("a", -1), ("b", -1), ("c", -1)]).jobs.map
        (demanded 0 [("a", -1), ("b", -1), ("c", -1)]).vanillaRate).sum ≤ max 0 3 :=
  vanillaRate_sum (by decide)

theorem vanillaRate_minimum (hlimit : core.jobs.length ≤ core.maximumLimit) {job : String}
    (hj : job ∈ core.jobs) :
    (0 ≤ core.jobDemands.read job →
        min (core.jobDemands.read job) (core.maximumLimit / core.jobs.length) ≤ core.vanillaRate job) ∧
      (core.jobDemands.read job = -1 → 1 ≤ core.vanillaRate job) := by
  have hrate : min (core.settledDemand job) (core.maximumLimit / core.jobs.length) ≤
      FairShare.rate core.settledDemand core.jobs core.maximumLimit job := FairShare.le_rate (by omega) hj
  have hone := FairShare.one_le_ediv (List.length_pos_of_mem hj) hlimit
  rw [← vanillaRate_eq hlimit hj, settledDemand, settle] at hrate
  constructor
  · intro hdemand
    rw [if_neg (by omega)] at hrate
    exact hrate
  · intro hdemand
    rw [if_pos hdemand] at hrate
    omega

theorem vanillaRate_minimum_last_job :
    min 40 (100 / 3) ≤ (demanded 100 [("a", 90), ("b", -1), ("c", 40)]).vanillaRate "c" ∧
      1 ≤ (demanded 100 [("a", 90), ("b", -1), ("c", 40)]).vanillaRate "b" :=
  ⟨(vanillaRate_minimum (by decide) (by decide)).1 (by decide),
    (vanillaRate_minimum (by decide) (by decide)).2 (by decide)⟩

theorem vanillaRate_raised (hlimit : core.jobs.length ≤ core.maximumLimit) {demands : Assoc String ℤ}
    {job : String} (hj : job ∈ core.jobs) (hdemand : 0 ≤ core.jobDemands.read job)
    (hraised : core.jobDemands.read job ≤ demands.read job)
    (hothers : ∀ k ∈ core.jobs, k ≠ job → demands.read k = core.jobDemands.read k) :
    core.vanillaRate job ≤ vanillaRate { core with jobDemands := demands } job ∧
      ∀ k ∈ core.jobs, k ≠ job → vanillaRate { core with jobDemands := demands } k ≤ core.vanillaRate k := by
  have hsettled : core.settledDemand job ≤ settledDemand { core with jobDemands := demands } job := by
    simp only [settledDemand, settle]
    rw [if_neg (by omega), if_neg (by omega)]
    exact hraised
  have hsame : ∀ k ∈ core.jobs, k ≠ job →
      settledDemand { core with jobDemands := demands } k = core.settledDemand k :=
    fun k hk hne => congrArg settle (hothers k hk hne)
  obtain ⟨hmore, hless⟩ := FairShare.rate_raised hsettled hsame core.jobs_nodup hj core.maximumLimit
  have hrate : ∀ k ∈ core.jobs, vanillaRate { core with jobDemands := demands } k =
      FairShare.rate (settledDemand { core with jobDemands := demands }) core.jobs core.maximumLimit k := by
    intro k hk
    exact @vanillaRate_eq { core with jobDemands := demands } hlimit k hk
  constructor
  · rw [vanillaRate_eq hlimit hj, hrate job hj]
    exact hmore
  · intro k hk hne
    rw [vanillaRate_eq hlimit hk, hrate k hk]
    exact hless k hk hne

theorem vanillaRate_raised_first_job :
    (demanded 100 [("a", 20), ("b", 90)]).vanillaRate "a" ≤
    (demanded 100 [("a", 70), ("b", 90)]).vanillaRate "a" ∧
      ∀ k ∈ (demanded 100 [("a", 20), ("b", 90)]).jobs, k ≠ "a" →
        (demanded 100 [("a", 70), ("b", 90)]).vanillaRate k ≤
        (demanded 100 [("a", 20), ("b", 90)]).vanillaRate k :=
  @vanillaRate_raised (demanded 100 [("a", 20), ("b", 90)]) (by decide)
    (demanded 100 [("a", 70), ("b", 90)]).jobDemands "a" (by decide) (by decide) (by decide) (by decide)

def Fair (core : CoreControlApplication) : Prop :=
  (∃ job ∈ core.jobs, core.vanillaRate job < core.jobDemands.read job) →
    ∀ job ∈ core.jobs, core.vanillaRate job ≤ core.jobDemands.read job

instance : Decidable core.Fair := inferInstanceAs (Decidable (_ → _))

/-- The jobs that take an equal part at their turn are chosen beforehand, the others get their demand:
every choice leaves less than a unit for each job, or one of them serves every demand. -/
theorem vanillaRate_fair_iff (hlimit : core.jobs.length ≤ core.maximumLimit)
    (hdemands : ∀ job ∈ core.jobs, 1 ≤ core.jobDemands.read job) :
    core.Fair ↔
      (∀ even, FairShare.spare (FairShare.settled core.jobDemands.read even) core.jobs core.maximumLimit <
        core.jobs.length) ∨
      ∃ even, ∀ job ∈ core.jobs, core.jobDemands.read job ≤
        FairShare.offer (FairShare.settled core.jobDemands.read even) core.jobs core.maximumLimit job +
          FairShare.spare (FairShare.settled core.jobDemands.read even) core.jobs core.maximumLimit /
            core.jobs.length := by
  have hrate : ∀ job ∈ core.jobs, core.vanillaRate job =
      FairShare.rate core.jobDemands.read core.jobs core.maximumLimit job := by
    intro job hj
    rw [vanillaRate_eq hlimit hj]
    apply FairShare.rate_congr _ hj
    intro k hk
    have hdemand := hdemands k hk
    rw [settledDemand, settle, if_neg (by omega)]
  rw [← FairShare.fair_iff core.jobs_nodup (by omega : 0 ≤ core.maximumLimit), Fair]
  have hlack : (∃ job ∈ core.jobs, core.vanillaRate job < core.jobDemands.read job) ↔
      ∃ job ∈ core.jobs, FairShare.rate core.jobDemands.read core.jobs core.maximumLimit job <
        core.jobDemands.read job :=
    exists_congr fun job => and_congr_right fun hj => by rw [hrate job hj]
  rw [hlack]
  exact imp_congr_right fun _ => forall₂_congr fun job hj => by rw [hrate job hj]

theorem vanillaRate_fair_of_rising_demands : (demanded 100 [("a", 60), ("b", 80)]).Fair := by
  apply (vanillaRate_fair_iff (by decide) (by decide)).mpr
  left
  intro even
  simp only [show (demanded 100 [("a", 60), ("b", 80)]).jobs = ["a", "b"] by decide, FairShare.spare,
    FairShare.settled]
  cases even "a" <;> cases even "b" <;> decide

theorem vanillaRate_unfair_first_job :
    (demanded 100 [("a", 100), ("b", 1)]).jobs.length ≤ (demanded 100 [("a", 100), ("b", 1)]).maximumLimit ∧
      (∀ job ∈ (demanded 100 [("a", 100), ("b", 1)]).jobs,
        1 ≤ (demanded 100 [("a", 100), ("b", 1)]).jobDemands.read job) ∧
      (demanded 100 [("a", 100), ("b", 1)]).vanillaRate "a" = 74 ∧
      (demanded 100 [("a", 100), ("b", 1)]).vanillaRate "b" = 25 ∧
      ¬ (demanded 100 [("a", 100), ("b", 1)]).Fair := by
  decide

end Rates

end Cheferd.CoreControlApplication
