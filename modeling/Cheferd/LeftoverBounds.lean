import Cheferd.LeftoverAllocation

namespace Cheferd.CoreControlApplication

open Library

variable {core core' core₂ : CoreControlApplication} {dStats : Assoc String Rates} {sessionsSent : List String}

def leftoverWant (demand totalRate : ℤ) : ℤ :=
  if (totalRate : ℚ) ≤ demand * 0.95 then ⌊(totalRate + (demand - totalRate) * 0.25 : ℚ)⌋ else demand

theorem leftoverRate_eq_min (demand : ℤ) {totalRate : ℤ} (htotal : 0 ≤ totalRate) (fairShare : ℤ) :
    leftoverRate demand totalRate fairShare = min (leftoverWant demand totalRate) fairShare := by
  have htotalRate : (0 : ℚ) ≤ totalRate := by exact_mod_cast htotal
  unfold leftoverRate leftoverWant
  dsimp only
  rw [Double.truncate_intCast]
  split
  case isTrue hbelow =>
    have hdemand : (0 : ℚ) ≤ demand := by linarith
    have hnonneg : (0 : ℚ) ≤ totalRate + (demand - totalRate) * 0.25 := by linarith
    split
    case isTrue hroom =>
      rw [Double.truncate_of_nonneg hnonneg]
      exact (min_eq_left (Int.floor_lt.mpr hroom).le).symm
    case isFalse hroom => exact (min_eq_right (Int.le_floor.mpr (not_lt.mp hroom))).symm
  case isFalse =>
    split
    case isTrue hsmall => exact (min_eq_left (by exact_mod_cast hsmall.le)).symm
    case isFalse hsmall => exact (min_eq_right (by exact_mod_cast not_lt.mp hsmall)).symm

theorem leftoverWant_nonneg {demand totalRate : ℤ} (hdemand : 0 ≤ demand) (htotal : 0 ≤ totalRate) :
    0 ≤ leftoverWant demand totalRate := by
  have htotalRate : (0 : ℚ) ≤ totalRate := by exact_mod_cast htotal
  unfold leftoverWant
  split
  case isTrue hbelow => exact Int.floor_nonneg.mpr (by linarith)
  case isFalse => exact hdemand

theorem leftoverWant_missing {totalRate : ℤ} (htotal : 0 ≤ totalRate) : leftoverWant (-1) totalRate = -1 := by
  have htotalRate : (0 : ℚ) ≤ totalRate := by exact_mod_cast htotal
  unfold leftoverWant
  rw [if_neg]
  push_cast
  linarith

def wantOf (dStats : Assoc String Rates) (sessionsSent : List String) (core : CoreControlApplication)
    (app : Σ _ : String, Locations) : ℤ :=
  leftoverWant (core.jobDemands.read app.1) (jobUsage dStats sessionsSent core app)

theorem assignUsage_fair {apps : List (Σ _ : String, Locations)} {usage usage' : Usage}
    (hnodup : (apps.map Sigma.fst).Nodup) (hmeasured : ∀ app ∈ apps, Measured dStats sessionsSent app)
    (hleft : 0 ≤ usage.leftIops) (hfit : usage.leftIops + core.owed (apps.map Sigma.fst) < 2 ^ 64)
    (h : assignUsage dStats sessionsSent apps apps.length core usage = .ok (core', usage')) :
    usage'.leftIops =
        FairShare.spare (FairShare.greedy (wantOf dStats sessionsSent core)) apps usage.leftIops ∧
      (∀ app ∈ apps, core'.jobRates.read app.1 = min (wantOf dStats sessionsSent core app)
        (FairShare.offer (FairShare.greedy (wantOf dStats sessionsSent core)) apps usage.leftIops app)) ∧
      ∀ job ∉ apps.map Sigma.fst, core'.jobRates.read job = core.jobRates.read job := by
  induction apps generalizing core usage with
  | nil =>
    cases h
    exact ⟨rfl, by simp, fun _ _ => rfl⟩
  | cons first rest ih =>
    obtain ⟨hnotin, hnodup⟩ := List.nodup_cons.mp hnodup
    have hcount : (0 : ℤ) < (first :: rest).length := by
      exact_mod_cast List.length_pos_of_mem List.mem_cons_self
    obtain ⟨rate, hrate, _, hhigh, hback, h⟩ := assignUsage_next hcount (hmeasured first List.mem_cons_self)
      hleft hfit h
    rw [leftoverRate_eq_min _ (core.jobUsage_nonneg (hmeasured first List.mem_cons_self))] at hrate
    have hgreedy : rate = FairShare.greedy (wantOf dStats sessionsSent core) first usage.leftIops
      (rest.length + 1) :=
      hrate
    have hwant : wantOf dStats sessionsSent (setRate first.1 rate core) = wantOf dStats sessionsSent core := by
      funext app
      rw [wantOf, wantOf, jobUsage_congr rfl rfl]
      rfl
    have hlength : ((first :: rest).length : ℤ) - 1 = rest.length := by simp
    rw [hlength] at h
    obtain ⟨hspare, hrates, hothers⟩ := ih hnodup (fun a ha => hmeasured a (List.mem_cons_of_mem _ ha))
      (by dsimp only; omega) (hback.trans_lt hfit) h
    rw [hwant] at hspare hrates
    refine ⟨?_, fun app happ => ?_, fun job hj => ?_⟩
    · rw [hspare, FairShare.spare, ← hgreedy]
    · by_cases he : app = first
      · subst he
        rw [hothers app.1 hnotin, setRate, Assoc.read_insert, if_pos rfl, FairShare.offer, if_pos rfl]
        exact hrate
      · rw [hrates app ((List.mem_cons.mp happ).resolve_left he), FairShare.offer, if_neg he, ← hgreedy]
    · obtain ⟨hne, hj⟩ := not_or.mp fun h => hj (List.mem_cons.mpr h)
      rw [hothers job hj, setRate, Assoc.read_insert, if_neg hne]

def totalUsage (dStats : Assoc String Rates) (sessionsSent : List String) (core : CoreControlApplication) : ℤ :=
  (core.jobLocationTracker.entries.map (jobUsage dStats sessionsSent core)).sum

section Markings

variable (dStats : Assoc String Rates) (sessionsSent : List String) (core : CoreControlApplication)
  (even : (Σ _ : String, Locations) → Bool)

def settledSpare : ℤ :=
  FairShare.spare (FairShare.settled (wantOf dStats sessionsSent core) even) core.jobLocationTracker.entries
    core.maximumLimit

def settledRate (app : Σ _ : String, Locations) : ℤ :=
  min (wantOf dStats sessionsSent core app)
      (FairShare.offer (FairShare.settled (wantOf dStats sessionsSent core) even)
        core.jobLocationTracker.entries
        core.maximumLimit app) +
    ⌊(unsigned (jobUsage dStats sessionsSent core app) : ℚ) *
      (settledSpare dStats sessionsSent core even / unsigned (totalUsage dStats sessionsSent core))⌋

end Markings

section Bounds

variable {usage : Usage}

theorem owed_le_length (hdemands : ∀ job ∈ core.jobs, -1 ≤ core.jobDemands.read job) :
    core.owed core.jobs ≤ core.jobs.length := by
  have hle := List.sum_le_card_nsmul (core.jobs.map fun job => max 0 (-core.jobDemands.read job)) 1 (by
    intro v hv
    obtain ⟨job, hj, rfl⟩ := List.mem_map.mp hv
    have hdemand := hdemands job hj
    omega)
  simpa [owed] using hle

theorem leftoverRates_eq (hunwrapped : core.Unwrapped)
    (hmeasured : ∀ app ∈ core.jobLocationTracker.entries, Measured dStats sessionsSent app)
    (h : firstPhase dStats sessionsSent core = .ok (core₂, usage)) :
    usage.systemTotalRate = unsigned (totalUsage dStats sessionsSent core) ∧
      usage.leftIops = FairShare.spare (FairShare.greedy (wantOf dStats sessionsSent core))
        core.jobLocationTracker.entries core.maximumLimit ∧
      ∀ app ∈ core.jobLocationTracker.entries, (distributeLeftover usage core₂).jobRates.read app.1 =
        min (wantOf dStats sessionsSent core app) (FairShare.offer
            (FairShare.greedy (wantOf dStats sessionsSent core))
            core.jobLocationTracker.entries core.maximumLimit app) +
          ⌊(unsigned (jobUsage dStats sessionsSent core app) : ℚ) *
            (usage.leftIops / unsigned (totalUsage dStats sessionsSent core))⌋ := by
  have hkeys : (core.jobLocationTracker.entries.map Sigma.fst).Nodup := core.jobLocationTracker.keys_nodup
  have hlength : core.jobs.length = core.jobLocationTracker.entries.length := by
    rw [jobs, AList.keys, List.keys, List.length_map]
  have howed := core.owed_nonneg core.jobs
  have hstart : (Usage.start core).leftIops = core.maximumLimit :=
    unsigned_eq hunwrapped.1 (by have := hunwrapped.2; omega)
  obtain ⟨hper, hsystem, _⟩ := assignUsage_totals hmeasured rfl h
  have hsystem : usage.systemTotalRate = unsigned (totalUsage dStats sessionsSent core) :=
    hsystem.trans (congrArg unsigned (zero_add _))
  rw [firstPhase, hlength] at h
  obtain ⟨hspare, hrates, _⟩ := assignUsage_fair hkeys hmeasured (by rw [hstart]; exact hunwrapped.1)
    (by rw [hstart]; exact hunwrapped.2) h
  rw [hstart] at hspare hrates
  refine ⟨hsystem, hspare, fun app happ => ?_⟩
  have hread := @distributeLeftover_read core₂ usage _ _ hkeys (hper.trans (List.nil_append _)) app happ
  rw [hsystem, hrates app happ] at hread
  exact hread

theorem leftoverRates_nonneg_iff (hunwrapped : core.Unwrapped)
    (hdemands : ∀ job ∈ core.jobs, -1 ≤ core.jobDemands.read job)
    (hmeasured : ∀ app ∈ core.jobLocationTracker.entries, Measured dStats sessionsSent app)
    (h : firstPhase dStats sessionsSent core = .ok (core₂, usage))
    (htotal : 0 < unsigned (totalUsage dStats sessionsSent core)) {app : Σ _ : String, Locations}
    (happ : app ∈ core.jobLocationTracker.entries) :
    0 ≤ (distributeLeftover usage core₂).jobRates.read app.1 ↔
      (core.jobDemands.read app.1 = -1 → unsigned (totalUsage dStats sessionsSent core) ≤
        unsigned (jobUsage dStats sessionsSent core app) * usage.leftIops) := by
  obtain ⟨_, hspare, hrates⟩ := leftoverRates_eq hunwrapped hmeasured h
  have hlimit := hunwrapped.1
  have hused := core.jobUsage_nonneg (hmeasured app happ)
  have hleft : 0 ≤ usage.leftIops := hspare ▸ FairShare.spare_nonneg FairShare.greedy_le hlimit
  have hoffer : 0 ≤ FairShare.offer (FairShare.greedy (wantOf dStats sessionsSent core))
      core.jobLocationTracker.entries core.maximumLimit app :=
    (Int.ediv_nonneg hlimit (Int.natCast_nonneg _)).trans (FairShare.le_offer FairShare.greedy_le happ)
  have hshare : 0 ≤ ⌊(unsigned (jobUsage dStats sessionsSent core app) : ℚ) *
      (usage.leftIops / unsigned (totalUsage dStats sessionsSent core))⌋ := by
    apply Int.floor_nonneg.mpr
    apply mul_nonneg
    · exact_mod_cast Int.emod_nonneg _ (by decide)
    · exact div_nonneg (by exact_mod_cast hleft) (by exact_mod_cast htotal.le)
  rw [hrates app happ]
  by_cases hmissing : core.jobDemands.read app.1 = -1
  · have hwant : wantOf dStats sessionsSent core app = -1 := by
      rw [wantOf, hmissing]
      exact leftoverWant_missing hused
    rw [← Shares.one_le_floor_share_iff htotal, hwant]
    constructor
    · intro hrate _
      omega
    · intro hone
      have hone := hone hmissing
      omega
  · have hdemand : 0 ≤ core.jobDemands.read app.1 := by
      have hlow := hdemands app.1 (List.mem_map_of_mem happ)
      omega
    have hwant : 0 ≤ wantOf dStats sessionsSent core app := leftoverWant_nonneg hdemand hused
    constructor
    · exact fun _ he => absurd he hmissing
    · intro _
      omega

theorem settledRate_spec (hunwrapped : core.Unwrapped)
    (hmeasured : ∀ app ∈ core.jobLocationTracker.entries, Measured dStats sessionsSent app)
    (h : firstPhase dStats sessionsSent core = .ok (core₂, usage)) :
    (∀ even, settledSpare dStats sessionsSent core even ≤ usage.leftIops ∧
        ∀ app ∈ core.jobLocationTracker.entries,
          settledRate dStats sessionsSent core even app ≤
          (distributeLeftover usage core₂).jobRates.read app.1) ∧
      ∃ even, settledSpare dStats sessionsSent core even = usage.leftIops ∧
        ∀ app ∈ core.jobLocationTracker.entries,
          settledRate dStats sessionsSent core even app =
          (distributeLeftover usage core₂).jobRates.read app.1 := by
  obtain ⟨_, hspare, hrates⟩ := leftoverRates_eq hunwrapped hmeasured h
  constructor
  · intro even
    obtain ⟨hless, hoffers⟩ := FairShare.settled_le_greedy (wantOf dStats sessionsSent core) even
      core.jobLocationTracker.entries core.maximumLimit
    rw [← hspare] at hless
    refine ⟨hless, fun app happ => ?_⟩
    rw [hrates app happ]
    apply add_le_add
    · exact min_le_min_left _ (hoffers app)
    · exact Shares.floor_share_mono (Int.emod_nonneg _ (by decide)) (Int.emod_nonneg _ (by decide)) hless
  · have hkeys : (core.jobLocationTracker.entries.map Sigma.fst).Nodup := core.jobLocationTracker.keys_nodup
    obtain ⟨even, hsame, hoffers⟩ := FairShare.exists_settled (wantOf dStats sessionsSent core)
      (List.Nodup.of_map _ hkeys) core.maximumLimit
    rw [← hspare] at hsame
    refine ⟨even, hsame, fun app happ => ?_⟩
    rw [hrates app happ, settledRate, settledSpare, hsame, hoffers app happ]

theorem leftover_bounds_iff (hlimit : 0 ≤ core.maximumLimit) (hlong : core.maximumLimit < 2 ^ 63)
    (hcount : core.jobs.length < 2 ^ 63) (hdemands : ∀ job ∈ core.jobs, -1 ≤ core.jobDemands.read job)
    (hmeasured : ∀ app ∈ core.jobLocationTracker.entries, Measured dStats sessionsSent app)
    (h : firstPhase dStats sessionsSent core = .ok (core₂, usage)) (htotal : 0 < usage.systemTotalRate) :
    (∀ job ∈ core.jobs, 0 ≤ (distributeLeftover usage core₂).jobRates.read job ∧
        (distributeLeftover usage core₂).jobRates.read job ≤ core.maximumLimit) ↔
      (∃ even, ∀ app ∈ core.jobLocationTracker.entries, core.jobDemands.read app.1 = -1 →
        unsigned (totalUsage dStats sessionsSent core) ≤
          unsigned (jobUsage dStats sessionsSent core app) * settledSpare dStats sessionsSent core even) ∧
      (totalUsage dStats sessionsSent core < 2 ^ 64 ∨
        ∀ even, ∀ app ∈ core.jobLocationTracker.entries,
          settledRate dStats sessionsSent core even app ≤ core.maximumLimit) := by
  have hunwrapped : core.Unwrapped := by
    have howed := owed_le_length hdemands
    constructor
    · exact hlimit
    · omega
  obtain ⟨hbelow, best, hspare, hbest⟩ := settledRate_spec hunwrapped hmeasured h
  have hsystem := (leftoverRates_eq hunwrapped hmeasured h).1
  have hpositive : 0 < unsigned (totalUsage dStats sessionsSent core) := hsystem ▸ htotal
  have hlow : ∀ app ∈ core.jobLocationTracker.entries,
      0 ≤ (distributeLeftover usage core₂).jobRates.read app.1 ↔ _ :=
    fun app happ => leftoverRates_nonneg_iff hunwrapped hdemands hmeasured h hpositive happ
  constructor
  · intro hall
    constructor
    · refine ⟨best, fun app happ hmissing => ?_⟩
      rw [hspare]
      exact (hlow app happ).mp (hall app.1 (List.mem_map_of_mem happ)).1 hmissing
    · right
      intro even app happ
      exact ((hbelow even).2 app happ).trans (hall app.1 (List.mem_map_of_mem happ)).2
  · rintro ⟨⟨even, hserved⟩, hhigh⟩
    have hnonneg : ∀ job ∈ core.jobs, 0 ≤ (distributeLeftover usage core₂).jobRates.read job := by
      intro job hj
      obtain ⟨app, happ, rfl⟩ := List.mem_map.mp hj
      refine (hlow app happ).mpr fun hmissing => (hserved app happ hmissing).trans ?_
      exact mul_le_mul_of_nonneg_left (hbelow even).1 (Int.emod_nonneg _ (by decide))
    intro job hj
    refine ⟨hnonneg job hj, ?_⟩
    rcases hhigh with hcounted | hhigh
    · have hsum := (leftoverRates_sum hunwrapped hmeasured hcounted h htotal).2
      have hle := List.single_le_sum (fun v hv => by
        obtain ⟨other, ho, rfl⟩ := List.mem_map.mp hv
        exact hnonneg other ho) _ (List.mem_map_of_mem (f := (distributeLeftover usage core₂).jobRates.read) hj)
      exact hle.trans hsum
    · obtain ⟨app, happ, rfl⟩ := List.mem_map.mp hj
      rw [← hbest app happ]
      exact hhigh best app happ

def threeReports : Assoc String Rates := reports [("a", 0), ("b", 150), ("c", 200)]

def missingDemand : CoreControlApplication := demanded 1000 [("a", -1), ("b", 200), ("c", 600)]

theorem leftover_bounds_three_jobs :
    ∃ s, firstPhase threeReports ["A"] missingDemand = .ok s ∧
      ((∀ job ∈ missingDemand.jobs, 0 ≤ (distributeLeftover s.2 s.1).jobRates.read job ∧
          (distributeLeftover s.2 s.1).jobRates.read job ≤ missingDemand.maximumLimit) ↔
        (∃ even, ∀ app ∈ missingDemand.jobLocationTracker.entries, missingDemand.jobDemands.read app.1 = -1 →
          unsigned (totalUsage threeReports ["A"] missingDemand) ≤
            unsigned (jobUsage threeReports ["A"] missingDemand app) *
              settledSpare threeReports ["A"] missingDemand even) ∧
        (totalUsage threeReports ["A"] missingDemand < 2 ^ 64 ∨
          ∀ even, ∀ app ∈ missingDemand.jobLocationTracker.entries,
            settledRate threeReports ["A"] missingDemand even app ≤ missingDemand.maximumLimit)) := by
  obtain ⟨s, hs, htotal⟩ : ∃ s, firstPhase threeReports ["A"] missingDemand = .ok s ∧ 0 < s.2.systemTotalRate :=
    Fault.exists_of_any (by decide +kernel)
  exact ⟨s, hs, leftover_bounds_iff (by decide) (by decide) (by decide) (by decide)
    (by decide +kernel) hs htotal⟩

theorem leftover_exceeds_limit :
    ∃ s, firstPhase (reports [("a", 1), ("b", 1000)]) ["A"] (demanded 100 [("a", -1), ("b", 200)]) = .ok s ∧
      (∀ app ∈ (demanded 100 [("a", -1), ("b", 200)]).jobLocationTracker.entries,
        Measured (reports [("a", 1), ("b", 1000)]) ["A"] app) ∧
      0 < s.2.systemTotalRate ∧ (distributeLeftover s.2 s.1).jobRates.read "a" = -1 ∧
      (distributeLeftover s.2 s.1).jobRates.read "b" = 101 :=
  Fault.exists_of_any (by decide +kernel)

end Bounds

end Cheferd.CoreControlApplication
