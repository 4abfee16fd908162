import Cheferd.Enforcement
import Cheferd.VanillaAllocation
import Cheferd.Library.Shares

namespace Cheferd.CoreControlApplication

open Library

variable {core core' : CoreControlApplication} {dStats : Assoc String Rates} {sessionsSent : List String}

theorem unsigned_eq {v : ℤ} (hv : 0 ≤ v) (hlt : v < 2 ^ 64) : unsigned v = v := Int.emod_eq_of_lt hv hlt

theorem unsigned_add (v w : ℤ) : unsigned (unsigned v + w) = unsigned (v + w) := Int.emod_add_emod _ _ _

theorem leftoverRate_between (demand : ℤ) {totalRate fairShare : ℤ} (htotal : 0 ≤ totalRate)
    (hfair : 0 ≤ fairShare) :
    min demand 0 ≤ leftoverRate demand totalRate fairShare ∧
      leftoverRate demand totalRate fairShare ≤ fairShare := by
  have htotalRate : (0 : ℚ) ≤ totalRate := by exact_mod_cast htotal
  unfold leftoverRate
  dsimp only
  rw [Double.truncate_intCast]
  split
  case isTrue hbelow =>
    split
    case isTrue hroom =>
      have hdemand : (0 : ℚ) ≤ demand := by linarith
      have hnonneg : (0 : ℚ) ≤ totalRate + (demand - totalRate) * 0.25 := by linarith
      rw [Double.truncate_of_nonneg hnonneg]
      constructor
      · exact (min_le_right _ _).trans (Int.floor_nonneg.mpr hnonneg)
      · exact (Int.floor_lt.mpr hroom).le
    case isFalse => exact ⟨(min_le_right _ _).trans hfair, le_rfl⟩
  case isFalse =>
    split
    case isTrue hsmall => exact ⟨min_le_left _ _, by exact_mod_cast hsmall.le⟩
    case isFalse => exact ⟨(min_le_right _ _).trans hfair, le_rfl⟩

section Usages

def stageUsage (dStats : Assoc String Rates) (sessionsSent : List String) (core : CoreControlApplication)
    (job address : String) (env : ℤ) : ℤ :=
  if address ∈ sessionsSent then ⌊reportedRate ((dStats.lookup address).getD ∅) (stageKey job env)⌋
  else unsigned (core.maximumLimit * core.jobs.length)

def controllerUsage (dStats : Assoc String Rates) (sessionsSent : List String) (core : CoreControlApplication)
    (app : Σ _ : String, Locations) (address : String) : ℤ :=
  (((app.2.lookup address).getD []).map (stageUsage dStats sessionsSent core app.1 address)).sum

def jobUsage (dStats : Assoc String Rates) (sessionsSent : List String) (core : CoreControlApplication)
    (app : Σ _ : String, Locations) : ℤ :=
  (app.2.keys.map (controllerUsage dStats sessionsSent core app)).sum

def Measured (dStats : Assoc String Rates) (sessionsSent : List String)
    (app : Σ _ : String, Locations) : Prop :=
  ∀ address ∈ sessionsSent, ∀ rates ∈ dStats.lookup address, ∀ env ∈ (app.2.lookup address).getD [],
    0 ≤ reportedRate rates (stageKey app.1 env)

instance (app : Σ _ : String, Locations) : Decidable (Measured dStats sessionsSent app) :=
  inferInstanceAs (Decidable (∀ _ ∈ sessionsSent, _))

theorem addRates_eq {rates : Rates} {job : String} {envs : List ℤ}
    (h : ∀ env ∈ envs, 0 ≤ reportedRate rates (stageKey job env)) {total : ℤ} (htotal : 0 ≤ total) :
    addRates rates job envs total =
      total + (envs.map fun env => ⌊reportedRate rates (stageKey job env)⌋).sum := by
  induction envs generalizing total with
  | nil => simp [addRates]
  | cons env envs ih =>
    have hrate := h env List.mem_cons_self
    have hnonneg : (0 : ℚ) ≤ total := by exact_mod_cast htotal
    have hstep : Double.truncate (total + reportedRate rates (stageKey job env)) =
        total + ⌊reportedRate rates (stageKey job env)⌋ := by
      rw [Double.truncate_of_nonneg (by linarith), Int.floor_intCast_add]
    have hfloor := Int.floor_nonneg.mpr hrate
    have hrest := ih (fun e he => h e (List.mem_cons_of_mem _ he))
      (by omega : 0 ≤ total + ⌊reportedRate rates (stageKey job env)⌋)
    rw [List.map_cons, List.sum_cons, ← add_assoc, ← hrest, addRates, List.foldl_cons, hstep, addRates]

theorem stageUsage_nonneg (core : CoreControlApplication) {app : Σ _ : String, Locations}
    (hmeasured : Measured dStats sessionsSent app)
    {address : String} {env : ℤ} (henv : env ∈ (app.2.lookup address).getD []) :
    0 ≤ stageUsage dStats sessionsSent core app.1 address env := by
  unfold stageUsage
  split
  case isTrue hsent =>
    apply Int.floor_nonneg.mpr
    cases hrates : dStats.lookup address with
    | none =>
      rw [Option.getD_none, reportedRate, AList.lookup_empty]
      exact zero_le_one
    | some rates => exact hmeasured address hsent rates hrates env henv
  case isFalse => exact Int.emod_nonneg _ (by decide)

theorem controllerUsage_nonneg (core : CoreControlApplication) {app : Σ _ : String, Locations}
    (hmeasured : Measured dStats sessionsSent app)
    (address : String) : 0 ≤ controllerUsage dStats sessionsSent core app address := by
  apply List.sum_nonneg
  intro v hv
  obtain ⟨env, henv, rfl⟩ := List.mem_map.mp hv
  exact core.stageUsage_nonneg hmeasured henv

theorem jobUsage_nonneg (core : CoreControlApplication) {app : Σ _ : String, Locations}
    (hmeasured : Measured dStats sessionsSent app) :
    0 ≤ jobUsage dStats sessionsSent core app := by
  apply List.sum_nonneg
  intro v hv
  obtain ⟨address, _, rfl⟩ := List.mem_map.mp hv
  exact core.controllerUsage_nonneg hmeasured address

theorem totalAppRate_eq {app : Σ _ : String, Locations} (hmeasured : Measured dStats sessionsSent app)
    {addresses : List String} {total total' : ℤ} (htotal : 0 ≤ total)
    (h : totalAppRate dStats sessionsSent core app.1 app.2 addresses total = .ok total') :
    total' = total + (addresses.map (controllerUsage dStats sessionsSent core app)).sum := by
  induction addresses generalizing total with
  | nil =>
    cases h
    simp
  | cons address rest ih =>
    have hnonneg := core.controllerUsage_nonneg hmeasured address
    have hstep : totalAppRate dStats sessionsSent core app.1 app.2 rest
        (total + controllerUsage dStats sessionsSent core app address) = .ok total' := by
      unfold totalAppRate at h
      dsimp only at h
      unfold controllerUsage stageUsage
      split at h
      case isTrue hsent =>
        split at h
        case h_1 => cases h
        case h_2 rates hrates =>
          rw [addRates_eq (hmeasured address hsent rates hrates) htotal] at h
          simp only [hsent, if_true, hrates, Option.getD_some]
          exact h
      case isFalse hsent =>
        simp only [hsent, if_false, List.map_const', List.sum_replicate, nsmul_eq_mul]
        exact h
    rw [ih (by omega) hstep, List.map_cons, List.sum_cons]
    omega

theorem jobUsage_congr (hlimit : core'.maximumLimit = core.maximumLimit) (hjobs : core'.jobs = core.jobs) :
    jobUsage dStats sessionsSent core' = jobUsage dStats sessionsSent core := by
  funext app
  unfold jobUsage controllerUsage stageUsage
  rw [hlimit, hjobs]

theorem totalAppRate_congr (hlimit : core'.maximumLimit = core.maximumLimit) (hjobs : core'.jobs = core.jobs)
    (job : String) (locations : Locations) (addresses : List String) (total : ℤ) :
    totalAppRate dStats sessionsSent core' job locations addresses total =
      totalAppRate dStats sessionsSent core job locations addresses total := by
  induction addresses generalizing total with
  | nil => rfl
  | cons address rest ih => simp only [totalAppRate, ih, hlimit, hjobs]

def usageOf (dStats : Assoc String Rates) (sessionsSent : List String) (core : CoreControlApplication)
    (app : Σ _ : String, Locations) : ℤ :=
  (totalAppRate dStats sessionsSent core app.1 app.2 (core.hash.order app.1 app.2.keys) 0).toOption.getD 0

theorem usageOf_congr (hlimit : core'.maximumLimit = core.maximumLimit) (hjobs : core'.jobs = core.jobs)
    (hhash : core'.hash = core.hash) :
    usageOf dStats sessionsSent core' = usageOf dStats sessionsSent core := by
  funext app
  rw [usageOf, usageOf, totalAppRate_congr hlimit hjobs, hhash]

theorem usageOf_eq {app : Σ _ : String, Locations} (hmeasured : Measured dStats sessionsSent app) {total : ℤ}
    (h : totalAppRate dStats sessionsSent core app.1 app.2 (core.hash.order app.1 app.2.keys) 0 = .ok total) :
    total = jobUsage dStats sessionsSent core app := by
  rw [totalAppRate_eq hmeasured le_rfl h, zero_add, jobUsage]
  exact ((core.hash.perm app.1 app.2.keys).map _).sum_eq

theorem usageOf_nonneg {app : Σ _ : String, Locations} (hmeasured : Measured dStats sessionsSent app) :
    0 ≤ usageOf dStats sessionsSent core app := by
  unfold usageOf
  cases h : totalAppRate dStats sessionsSent core app.1 app.2 (core.hash.order app.1 app.2.keys) 0 with
  | error e => exact le_rfl
  | ok total =>
    change 0 ≤ total
    rw [usageOf_eq hmeasured h]
    exact core.jobUsage_nonneg hmeasured

end Usages

section FirstPhase

variable {apps : List (Σ _ : String, Locations)} {currentJobs : ℤ} {usage usage' : Usage}

theorem assignUsage_cons {app : Σ _ : String, Locations}
    (hmeasured : Measured dStats sessionsSent app)
    (h : assignUsage dStats sessionsSent (app :: apps) currentJobs core usage = .ok (core', usage')) :
    usageOf dStats sessionsSent core app = jobUsage dStats sessionsSent core app ∧
      ∃ rate, rate = leftoverRate (core.jobDemands.read app.1) (jobUsage dStats sessionsSent core app)
          (usage.leftIops / currentJobs : ℤ) ∧
        assignUsage dStats sessionsSent apps (currentJobs - 1) (setRate app.1 rate core)
          { perAppUsage := usage.perAppUsage ++ [(app.1, unsigned (jobUsage dStats sessionsSent core app))]
            systemTotalRate := unsigned (usage.systemTotalRate + jobUsage dStats sessionsSent core app)
            leftIops := unsigned (usage.leftIops - rate) } = .ok (core', usage') := by
  obtain ⟨total, htotal, h⟩ := Fault.bind_eq_ok.mp h
  have heq := usageOf_eq hmeasured htotal
  rw [heq] at h
  constructor
  · rw [usageOf, htotal]
    exact heq
  · exact ⟨_, rfl, h⟩

theorem assignUsage_totals (hmeasured : ∀ app ∈ apps, Measured dStats sessionsSent app)
    (hrange : unsigned usage.systemTotalRate = usage.systemTotalRate)
    (h : assignUsage dStats sessionsSent apps currentJobs core usage = .ok (core', usage')) :
    usage'.perAppUsage = usage.perAppUsage ++ apps.map (fun app =>
        (app.1, unsigned (jobUsage dStats sessionsSent core app))) ∧
      usage'.systemTotalRate =
        unsigned (usage.systemTotalRate + (apps.map (jobUsage dStats sessionsSent core)).sum) ∧
      ∀ app ∈ apps, usageOf dStats sessionsSent core app = jobUsage dStats sessionsSent core app := by
  induction apps generalizing core currentJobs usage with
  | nil =>
    cases h
    simp [hrange]
  | cons app rest ih =>
    obtain ⟨husage, rate, _, h⟩ := assignUsage_cons (hmeasured app List.mem_cons_self) h
    have hsame : jobUsage dStats sessionsSent (setRate app.1 rate core) = jobUsage dStats sessionsSent core :=
      jobUsage_congr rfl rfl
    have hsame' : usageOf dStats sessionsSent (setRate app.1 rate core) = usageOf dStats sessionsSent core :=
      usageOf_congr rfl rfl rfl
    obtain ⟨hper, htotal, hrest⟩ := ih (fun a ha => hmeasured a (List.mem_cons_of_mem _ ha))
      (by simpa using unsigned_add (usage.systemTotalRate + jobUsage dStats sessionsSent core app) 0) h
    rw [hsame] at hper htotal hrest
    rw [hsame'] at hrest
    refine ⟨?_, ?_, ?_⟩
    · rw [hper, List.map_cons, List.append_assoc, List.singleton_append]
    · rw [htotal, unsigned_add, List.map_cons, List.sum_cons, add_assoc]
    · intro a ha
      rcases List.mem_cons.mp ha with rfl | ha
      · exact husage
      · exact hrest a ha

theorem assignUsage_append (done rest : List (Σ _ : String, Locations)) :
    assignUsage dStats sessionsSent (done ++ rest) currentJobs core usage =
      assignUsage dStats sessionsSent done currentJobs core usage >>= fun s =>
        assignUsage dStats sessionsSent rest (currentJobs - done.length) s.1 s.2 := by
  induction done generalizing currentJobs core usage with
  | nil =>
    rw [List.nil_append, List.length_nil, Nat.cast_zero, sub_zero]
    rfl
  | cons app done ih =>
    have hcount : currentJobs - 1 - (done.length : ℤ) = currentJobs - ((app :: done).length : ℕ) := by
      rw [List.length_cons, Nat.cast_add, Nat.cast_one]
      omega
    rw [List.cons_append, assignUsage, assignUsage, bind_assoc]
    congr 1
    funext total
    rw [ih, hcount]

structure Handed (apps : List (Σ _ : String, Locations)) (usage usage' : Usage)
    (core core' : CoreControlApplication) : Prop where
  sum : (apps.map fun app => core'.jobRates.read app.1).sum + usage'.leftIops = usage.leftIops
  left : 0 ≤ usage'.leftIops
  bound : usage'.leftIops ≤ usage.leftIops + core.owed (apps.map Sigma.fst)
  rates : ∀ app ∈ apps, min (core.jobDemands.read app.1) 0 ≤ core'.jobRates.read app.1
  others : ∀ job ∉ apps.map Sigma.fst, core'.jobRates.read job = core.jobRates.read job

theorem assignUsage_next {app : Σ _ : String, Locations} (hcount : 0 < currentJobs)
    (hmeasured : Measured dStats sessionsSent app) (hleft : 0 ≤ usage.leftIops)
    (hfit : usage.leftIops + core.owed ((app :: apps).map Sigma.fst) < 2 ^ 64)
    (h : assignUsage dStats sessionsSent (app :: apps) currentJobs core usage = .ok (core', usage')) :
    ∃ rate, rate = leftoverRate (core.jobDemands.read app.1) (jobUsage dStats sessionsSent core app)
        (usage.leftIops / currentJobs : ℤ) ∧
      min (core.jobDemands.read app.1) 0 ≤ rate ∧ rate ≤ usage.leftIops ∧
      usage.leftIops - rate + core.owed (apps.map Sigma.fst) ≤
        usage.leftIops + core.owed ((app :: apps).map Sigma.fst) ∧
      assignUsage dStats sessionsSent apps (currentJobs - 1) (setRate app.1 rate core)
        { perAppUsage := usage.perAppUsage ++ [(app.1, unsigned (jobUsage dStats sessionsSent core app))]
          systemTotalRate := unsigned (usage.systemTotalRate + jobUsage dStats sessionsSent core app)
          leftIops := usage.leftIops - rate } = .ok (core', usage') := by
  obtain ⟨_, rate, hrate, h⟩ := assignUsage_cons hmeasured h
  have hshare : usage.leftIops / currentJobs ≤ usage.leftIops := Int.ediv_le_self _ hleft
  obtain ⟨hlow, hhigh⟩ := leftoverRate_between (core.jobDemands.read app.1) (core.jobUsage_nonneg hmeasured)
    (Int.ediv_nonneg hleft hcount.le : 0 ≤ usage.leftIops / currentJobs)
  rw [← hrate] at hlow hhigh
  have howed := core.owed_nonneg (apps.map Sigma.fst)
  have hall : core.owed ((app :: apps).map Sigma.fst) =
      max 0 (-core.jobDemands.read app.1) + core.owed (apps.map Sigma.fst) := by
    rw [List.map_cons, owed, List.map_cons, List.sum_cons, ← owed]
  rw [hall] at hfit ⊢
  rw [unsigned_eq (by omega : 0 ≤ usage.leftIops - rate) (by omega)] at h
  refine ⟨rate, hrate, hlow, ?_, ?_, h⟩
  · omega
  · omega

theorem assignUsage_handed (hnodup : (apps.map Sigma.fst).Nodup) (hjobs : apps.length ≤ currentJobs)
    (hmeasured : ∀ app ∈ apps, Measured dStats sessionsSent app) (hleft : 0 ≤ usage.leftIops)
    (hfit : usage.leftIops + core.owed (apps.map Sigma.fst) < 2 ^ 64)
    (h : assignUsage dStats sessionsSent apps currentJobs core usage = .ok (core', usage')) :
    Handed apps usage usage' core core' := by
  induction apps generalizing core currentJobs usage with
  | nil =>
    cases h
    exact ⟨by simp, hleft, by simp [owed], by simp, fun _ _ => rfl⟩
  | cons app rest ih =>
    obtain ⟨hnotin, hnodup⟩ := List.nodup_cons.mp hnodup
    rw [List.length_cons, Nat.cast_add, Nat.cast_one] at hjobs
    obtain ⟨rate, _, hlow, hhigh, hback, h⟩ := assignUsage_next (by omega : 0 < currentJobs)
      (hmeasured app List.mem_cons_self) hleft hfit h
    obtain ⟨hsum, hleft', hbound, hrates, hothers⟩ := @ih (setRate app.1 rate core) (currentJobs - 1) _ hnodup
      (by omega) (fun a ha => hmeasured a (List.mem_cons_of_mem _ ha)) (by dsimp only; omega)
        (hback.trans_lt hfit) h
    change _ ≤ usage.leftIops - rate + core.owed (rest.map Sigma.fst) at hbound
    dsimp only at hsum
    have hown : core'.jobRates.read app.1 = rate := by
      rw [hothers app.1 hnotin, setRate, Assoc.read_insert, if_pos rfl]
    constructor
    · rw [List.map_cons, List.sum_cons, hown, add_assoc, hsum]
      omega
    · exact hleft'
    · exact hbound.trans hback
    · intro a ha
      rcases List.mem_cons.mp ha with rfl | ha
      · rw [hown]
        exact hlow
      · exact hrates a ha
    · intro job hj
      obtain ⟨hne, hj⟩ := not_or.mp fun h => hj (List.mem_cons.mpr h)
      rw [hothers job hj, setRate, Assoc.read_insert, if_neg hne]

end FirstPhase

section SecondPhase

theorem foldl_setRate_read {shares : List (String × ℤ)} (hnodup : (shares.map Prod.fst).Nodup) (add : ℤ → ℤ) :
    (∀ share ∈ shares, (shares.foldl (fun core share =>
        setRate share.1 (core.jobRates.read share.1 + add share.2) core) core).jobRates.read share.1 =
      core.jobRates.read share.1 + add share.2) ∧
    ∀ job ∉ shares.map Prod.fst, (shares.foldl (fun core share =>
        setRate share.1 (core.jobRates.read share.1 + add share.2) core) core).jobRates.read job =
      core.jobRates.read job := by
  induction shares generalizing core with
  | nil => exact ⟨by simp, fun _ _ => rfl⟩
  | cons first rest ih =>
    obtain ⟨hnotin, hnodup⟩ := List.nodup_cons.mp hnodup
    rw [List.foldl_cons]
    obtain ⟨hown, hother⟩ := @ih (setRate first.1 (core.jobRates.read first.1 + add first.2) core) hnodup
    refine ⟨fun share hs => ?_, fun job hj => ?_⟩
    · rcases List.mem_cons.mp hs with rfl | hs
      · rw [hother _ hnotin, setRate, Assoc.read_insert, if_pos rfl]
      · have hne : share.1 ≠ first.1 := fun he => hnotin (he ▸ List.mem_map_of_mem hs)
        rw [hown share hs, setRate, Assoc.read_insert, if_neg hne]
    · obtain ⟨hne, hj⟩ := not_or.mp fun h => hj (List.mem_cons.mpr h)
      rw [hother job hj, setRate, Assoc.read_insert, if_neg hne]

theorem distributeLeftover_read {usage : Usage} {usages : (Σ _ : String, Locations) → ℤ}
    {apps : List (Σ _ : String, Locations)} (hnodup : (apps.map Sigma.fst).Nodup)
    (hper : usage.perAppUsage = apps.map fun app => (app.1, usages app)) (app : Σ _ : String, Locations)
    (happ : app ∈ apps) :
    (distributeLeftover usage core).jobRates.read app.1 =
      core.jobRates.read app.1 + ⌊(usages app : ℚ) * (usage.leftIops / usage.systemTotalRate)⌋ := by
  have hshare : ∀ v : ℤ, (v : ℚ) / usage.systemTotalRate * usage.leftIops =
      v * (usage.leftIops / usage.systemTotalRate) := fun v => by
    rw [div_mul_eq_mul_div, mul_div_assoc]
  unfold distributeLeftover
  split
  case isTrue hzero => simp [hzero]
  case isFalse =>
    have hkeys : (usage.perAppUsage.map Prod.fst).Nodup := by
      rw [hper, List.map_map]
      exact hnodup
    have hmem : (app.1, usages app) ∈ usage.perAppUsage := by
      rw [hper]
      exact List.mem_map_of_mem happ
    simp only [hshare]
    exact (foldl_setRate_read hkeys fun v => ⌊(v : ℚ) * (usage.leftIops / usage.systemTotalRate)⌋).1 _ hmem

end SecondPhase

section Allocation

def Usage.start (core : CoreControlApplication) : Usage := ⟨[], 0, unsigned core.maximumLimit⟩

abbrev firstPhase (dStats : Assoc String Rates) (sessionsSent : List String) (core : CoreControlApplication) :
    Except Fault (CoreControlApplication × Usage) :=
  assignUsage dStats sessionsSent core.jobLocationTracker.entries core.jobs.length core (.start core)

variable {core₂ : CoreControlApplication} {usage : Usage}

def Unwrapped (core : CoreControlApplication) : Prop :=
  0 ≤ core.maximumLimit ∧ core.maximumLimit + core.owed core.jobs < 2 ^ 64

instance : Decidable core.Unwrapped := inferInstanceAs (Decidable (_ ∧ _))

theorem owed_append (names names' : List String) :
    core.owed (names ++ names') = core.owed names + core.owed names' := by
  rw [owed, List.map_append, List.sum_append, owed, owed]

theorem assignUsage_turn (hunwrapped : core.Unwrapped)
    (hmeasured : ∀ app ∈ core.jobLocationTracker.entries, Measured dStats sessionsSent app)
    {done rest : List (Σ _ : String, Locations)} {app : Σ _ : String, Locations}
    (hentries : core.jobLocationTracker.entries = done ++ app :: rest)
    {before after : CoreControlApplication × Usage}
    (hbefore : assignUsage dStats sessionsSent done core.jobs.length core (.start core) = .ok before)
    (hafter : assignUsage dStats sessionsSent (done ++ [app]) core.jobs.length core (.start core) = .ok after) :
    after.1.jobRates.read app.1 ≤ before.2.leftIops ∧
      after.2.leftIops = before.2.leftIops - after.1.jobRates.read app.1 := by
  obtain ⟨hlimit, hfit⟩ := hunwrapped
  have hnames : core.jobs = done.map Sigma.fst ++ app.1 :: rest.map Sigma.fst := by
    rw [jobs, AList.keys, List.keys, hentries, List.map_append, List.map_cons]
  have hnodup := core.jobs_nodup
  have hcount : core.jobs.length = done.length + (rest.length + 1) := by
    rw [hnames, List.length_append, List.length_cons, List.length_map, List.length_map]
  rw [hnames, List.nodup_append] at hnodup
  have howed := core.owed_nonneg (rest.map Sigma.fst)
  have hlast := core.owed_nonneg [app.1]
  rw [hnames, ← List.singleton_append, owed_append, owed_append] at hfit
  have hstart : (Usage.start core).leftIops = core.maximumLimit := unsigned_eq hlimit (by
    have := core.owed_nonneg (done.map Sigma.fst)
    omega)
  have hdone := assignUsage_handed hnodup.1 (by omega)
    (fun a ha => hmeasured a (hentries ▸ List.mem_append_left _ ha)) (by rw [hstart]; exact hlimit)
    (by rw [hstart]; omega) hbefore
  have hframe := assignUsage_frame hbefore
  have hsame : before.1.owed [app.1] = core.owed [app.1] := by
    rw [hframe]
    rfl
  rw [assignUsage_append, hbefore] at hafter
  have hbound := hdone.bound
  rw [hstart] at hbound
  have hsingle : ([app].map Sigma.fst).Nodup := List.nodup_singleton app.1
  have hturn := assignUsage_handed hsingle (by
      rw [List.length_singleton]
      omega)
    (fun a ha => hmeasured a (by
      rw [List.mem_singleton.mp ha, hentries]
      exact List.mem_append_right _ List.mem_cons_self))
    hdone.left (by
      rw [List.map_singleton, hsame]
      omega) hafter
  have hsum := hturn.sum
  have hleft := hturn.left
  rw [List.map_singleton, List.sum_singleton] at hsum
  constructor
  · omega
  · omega

theorem leftoverRates_sum (hunwrapped : core.Unwrapped)
    (hmeasured : ∀ app ∈ core.jobLocationTracker.entries, Measured dStats sessionsSent app)
    (hcounted : (core.jobLocationTracker.entries.map (jobUsage dStats sessionsSent core)).sum < 2 ^ 64)
    (h : firstPhase dStats sessionsSent core = .ok (core₂, usage)) (htotal : 0 < usage.systemTotalRate) :
    core.maximumLimit - core.jobs.length < (core.jobs.map (distributeLeftover usage core₂).jobRates.read).sum ∧
      (core.jobs.map (distributeLeftover usage core₂).jobRates.read).sum ≤ core.maximumLimit := by
  have hkeys : (core.jobLocationTracker.entries.map Sigma.fst).Nodup := core.jobLocationTracker.keys_nodup
  have hnonneg : ∀ app ∈ core.jobLocationTracker.entries, 0 ≤ jobUsage dStats sessionsSent core app :=
    fun app happ => core.jobUsage_nonneg (hmeasured app happ)
  have hsumnonneg : 0 ≤ (core.jobLocationTracker.entries.map (jobUsage dStats sessionsSent core)).sum := by
    apply List.sum_nonneg
    intro v hv
    obtain ⟨app, happ, rfl⟩ := List.mem_map.mp hv
    exact hnonneg app happ
  have howed := core.owed_nonneg core.jobs
  have hstart : (Usage.start core).leftIops = core.maximumLimit :=
    unsigned_eq hunwrapped.1 (by have := hunwrapped.2; omega)
  obtain ⟨hper, hsystem, _⟩ := assignUsage_totals hmeasured rfl h
  have hsystem' : usage.systemTotalRate =
      (core.jobLocationTracker.entries.map (jobUsage dStats sessionsSent core)).sum := by
    rw [hsystem]
    exact (congrArg unsigned (zero_add _)).trans (unsigned_eq hsumnonneg hcounted)
  have hper' : usage.perAppUsage =
      core.jobLocationTracker.entries.map fun app => (app.1, jobUsage dStats sessionsSent core app) := by
    rw [hper]
    refine (List.nil_append _).trans (List.map_congr_left fun app happ => ?_)
    have hle := List.single_le_sum (fun v hv => by
      obtain ⟨a, ha, rfl⟩ := List.mem_map.mp hv
      exact hnonneg a ha) _ (List.mem_map_of_mem (f := jobUsage dStats sessionsSent core) happ)
    rw [unsigned_eq (hnonneg app happ) (by omega)]
  have hhanded := assignUsage_handed hkeys (by simp [jobs, AList.keys, List.keys]) hmeasured
    (by rw [hstart]; exact hunwrapped.1) (by rw [hstart]; exact hunwrapped.2) h
  have hsum := hhanded.sum
  rw [hstart] at hsum
  have hread := @distributeLeftover_read core₂ usage _ _ hkeys hper'
  rw [hsystem'] at hread
  have hmap : core.jobs.map (distributeLeftover usage core₂).jobRates.read =
      core.jobLocationTracker.entries.map fun app => core₂.jobRates.read app.1 +
        ⌊(jobUsage dStats sessionsSent core app : ℚ) * (usage.leftIops /
          (core.jobLocationTracker.entries.map (jobUsage dStats sessionsSent core)).sum)⌋ := by
    rw [jobs, AList.keys, List.keys, List.map_map]
    exact List.map_congr_left hread
  have hlength : core.jobs.length = core.jobLocationTracker.entries.length := by
    rw [jobs, AList.keys, List.keys, List.length_map]
  have hsome : core.jobLocationTracker.entries ≠ [] := by
    intro hnil
    rw [hsystem', hnil] at htotal
    exact absurd htotal (lt_irrefl 0)
  have hupper := Shares.sum_floor_share_le (l := core.jobLocationTracker.entries)
    (jobUsage dStats sessionsSent core) hhanded.left
  have hlower := Shares.lt_sum_floor_share (jobUsage dStats sessionsSent core) usage.leftIops hsome
    (hsystem' ▸ htotal).ne'
  rw [hmap, List.sum_map_add, hlength]
  omega

theorem leftover_sum (hunwrapped : core.Unwrapped)
    (hmeasured : ∀ app ∈ core.jobLocationTracker.entries, Measured dStats sessionsSent app)
    (hcounted : (core.jobLocationTracker.entries.map (jobUsage dStats sessionsSent core)).sum < 2 ^ 64)
    (h : firstPhase dStats sessionsSent core = .ok (core₂, usage)) (htotal : 0 < usage.systemTotalRate) :
    (∀ done app rest, core.jobLocationTracker.entries = done ++ app :: rest → ∀ before after,
      assignUsage dStats sessionsSent done core.jobs.length core (.start core) = .ok before →
      assignUsage dStats sessionsSent (done ++ [app]) core.jobs.length core (.start core) = .ok after →
        after.1.jobRates.read app.1 ≤ before.2.leftIops ∧
          after.2.leftIops = before.2.leftIops - after.1.jobRates.read app.1) ∧
    core.maximumLimit - core.jobs.length < (core.jobs.map (distributeLeftover usage core₂).jobRates.read).sum ∧
      (core.jobs.map (distributeLeftover usage core₂).jobRates.read).sum ≤ core.maximumLimit := by
  constructor
  · intro done app rest hentries before after hbefore hafter
    exact assignUsage_turn hunwrapped hmeasured hentries hbefore hafter
  · exact leftoverRates_sum hunwrapped hmeasured hcounted h htotal

def reports (usages : List (String × ℚ)) : Assoc String Rates :=
  (∅ : Assoc String Rates).insert "A" (usages.foldl (fun rates e => rates.insert (stageKey e.1 1) e.2) ∅)

theorem leftover_sum_three_jobs :
    ∃ s, firstPhase (reports [("a", 0), ("b", 150), ("c", 200)]) ["A"]
        (demanded 1000 [("a", -1), ("b", 200), ("c", 600)]) = .ok s ∧
      1000 - 3 < (["a", "b", "c"].map (distributeLeftover s.2 s.1).jobRates.read).sum ∧
      (["a", "b", "c"].map (distributeLeftover s.2 s.1).jobRates.read).sum ≤ 1000 := by
  obtain ⟨s, hs, htotal⟩ : ∃ s, firstPhase (reports [("a", 0), ("b", 150), ("c", 200)]) ["A"]
      (demanded 1000 [("a", -1), ("b", 200), ("c", 600)]) = .ok s ∧ 0 < s.2.systemTotalRate :=
    Fault.exists_of_any (by decide +kernel)
  exact ⟨s, hs, (leftover_sum (by decide) (by decide +kernel) (by decide +kernel) hs htotal).2⟩

theorem leftover_sum_wraps :
    (∃ s, firstPhase (reports [("a", 1), ("b", 1), ("c", 1)]) ["A"]
        (demanded 100 [("a", -2 ^ 63), ("b", -2 ^ 63), ("c", 5)]) = .ok s ∧ 0 < s.2.systemTotalRate ∧
      (["a", "b", "c"].map (distributeLeftover s.2 s.1).jobRates.read).sum ≤ 100 - 3) ∧
    ∃ s, firstPhase (reports [("a", 2 ^ 63 - 1024), ("b", 2 ^ 63 - 1024), ("c", 2148)]) ["A"]
        (demanded 31 [("a", 10), ("b", 10), ("c", 10)]) = .ok s ∧ 0 < s.2.systemTotalRate ∧
      31 < (["a", "b", "c"].map (distributeLeftover s.2 s.1).jobRates.read).sum :=
  ⟨Fault.exists_of_any (by decide +kernel), Fault.exists_of_any (by decide +kernel)⟩

end Allocation

section Divisor

variable {core₂ : CoreControlApplication} {usage : Usage}

def Contributes (dStats : Assoc String Rates) (sessionsSent : List String) (core : CoreControlApplication)
    (job address : String) (env : ℤ) : Prop :=
  if address ∈ sessionsSent then
    ∀ rate ∈ ((dStats.lookup address).getD ∅).lookup (stageKey job env), rate = 0 ∨ 1 ≤ rate
  else unsigned (core.maximumLimit * core.jobs.length) ≠ 0

instance (job address : String) (env : ℤ) : Decidable (Contributes dStats sessionsSent core job address env) :=
  inferInstanceAs (Decidable (if address ∈ sessionsSent then
    ∀ rate ∈ ((dStats.lookup address).getD ∅).lookup (stageKey job env), rate = 0 ∨ 1 ≤ rate
  else unsigned (core.maximumLimit * core.jobs.length) ≠ 0))

theorem stageUsage_ne_zero {app : Σ _ : String, Locations} (hmeasured : Measured dStats sessionsSent app)
    {address : String} {env : ℤ} (henv : env ∈ (app.2.lookup address).getD []) :
    stageUsage dStats sessionsSent core app.1 address env ≠ 0 ↔
      Contributes dStats sessionsSent core app.1 address env := by
  have hnonneg := core.stageUsage_nonneg hmeasured henv
  unfold stageUsage at hnonneg ⊢
  unfold Contributes
  split
  case isFalse => rfl
  case isTrue hsent =>
    rw [if_pos hsent] at hnonneg
    have hone : ⌊reportedRate ((dStats.lookup address).getD ∅) (stageKey app.1 env)⌋ ≠ 0 ↔
        1 ≤ reportedRate ((dStats.lookup address).getD ∅) (stageKey app.1 env) := by
      rw [← Int.cast_one, ← Int.le_floor]
      omega
    rw [hone, reportedRate]
    cases ((dStats.lookup address).getD ∅).lookup (stageKey app.1 env) with
    | none => simp
    | some rate =>
      by_cases hzero : rate = 0
      · simp [hzero]
      · simp [hzero]

theorem unsigned_pos_iff (v : ℤ) : 0 < unsigned v ↔ ¬ 2 ^ 64 ∣ v := by
  unfold unsigned
  omega

theorem systemTotalRate_pos_iff
    (hmeasured : ∀ app ∈ core.jobLocationTracker.entries, Measured dStats sessionsSent app)
    (h : firstPhase dStats sessionsSent core = .ok (core₂, usage)) :
    0 < usage.systemTotalRate ↔
      (∃ app ∈ core.jobLocationTracker.entries, ∃ address ∈ app.2.keys, ∃ env ∈ (app.2.lookup address).getD [],
        Contributes dStats sessionsSent core app.1 address env) ∧
      ¬ 2 ^ 64 ∣ (core.jobLocationTracker.entries.map (jobUsage dStats sessionsSent core)).sum := by
  obtain ⟨_, hsystem, _⟩ := assignUsage_totals hmeasured rfl h
  rw [hsystem, unsigned_pos_iff]
  change ¬ 2 ^ 64 ∣ 0 + _ ↔ _
  rw [zero_add]
  constructor
  · intro hwraps
    refine ⟨?_, hwraps⟩
    by_contra hnone
    apply hwraps
    have hzero : (core.jobLocationTracker.entries.map (jobUsage dStats sessionsSent core)).sum = 0 := by
      apply List.sum_eq_zero
      intro v hv
      obtain ⟨app, happ, rfl⟩ := List.mem_map.mp hv
      apply List.sum_eq_zero
      intro v hv
      obtain ⟨address, haddress, rfl⟩ := List.mem_map.mp hv
      apply List.sum_eq_zero
      intro v hv
      obtain ⟨env, henv, rfl⟩ := List.mem_map.mp hv
      by_contra hcounts
      exact hnone ⟨app, happ, address, haddress, env, henv,
        (stageUsage_ne_zero (hmeasured app happ) henv).mp hcounts⟩
    rw [hzero]
    exact dvd_zero _
  · exact fun hwraps => hwraps.2

theorem systemTotalRate_pos_three_jobs :
    ∃ s, firstPhase (reports [("a", 0), ("b", 1 / 2)]) ["A"]
      (demanded 1000 [("a", -1), ("b", 200), ("c", 600)]) =
      .ok s ∧ 0 < s.2.systemTotalRate := by
  obtain ⟨s, hs, _⟩ : ∃ s, firstPhase (reports [("a", 0), ("b", 1 / 2)]) ["A"]
      (demanded 1000 [("a", -1), ("b", 200), ("c", 600)]) = .ok s ∧ True :=
    Fault.exists_of_any (by decide +kernel)
  exact ⟨s, hs, (systemTotalRate_pos_iff (by decide +kernel) hs).mpr ⟨by decide +kernel, by decide +kernel⟩⟩

theorem systemTotalRate_zero :
    ∃ s, firstPhase (reports [("a", 1 / 2), ("b", 1 / 2)]) ["A"] (demanded 100 [("a", 10), ("b", 20)]) = .ok s ∧
      (∀ app ∈ (demanded 100 [("a", 10), ("b", 20)]).jobLocationTracker.entries,
        Measured (reports [("a", 1 / 2), ("b", 1 / 2)]) ["A"] app) ∧
      s.2.systemTotalRate = 0 ∧ 0 < s.2.leftIops :=
  Fault.exists_of_any (by decide +kernel)

end Divisor

end Cheferd.CoreControlApplication
