import Cheferd.LeftoverAllocation
import Cheferd.LeftoverNotification

namespace Cheferd

open Library

namespace CoreControlApplication

variable {core core' core'' : CoreControlApplication}

def Entered (core : CoreControlApplication) : Prop :=
  ∀ job ∈ core.jobLocationTracker, job ∈ core.jobDemands ∧ job ∈ core.jobRates ∧ job ∈ core.jobPreviousRates

structure Grows (core core' : CoreControlApplication) : Prop where
  jobDemands : ∀ job ∈ core.jobDemands, job ∈ core'.jobDemands
  jobRates : ∀ job ∈ core.jobRates, job ∈ core'.jobRates
  jobPreviousRates : ∀ job ∈ core.jobPreviousRates, job ∈ core'.jobPreviousRates

theorem Grows.refl (core : CoreControlApplication) : Grows core core :=
  ⟨fun _ h => h, fun _ h => h, fun _ h => h⟩

theorem Grows.trans (h : Grows core core') (h' : Grows core' core'') : Grows core core'' :=
  ⟨fun job hj => h'.jobDemands job (h.jobDemands job hj), fun job hj => h'.jobRates job (h.jobRates job hj),
    fun job hj => h'.jobPreviousRates job (h.jobPreviousRates job hj)⟩

theorem mem_insert_of_mem {table : Assoc String ℤ} {job : String} (name : String) (v : ℤ) (h : job ∈ table) :
    job ∈ table.insert name v :=
  (AList.mem_insert _).mpr (.inr h)

theorem setRate_grows (name : String) (rate : ℤ) (core : CoreControlApplication) :
    Grows core (setRate name rate core) :=
  ⟨fun _ h => h, fun _ h => mem_insert_of_mem name rate h, fun _ h => h⟩

theorem updateJobDemands_grows {operation : String} (h : updateJobDemands core = .ok (operation, core')) :
    Grows core core' := by
  unfold updateJobDemands at h
  split at h
  · cases h
    exact .refl _
  case h_2 rule rest =>
    dsimp only at h
    split at h
    · cases h
      exact ⟨fun _ h => h, fun _ h => h, fun _ h => h⟩
    · obtain ⟨kind, _, h⟩ := Fault.bind_eq_ok.mp h
      split at h
      · simp only [Fault.bind_eq_ok] at h
        obtain ⟨job, _, op, _, t, _, demand, _, h⟩ := h
        cases h
        exact ⟨fun _ h => mem_insert_of_mem job demand h, fun _ h => h, fun _ h => h⟩
      · cases h
        exact ⟨fun _ h => h, fun _ h => h, fun _ h => h⟩

theorem ratesFromDemands_grows (core : CoreControlApplication) : Grows core (ratesFromDemands core) := by
  unfold ratesFromDemands
  generalize core.jobDemands.entries = entries
  induction entries generalizing core with
  | nil => exact .refl _
  | cons e entries ih =>
    rw [List.foldl_cons]
    refine .trans ?_ (ih _)
    split
    · exact .refl _
    · exact setRate_grows _ _ _

theorem assignShares_grows (names : List String) (currentJobs left : ℤ) (core : CoreControlApplication) :
    Grows core (assignShares names currentJobs left core).1 := by
  induction names generalizing currentJobs left core with
  | nil => exact .refl _
  | cons job rest ih =>
    unfold assignShares
    dsimp only
    split
    · refine .trans ?_ (ih _ _ _)
      exact ⟨fun _ h => mem_insert_of_mem job _ h, fun _ h => mem_insert_of_mem job _ h, fun _ h => h⟩
    · exact (setRate_grows _ _ _).trans (ih _ _ _)

theorem assignUsage_grows {dStats : Assoc String Rates} {sessionsSent : List String}
    {apps : List (Σ _ : String, Locations)} {currentJobs : ℤ} {usage usage' : Usage}
    (h : assignUsage dStats sessionsSent apps currentJobs core usage = .ok (core', usage')) :
    Grows core core' := by
  induction apps generalizing core currentJobs usage with
  | nil =>
    cases h
    exact .refl _
  | cons app rest ih =>
    obtain ⟨total, _, h⟩ := Fault.bind_eq_ok.mp h
    exact (setRate_grows _ _ _).trans (ih h)

theorem distributeLeftover_grows (usage : Usage) (core : CoreControlApplication) :
    Grows core (distributeLeftover usage core) := by
  unfold distributeLeftover
  split
  · exact .refl _
  · generalize usage.perAppUsage = shares
    induction shares generalizing core with
    | nil => exact .refl _
    | cons share shares ih =>
      rw [List.foldl_cons]
      exact (setRate_grows _ _ _).trans (ih _)

section Passes

variable {operation : String} {app : Σ _ : String, Locations} {s t : Enforcement}

theorem Sent.grows {name : String} {locations : Locations} (h : Sent name operation locations core core') :
    Grows core core' := by
  constructor
  · rw [h.jobDemands]
    exact fun _ h => h
  · rw [h.jobRates]
    exact fun _ h => h
  · rw [h.jobPreviousRates]
    exact fun _ hj => mem_insert_of_mem _ _ hj

theorem enforceStatic_grows (h : enforceStatic operation s app = .ok t) : Grows s.1 t.1 := by
  unfold enforceStatic at h
  split at h
  · cases h
    exact setRate_grows _ _ _
  · exact (sendEnforcementRule_ok h).1.grows

theorem enforceVanilla_grows {leftover : ℤ} (h : enforceVanilla operation leftover s app = .ok t) :
    Grows s.1 t.1 := by
  unfold enforceVanilla at h
  dsimp only at h
  split at h
  · cases h
    exact (setRate_grows _ _ _).trans (setRate_grows _ _ _)
  · exact (setRate_grows _ _ _).trans (sendEnforcementRule_ok h).1.grows

theorem enforceLeftover_grows {kept : List String} {perc : ℚ}
    (h : enforceLeftover operation kept perc s app = .ok t) :
    Grows s.1 t.1 := by
  unfold enforceLeftover at h
  split at h
  · cases h
    exact .refl _
  · exact (setRate_grows _ _ _).trans (sendEnforcementRule_ok h).1.grows

theorem foldlM_grows {body : Enforcement → (Σ _ : String, Locations) → Except Fault Enforcement}
    (hbody : ∀ s app t, body s app = .ok t → Grows s.1 t.1) {apps : List (Σ _ : String, Locations)}
    (h : apps.foldlM body s = .ok t) : Grows s.1 t.1 :=
  Lists.foldlM_invariant (I := fun u : Enforcement => Grows s.1 u.1)
    (fun u app v hu hv => hu.trans (hbody u app v hv))
    (.refl _) h

theorem computeAndEnforce_grows {dStats : Assoc String Rates} {sessionsSent updated : List String}
    (h : computeAndEnforce dStats sessionsSent core = .ok (core', updated)) : Grows core core' := by
  unfold computeAndEnforce at h
  split at h
  · obtain ⟨operation, core₁, flag, h₁, _, hcases⟩ := computeAndEnforceStaticRules_cases h
    have hgrows : Grows core { core₁ with changeInSystem := flag } := by
      obtain ⟨hdemands, hrates, hprevious⟩ := updateJobDemands_grows h₁
      exact ⟨hdemands, hrates, hprevious⟩
    rcases hcases with ⟨_, rfl, _⟩ | ⟨_, hfold⟩
    · exact hgrows
    · exact (hgrows.trans (ratesFromDemands_grows _)).trans
        (foldlM_grows (fun _ _ _ => enforceStatic_grows) hfold)
  · obtain ⟨operation, core₁, h₁, hcases⟩ := computeAndEnforceDynamicVanillaRules_cases h
    rcases hcases with ⟨_, rfl, _⟩ | ⟨_, core₂, left, hshares, _, hfold⟩
    · exact updateJobDemands_grows h₁
    · have hassigned := assignShares_grows core₁.jobs core₁.jobs.length core₁.maximumLimit core₁
      rw [hshares] at hassigned
      exact ((updateJobDemands_grows h₁).trans hassigned).trans
        (foldlM_grows (fun _ _ _ => enforceVanilla_grows) hfold)
  · obtain ⟨operation, core₁, h₁, hcases⟩ := computeAndEnforceDynamicLeftoverRules_cases h
    rcases hcases with ⟨_, rfl, _⟩ | ⟨_, core₂, usage, core₃, h₂, rfl, _, hfold⟩
    · exact updateJobDemands_grows h₁
    · exact (((updateJobDemands_grows h₁).trans (assignUsage_grows h₂)).trans
        (distributeLeftover_grows _ _)).trans
        (foldlM_grows (fun _ _ _ => enforceLeftover_grows) hfold)
  · cases h
    exact .refl _
  · cases h
    exact .refl _

end Passes

theorem Entered.grows (he : Entered core) (h : Grows core core')
    (htracker : core'.jobLocationTracker = core.jobLocationTracker) : Entered core' := by
  intro job hj
  rw [htracker] at hj
  obtain ⟨hdemands, hrates, hprevious⟩ := he job hj
  exact ⟨h.jobDemands job hdemands, h.jobRates job hrates, h.jobPreviousRates job hprevious⟩

theorem SameTables.entered (h : SameTables core core') (he : Entered core) : Entered core' := by
  refine he.grows ?_ h.jobLocationTracker
  constructor
  · rw [h.jobDemands]
    exact fun _ h => h
  · rw [h.jobRates]
    exact fun _ h => h
  · rw [h.jobPreviousRates]
    exact fun _ h => h

theorem Forgets.entered (h : Forgets core core') (he : Entered core) : Entered core' := by
  intro job hj
  obtain ⟨hdemands, hrates, hprevious⟩ := he job (h.tracked job hj)
  obtain ⟨hsame₁, hsame₂, hsame₃⟩ := h.kept job fun _ => hj
  rw [← AList.lookup_isSome] at hdemands hrates hprevious
  refine ⟨?_, ?_, ?_⟩
  · rwa [← AList.lookup_isSome, hsame₁]
  · rwa [← AList.lookup_isSome, hsame₂]
  · rwa [← AList.lookup_isSome, hsame₃]

theorem Entered.registerStage (he : Entered core) (info : StageInfo) : Entered (registerStage info core) := by
  have hmem : ∀ (job name : String) (v : ℤ) (table : Assoc String ℤ), job ∈ table ∨ job = name →
      job ∈ table.emplace name v := by
    intro job name v table h
    rw [← AList.lookup_isSome, Assoc.lookup_emplace]
    by_cases hname : job = name
    · simp [hname]
    · rw [if_neg hname, AList.lookup_isSome]
      exact h.resolve_right hname
  intro job hj
  have htracked : job = info.stageName ∨ job ∈ core.jobLocationTracker := (Assoc.mem_insertSorted _ _ _ _).mp hj
  by_cases hm : info.stageName ∈ core.jobLocationTracker
  · have hsame : emplaceJob info.stageName core = core := if_pos hm
    have hold : job ∈ core.jobLocationTracker := htracked.elim (fun h => h ▸ hm) id
    simpa only [CoreControlApplication.registerStage, hsame] using he job hold
  · have hnew : emplaceJob info.stageName core = { core with
        jobDemands := core.jobDemands.emplace info.stageName (-1)
        jobPreviousRates := core.jobPreviousRates.emplace info.stageName 0
        jobRates := core.jobRates.emplace info.stageName (-1) } := if_neg hm
    simp only [CoreControlApplication.registerStage, hnew]
    refine ⟨hmem _ _ _ _ ?_, hmem _ _ _ _ ?_, hmem _ _ _ _ ?_⟩
    · exact htracked.symm.imp_left fun h => (he job h).1
    · exact htracked.symm.imp_left fun h => (he job h).2.1
    · exact htracked.symm.imp_left fun h => (he job h).2.2

section Guards

def positive (divisor : ℤ) : Except Fault Unit := if 1 ≤ divisor then .ok () else .error .divisionByZero

def assignSharesGuarded : List String → ℤ → ℤ → CoreControlApplication →
    Except Fault (CoreControlApplication × ℤ)
  | [], _, leftIops, core => .ok (core, leftIops)
  | job :: rest, currentJobs, leftIops, core => do
    positive currentJobs
    let (core, leftIops) := assignShares [job] currentJobs leftIops core
    assignSharesGuarded rest (currentJobs - 1) leftIops core

def assignUsageGuarded (dStats : Assoc String Rates) (sessionsSent : List String) :
    List (Σ _ : String, Locations) → ℤ → CoreControlApplication → Usage →
      Except Fault (CoreControlApplication × Usage)
  | [], _, core, usage => .ok (core, usage)
  | app :: rest, currentJobs, core, usage => do
    positive currentJobs
    let (core, usage) ← assignUsage dStats sessionsSent [app] currentJobs core usage
    assignUsageGuarded dStats sessionsSent rest (currentJobs - 1) core usage

def enforceGuarded (enforce : Enforcement → (Σ _ : String, Locations) → Except Fault Enforcement)
    (s : Enforcement)
    (app : Σ _ : String, Locations) : Except Fault Enforcement := do
  positive (totalStages app.2)
  enforce s app

def computeAndEnforceStaticRulesGuarded (core : CoreControlApplication) : Except Fault Enforcement := do
  let (newOperation, core) ← updateJobDemands core
  let core := if newOperation = "" then core else { core with changeInSystem := true }
  if core.changeInSystem = false ∨ core.jobLocationTracker.entries = [] then return (core, [])
  else
    core.jobLocationTracker.entries.foldlM (enforceGuarded (enforceStatic core.activeOp))
      (ratesFromDemands core, [])

def computeAndEnforceDynamicVanillaRulesGuarded (core : CoreControlApplication) : Except Fault Enforcement := do
  let (_, core) ← updateJobDemands core
  let currentJobs : ℤ := core.jobs.length
  if currentJobs = 0 then return (core, [])
  else do
    let (core, leftIops) ← assignSharesGuarded core.jobs currentJobs core.maximumLimit core
    positive currentJobs
    core.jobLocationTracker.entries.foldlM
      (enforceGuarded (enforceVanilla core.activeOp (leftIops.tdiv currentJobs))) (core, [])

def computeAndEnforceDynamicLeftoverRulesGuarded (dStats : Assoc String Rates) (sessionsSent : List String)
    (core : CoreControlApplication) : Except Fault Enforcement := do
  let (_, core) ← updateJobDemands core
  if core.jobs = [] then return (core, [])
  else do
    let (core, usage) ← assignUsageGuarded dStats sessionsSent core.jobLocationTracker.entries
      core.jobs.length core
      ⟨[], 0, unsigned core.maximumLimit⟩
    let core := distributeLeftover usage core
    let kept := core.jobs.filter (maintained usage.systemTotalRate core)
    core.jobLocationTracker.entries.foldlM
      (enforceGuarded (enforceLeftover core.activeOp kept (variedPerc usage.systemTotalRate core))) (core, [])

def computeAndEnforceGuarded (dStats : Assoc String Rates) (sessionsSent : List String)
    (core : CoreControlApplication) : Except Fault Enforcement :=
  match core.controlType with
  | .static => computeAndEnforceStaticRulesGuarded core
  | .dynamicVanilla => computeAndEnforceDynamicVanillaRulesGuarded core
  | .dynamicLeftover => computeAndEnforceDynamicLeftoverRulesGuarded dStats sessionsSent core
  | .mds | .noop => .ok (core, [])

theorem positive_bind {α : Type} {divisor : ℤ} (h : 1 ≤ divisor) (x : Unit → Except Fault α) :
    positive divisor >>= x = x () := by
  rw [positive, if_pos h, Fault.ok_bind]

theorem assignShares_cons (job : String) (rest : List String) (currentJobs left : ℤ)
    (core : CoreControlApplication) :
    assignShares (job :: rest) currentJobs left core =
      assignShares rest (currentJobs - 1) (assignShares [job] currentJobs left core).2
        (assignShares [job] currentJobs left core).1 := by
  simp only [assignShares]
  split
  · rfl
  · rfl

theorem assignSharesGuarded_eq {names : List String} {currentJobs : ℤ}
    (h : names.length ≤ currentJobs) (left : ℤ)
    (core : CoreControlApplication) :
    assignSharesGuarded names currentJobs left core = .ok (assignShares names currentJobs left core) := by
  induction names generalizing currentJobs left core with
  | nil => rfl
  | cons job rest ih =>
    rw [List.length_cons, Nat.cast_add, Nat.cast_one] at h
    have hpositive : 1 ≤ currentJobs := by omega
    have hrest : (rest.length : ℤ) ≤ currentJobs - 1 := by omega
    have hsplit := assignShares_cons job rest currentJobs left core
    rw [assignSharesGuarded, positive_bind hpositive, hsplit]
    exact ih hrest _ _

theorem assignUsageGuarded_eq {dStats : Assoc String Rates} {sessionsSent : List String}
    {apps : List (Σ _ : String, Locations)} {currentJobs : ℤ} (h : apps.length ≤ currentJobs)
    (core : CoreControlApplication) (usage : Usage) :
    assignUsageGuarded dStats sessionsSent apps currentJobs core usage =
      assignUsage dStats sessionsSent apps currentJobs core usage := by
  induction apps generalizing currentJobs core usage with
  | nil => rfl
  | cons app rest ih =>
    rw [List.length_cons, Nat.cast_add, Nat.cast_one] at h
    have hpositive : 1 ≤ currentJobs := by omega
    have hrest : (rest.length : ℤ) ≤ currentJobs - 1 := by omega
    have hsplit : assignUsage dStats sessionsSent (app :: rest) currentJobs core usage = _ :=
      assignUsage_append [app] rest
    rw [assignUsageGuarded, positive_bind hpositive, hsplit]
    congr 1
    funext s
    exact ih hrest s.1 s.2

theorem foldlM_enforceGuarded {enforce : Enforcement → (Σ _ : String, Locations) → Except Fault Enforcement}
    {apps : List (Σ _ : String, Locations)} (h : ∀ app ∈ apps, 1 ≤ totalStages app.2) (s : Enforcement) :
    apps.foldlM (enforceGuarded enforce) s = apps.foldlM enforce s :=
  Lists.foldlM_congr (fun _ app happ => positive_bind (h app happ) _) s

theorem one_le_totalStages (hne : NoEmpty core) {app : Σ _ : String, Locations}
    (happ : app ∈ core.jobLocationTracker.entries) : 1 ≤ totalStages app.2 := by
  have hne := totalStages_ne_zero hne (Assoc.lookup_of_mem_entries happ)
  have hnonneg : 0 ≤ totalStages app.2 := by
    refine List.sum_nonneg fun v hv => ?_
    obtain ⟨e, _, rfl⟩ := List.mem_map.mp hv
    exact Int.natCast_nonneg _
  omega

theorem computeAndEnforceStaticRulesGuarded_eq (hne : NoEmpty core) :
    computeAndEnforceStaticRulesGuarded core = computeAndEnforceStaticRules core := by
  unfold computeAndEnforceStaticRulesGuarded computeAndEnforceStaticRules
  cases h : updateJobDemands core with
  | error e => rfl
  | ok s =>
    obtain ⟨operation, core₁⟩ := s
    have hne₁ : NoEmpty (if operation = "" then core₁ else { core₁ with changeInSystem := true }) := by
      have htracker := (updateJobDemands_prepared h).1.frame.jobLocationTracker
      split
      · exact hne.congr htracker
      · exact hne.congr htracker
    simp only [Fault.ok_bind]
    generalize (if operation = "" then core₁ else { core₁ with changeInSystem := true }) = core₂ at hne₁ ⊢
    split
    · rfl
    · exact foldlM_enforceGuarded (fun app happ => one_le_totalStages hne₁ happ) _

theorem computeAndEnforceDynamicVanillaRulesGuarded_eq (hne : NoEmpty core) :
    computeAndEnforceDynamicVanillaRulesGuarded core = computeAndEnforceDynamicVanillaRules core := by
  unfold computeAndEnforceDynamicVanillaRulesGuarded computeAndEnforceDynamicVanillaRules
  cases h : updateJobDemands core with
  | error e => rfl
  | ok s =>
    obtain ⟨operation, core₁⟩ := s
    have hne₁ : NoEmpty core₁ := hne.congr (updateJobDemands_prepared h).1.frame.jobLocationTracker
    simp only [Fault.ok_bind]
    split
    · rfl
    · have hpositive : 1 ≤ (core₁.jobs.length : ℤ) := by omega
      rw [assignSharesGuarded_eq le_rfl, Fault.ok_bind, positive_bind hpositive]
      refine foldlM_enforceGuarded (fun app happ => one_le_totalStages (hne₁.congr ?_) happ) _
      rw [assignShares_frame]

theorem computeAndEnforceDynamicLeftoverRulesGuarded_eq (dStats : Assoc String Rates)
    (sessionsSent : List String)
    (hne : NoEmpty core) :
    computeAndEnforceDynamicLeftoverRulesGuarded dStats sessionsSent core =
      computeAndEnforceDynamicLeftoverRules dStats sessionsSent core := by
  unfold computeAndEnforceDynamicLeftoverRulesGuarded computeAndEnforceDynamicLeftoverRules
  cases h : updateJobDemands core with
  | error e => rfl
  | ok s =>
    obtain ⟨operation, core₁⟩ := s
    have hne₁ : NoEmpty core₁ := hne.congr (updateJobDemands_prepared h).1.frame.jobLocationTracker
    have hlength : (core₁.jobLocationTracker.entries.length : ℤ) ≤ core₁.jobs.length := by
      rw [jobs, AList.keys, List.keys, List.length_map]
    simp only [Fault.ok_bind, assignUsageGuarded_eq hlength]
    split
    · rfl
    · cases h₂ : assignUsage dStats sessionsSent core₁.jobLocationTracker.entries core₁.jobs.length core₁
        ⟨[], 0, unsigned core₁.maximumLimit⟩ with
      | error e => rfl
      | ok assigned =>
        simp only [Fault.ok_bind]
        refine foldlM_enforceGuarded (fun app happ => one_le_totalStages (hne₁.congr ?_) happ) _
        rw [distributeLeftover_frame, assignUsage_frame h₂]

theorem computeAndEnforceGuarded_eq (dStats : Assoc String Rates) (sessionsSent : List String)
    (hne : NoEmpty core) :
    computeAndEnforceGuarded dStats sessionsSent core = computeAndEnforce dStats sessionsSent core := by
  cases htype : core.controlType with
  | static =>
    simp only [computeAndEnforceGuarded, computeAndEnforce, htype]
    exact computeAndEnforceStaticRulesGuarded_eq hne
  | dynamicVanilla =>
    simp only [computeAndEnforceGuarded, computeAndEnforce, htype]
    exact computeAndEnforceDynamicVanillaRulesGuarded_eq hne
  | dynamicLeftover =>
    simp only [computeAndEnforceGuarded, computeAndEnforce, htype]
    exact computeAndEnforceDynamicLeftoverRulesGuarded_eq dStats sessionsSent hne
  | mds => simp only [computeAndEnforceGuarded, computeAndEnforce, htype]
  | noop => simp only [computeAndEnforceGuarded, computeAndEnforce, htype]

end Guards

end CoreControlApplication

namespace FeedbackLoop

open CoreControlApplication

variable {p q : Process} {allowed : Process → Action → Prop}

theorem LoopStep.entered (h : LoopStep p q) (he : Entered p.core) : Entered q.core := by
  cases h.tableStep with
  | kept h => exact h.entered he
  | registered info hpoint =>
    cases h with
    | stageTaken taken rest session =>
      have hqueue : Entered { p.core with
          localToDataQueue := rest
          pendingDataPlaneSessions := p.core.pendingDataPlaneSessions - 1 } := he
      exact hqueue.registerStage taken
    | goes point h => cases h <;> cases hpoint
    | control _ h => rcases h.point with hq | hq <;> rw [hq] at hpoint <;> cases hpoint
    | collectDone collection active point hcollect hgone hactive hnext =>
      rcases hnext with ⟨rfl, _⟩ | rfl <;> cases hpoint
    | _ => cases hpoint
  | removed todo collection core hpoint hcore h => exact h.entered (hcore.entered he)
  | computed dStats core updated haction hpoint h hcore =>
    have hcomputed := he.grows (computeAndEnforce_grows h)
      (computeAndEnforce_computes h).frame.jobLocationTracker
    rw [hcore]
    exact hcomputed
  | finished hpoint hcore =>
    rw [hcore]
    exact he

theorem entered_reach (h : machine.Reach allowed p) : Entered p.core := by
  refine h.invariant (I := fun p => Entered p.core) ?_ ?_
  · rintro _ ⟨controlType, rules, systemLimit, hash, core, hops, rfl⟩
    obtain ⟨ops, op, rfl⟩ := initializeOps_ok hops
    intro job hj
    cases hj
  · intro p q action he _ hstep
    cases step_cases hstep with
    | loop h => exact h.entered he
    | _ => exact he

theorem tracked_jobs_complete (h : machine.Reach allowed p) :
    (∀ job locations, p.core.jobLocationTracker.lookup job = some locations →
      locations.entries ≠ [] ∧ (∀ address envs, locations.lookup address = some envs → envs ≠ []) ∧
        (job ∈ p.core.jobDemands ∧ job ∈ p.core.jobRates ∧ job ∈ p.core.jobPreviousRates) ∧
        1 ≤ totalStages locations) ∧
      ∀ dStats sessionsSent,
        computeAndEnforceGuarded dStats sessionsSent p.core = computeAndEnforce dStats sessionsSent p.core := by
  have hne := noEmpty_reach h
  refine ⟨fun job locations hl => ?_, fun dStats sessionsSent =>
    computeAndEnforceGuarded_eq dStats sessionsSent hne⟩
  obtain ⟨hlocations, henvs⟩ := hne job locations hl
  refine ⟨hlocations, henvs, ?_, ?_⟩
  · exact entered_reach h job (AList.lookup_isSome.mp (by rw [hl]; rfl))
  · have happ : (⟨job, locations⟩ : Σ _ : String, Locations) ∈ p.core.jobLocationTracker.entries :=
      AList.mem_lookup_iff.mp hl
    exact one_le_totalStages hne happ

theorem tracked_jobs_complete_registered : ∃ p, machine.Reach (fun _ _ => True) p ∧
    "app" ∈ p.core.jobLocationTracker ∧
    (∀ job locations, p.core.jobLocationTracker.lookup job = some locations →
      locations.entries ≠ [] ∧ (∀ address envs, locations.lookup address = some envs → envs ≠ []) ∧
        (job ∈ p.core.jobDemands ∧ job ∈ p.core.jobRates ∧ job ∈ p.core.jobPreviousRates) ∧
        1 ≤ totalStages locations) ∧
      ∀ dStats sessionsSent,
        computeAndEnforceGuarded dStats sessionsSent p.core = computeAndEnforce dStats sessionsSent p.core := by
  have hrun : (run .dynamicVanilla 1000 (fun _ _ => True)
      [.enqueueLocal "A", .countLocal "A", .loop, .loop, .loop,
      .serve "A" ⟨1, ∅⟩, .loop, .loop, .enqueueStage ⟨"app", 1, "user", "A"⟩, .countStage, .loop]).any
      (fun p => decide ("app" ∈ p.core.jobLocationTracker)) = true := by
    decide +kernel
  obtain ⟨p, hp, happ⟩ := reach_of_run .dynamicVanilla 1000 _ hrun
  exact ⟨p, hp, happ, tracked_jobs_complete hp⟩

end FeedbackLoop

end Cheferd
