import Cheferd.JobTables
import Cheferd.SessionSafety
import Cheferd.VanillaAllocation
import Cheferd.Library.Lists

namespace Cheferd

open Library

namespace CoreControlApplication

variable {core core' : CoreControlApplication}

def committed (core : CoreControlApplication) : ℤ := (core.jobs.map core.jobPreviousRates.read).sum

def vanillaView (job : String) (s : Enforcement) : Bool × ℤ × ℤ :=
  (s.1.changeInSystem, s.1.jobRates.read job, s.1.jobPreviousRates.read job)

def Applied (leftover : ℤ) (before after : Bool × ℤ × ℤ) : Prop :=
  after.2.2 = before.2.1 + leftover ∨ before.1 = false ∧
    |before.2.1 + leftover - before.2.2| < iopsThreshold ∧ after.2.2 = before.2.2

theorem enforceVanilla_applied {operation : String} {leftover : ℤ} {app : Σ _ : String, Locations}
    {s t : Enforcement} (h : enforceVanilla operation leftover s app = .ok t) :
    Applied leftover (vanillaView app.1 s) (vanillaView app.1 t) ∧
      ∀ job ≠ app.1, vanillaView job t = vanillaView job s := by
  unfold enforceVanilla at h
  dsimp only at h
  split at h
  case isTrue hbelow =>
    cases h
    obtain ⟨hflag, hbelow⟩ := hbelow
    refine ⟨.inr ⟨hflag, ?_, rfl⟩, fun job hj => ?_⟩
    · simpa [vanillaView, belowThreshold, setRate, Assoc.read_insert] using hbelow
    · simp [vanillaView, setRate, Assoc.read_insert, hj]
  case isFalse =>
    obtain ⟨hsent, _⟩ := sendEnforcementRule_ok h
    refine ⟨.inl ?_, fun job hj => ?_⟩
    · simp [vanillaView, hsent.jobPreviousRates, setRate, Assoc.read_insert]
    · simp [vanillaView, hsent.changeInSystem, hsent.jobPreviousRates, hsent.jobRates, setRate,
        Assoc.read_insert, hj]

theorem computeAndEnforceDynamicVanillaRules_applied {updated : List String}
    (hlimit : core.jobs.length ≤ core.maximumLimit) (hjobs : core.jobs ≠ [])
    (h : computeAndEnforceDynamicVanillaRules core = .ok (core', updated)) :
    ∃ rate : String → ℤ, (core.jobs.map rate).sum ≤ core.maximumLimit ∧
      core'.changeInSystem = core.changeInSystem ∧
      ∀ job ∈ core.jobs, core'.jobPreviousRates.read job = rate job ∨
        core.changeInSystem = false ∧ |rate job - core.jobPreviousRates.read job| < iopsThreshold ∧
          core'.jobPreviousRates.read job = core.jobPreviousRates.read job := by
  obtain ⟨operation, core₁, h₁, ⟨hnil, _⟩ | ⟨_, core₂, left, hshares, hframe, hfold⟩⟩ :=
    computeAndEnforceDynamicVanillaRules_cases h
  · exact absurd hnil hjobs
  obtain ⟨⟨_, _, _, _, _, hcore₁, _⟩, _, hflag₁⟩ := updateJobDemands_prepared h₁
  have hjobs₁ : core₁.jobs = core.jobs := by rw [hcore₁]; rfl
  have hlimit₁ : core₁.maximumLimit = core.maximumLimit := by rw [hcore₁]
  rw [← hjobs₁, ← hlimit₁] at hlimit
  have hsum := assignShares_sum core₁.jobs_nodup core₁.jobs.length core₁.maximumLimit core₁
  have hnonneg := @assignShares_left core₁.jobs core₁.maximumLimit 0 le_rfl zero_le_one (by omega) core₁
  rw [hshares] at hsum hnonneg
  rw [hjobs₁] at hfold hsum
  rw [hlimit₁] at hsum
  rw [neg_zero] at hnonneg
  dsimp only at hsum hnonneg
  have hprevious₂ : core₂.jobPreviousRates = core.jobPreviousRates := by rw [hframe, hcore₁]
  have hflag₂ : core₂.changeInSystem = core.changeInSystem := by rw [hframe, hflag₁]
  obtain ⟨happlied, _⟩ := Lists.foldlM_pointwise Sigma.fst vanillaView (fun _ _ _ => enforceVanilla_applied)
    core.jobs_nodup hfold
  refine ⟨fun job => core₂.jobRates.read job + left.tdiv core.jobs.length, ?_, ?_, fun job hj => ?_⟩
  · rw [← hsum, List.sum_map_add, List.map_const', List.sum_replicate, nsmul_eq_mul]
    have hle : core.jobs.length * left.tdiv core.jobs.length ≤ left := by
      rw [Int.tdiv_eq_ediv_of_nonneg hnonneg]
      exact Int.mul_ediv_self_le (by simpa using hjobs)
    linarith
  · obtain ⟨_, hr⟩ := (turns_of_foldlM (fun _ _ _ => enforceVanilla_turn) hfold).requests core.jobs_nodup
    exact hr.changeInSystem.trans hflag₂
  · obtain ⟨app, happ, rfl⟩ := List.mem_map.mp hj
    have ha := happlied app happ
    simpa only [vanillaView, Applied, hprevious₂, hflag₂] using ha

def Bounded (core : CoreControlApplication) : Prop :=
  core.committed ≤ core.maximumLimit + (iopsThreshold - 1) * ((core.jobs.length - 1 : ℕ) : ℤ)

theorem computeAndEnforceDynamicVanillaRules_bounded {updated : List String}
    (hlimit : core.jobs.length ≤ core.maximumLimit) (hbefore : core.changeInSystem = true ∨ core.Bounded)
    (h : computeAndEnforceDynamicVanillaRules core = .ok (core', updated)) :
    core'.Bounded ∧ (core'.changeInSystem = true → core'.committed ≤ core'.maximumLimit) := by
  have hframe := (computeAndEnforceDynamicVanillaRules_computes h).frame
  have hjobs : core'.jobs = core.jobs := by rw [jobs, jobs, hframe.jobLocationTracker]
  unfold Bounded committed
  rw [hjobs, hframe.maximumLimit]
  by_cases hnil : core.jobs = []
  · have hnonneg : 0 ≤ core.maximumLimit := by simpa [hnil] using hlimit
    simp [hnil, hnonneg]
  obtain ⟨rate, hsum, hflag, happlied⟩ := computeAndEnforceDynamicVanillaRules_applied hlimit hnil h
  have hlength : ((core.jobs.length - 1 : ℕ) : ℤ) = core.jobs.length - 1 := by
    have := List.length_pos_iff.mpr hnil
    omega
  have hslack : ∀ job ∈ core.jobs, core'.jobPreviousRates.read job ≤ rate job + (iopsThreshold - 1) := by
    intro job hj
    rcases happlied job hj with hrate | ⟨_, hclose, hsame⟩
    · rw [hrate, iopsThreshold]
      omega
    · rw [hsame]
      have := (abs_lt.mp hclose).1
      omega
  refine ⟨?_, fun hset => ?_⟩
  · by_cases hsent : ∃ job ∈ core.jobs, core'.jobPreviousRates.read job = rate job
    · obtain ⟨job, hj, hrate⟩ := hsent
      have := Lists.sum_le_add_slack_of_mem hslack hj hrate.le
      rw [hlength]
      linarith
    · have hsame : core.jobs.map core'.jobPreviousRates.read = core.jobs.map core.jobPreviousRates.read :=
        List.map_congr_left fun job hj => by
          rcases happlied job hj with hrate | ⟨_, _, hsame⟩
          · exact absurd ⟨job, hj, hrate⟩ hsent
          · exact hsame
      obtain ⟨job, hj⟩ := List.exists_mem_of_ne_nil _ hnil
      rcases hbefore with hset | hbound
      · rcases happlied job hj with hrate | ⟨hclear, _⟩
        · exact absurd ⟨job, hj, hrate⟩ hsent
        · rw [hset] at hclear
          cases hclear
      · rw [hsame]
        exact hbound
  · rw [hflag] at hset
    have hrates : core.jobs.map core'.jobPreviousRates.read = core.jobs.map rate :=
      List.map_congr_left fun job hj => by
        rcases happlied job hj with hrate | ⟨hclear, _⟩
        · exact hrate
        · rw [hset] at hclear
          cases hclear
    rw [hrates]
    exact hsum

theorem SameTables.committed (h : SameTables core core') : core'.committed = core.committed := by
  rw [CoreControlApplication.committed, CoreControlApplication.committed, jobs, jobs, h.jobLocationTracker,
    h.jobPreviousRates]

theorem SameTables.jobs (h : SameTables core core') : core'.jobs = core.jobs := by
  rw [CoreControlApplication.jobs, CoreControlApplication.jobs, h.jobLocationTracker]

theorem Forgets.committed (h : Forgets core core') : core'.changeInSystem = true ∨
    core'.jobs.Perm core.jobs ∧ core'.committed = core.committed ∧
      core'.changeInSystem = core.changeInSystem := by
  obtain ⟨infos, _, hflag, hlookup⟩ := h.events
  cases infos with
  | cons info infos => exact .inl (by simp [hflag])
  | nil =>
    have hmem : ∀ job, job ∈ core'.jobs ↔ job ∈ core.jobs := fun job => by
      rw [CoreControlApplication.jobs, CoreControlApplication.jobs, ← AList.mem_keys, ← AList.mem_keys,
        ← AList.lookup_isSome, hlookup job (by simp), AList.lookup_isSome]
    have hperm := (List.perm_ext_iff_of_nodup core'.jobs_nodup core.jobs_nodup).mpr hmem
    have hread : core'.jobs.map core'.jobPreviousRates.read = core'.jobs.map core.jobPreviousRates.read :=
      List.map_congr_left fun job hj => by
        rw [Assoc.read, Assoc.read, (h.kept job fun _ => AList.mem_keys.mpr hj).2.2]
    refine .inr ⟨hperm, ?_, by simpa using hflag⟩
    rw [CoreControlApplication.committed, hread]
    exact (hperm.map _).sum_eq

end CoreControlApplication

namespace FeedbackLoop

open CoreControlApplication Strings

def WithinLimit (p : Process) (_ : Action) : Prop := p.core.jobs.length ≤ p.core.maximumLimit

instance (p : Process) (action : Action) : Decidable (WithinLimit p action) :=
  inferInstanceAs (Decidable (_ ≤ _))

variable {p q : Process}

structure Committed (p : Process) : Prop where
  bounded : p.core.changeInSystem = true ∨ p.core.jobs = [] ∨ p.core.Bounded
  enforcing : p.point.enforcing = true →
    p.core.Bounded ∧ (p.core.changeInSystem = true → p.core.committed ≤ p.core.maximumLimit)
  finish : p.point = .finish → p.core.Bounded

theorem Committed.step {action : Action} (h : Step p action q) (hvanilla : p.core.controlType = .dynamicVanilla)
    (hlimit : WithinLimit p action) (hp : Committed p) : Committed q := by
  have hmaximum := h.configured.maximumLimit
  cases h.tableStep with
  | kept h henforcing hfinish =>
    have hbounded : q.core.Bounded ↔ p.core.Bounded := by
      rw [Bounded, Bounded, h.committed, h.jobs, hmaximum]
    refine ⟨?_, fun hq => ?_, fun hq => ?_⟩
    · rw [h.changeInSystem, h.jobs, hbounded]
      exact hp.bounded
    · rw [h.changeInSystem, h.committed, hmaximum, hbounded]
      exact hp.enforcing (henforcing hq)
    · rw [hbounded]
      rcases hfinish hq with hpoint | hpoint | htype
      · exact hp.finish hpoint
      · exact (hp.enforcing hpoint).1
      · exact absurd hvanilla htype
  | registered info hpoint h =>
    exact ⟨.inl h.changeInSystem, by simp [hpoint, Point.enforcing], by simp [hpoint]⟩
  | removed todo collection core hpoint hcore h =>
    refine ⟨?_, by simp [hpoint, Point.enforcing], by simp [hpoint]⟩
    rcases h.committed with hflag | ⟨hperm, hcommitted, hflag⟩
    · exact .inl hflag
    · rw [Bounded, hcommitted, hcore.committed, hflag, hcore.changeInSystem, hperm.length_eq,
        hcore.jobs, hmaximum]
      refine hp.bounded.imp_right (Or.imp_left fun hnil => ?_)
      rw [hcore.jobs, hnil] at hperm
      exact hperm.eq_nil
  | computed dStats core updated haction hpoint h hcore hnext =>
    unfold computeAndEnforce at h
    simp only [hvanilla] at h
    have hbefore : p.core.changeInSystem = true ∨ p.core.Bounded := by
      refine hp.bounded.imp_right fun hb => hb.elim (fun hnil => ?_) id
      have hnonneg : 0 ≤ p.core.maximumLimit := le_trans (by simp) hlimit
      simp [Bounded, committed, hnil, hnonneg]
    have hafter := computeAndEnforceDynamicVanillaRules_bounded hlimit hbefore h
    have hq : q.core.Bounded ∧ (q.core.changeInSystem = true → q.core.committed ≤ q.core.maximumLimit) := by
      rw [hcore]
      exact hafter
    exact ⟨.inr (.inr hq.1), fun _ => hq, by simp [hnext]⟩
  | finished hpoint hcore hnext =>
    have hbounded : q.core.Bounded := by
      rw [hcore]
      exact hp.finish hpoint
    exact ⟨.inr (.inr hbounded), by simp [hnext, Point.enforcing], by simp [hnext]⟩

theorem committed_reach (h : machine.Reach WithinLimit p) (hvanilla : p.core.controlType = .dynamicVanilla) :
    Committed p := by
  induction h with
  | start h =>
    obtain ⟨_, _, _, _, core, hops, rfl⟩ := h
    obtain ⟨ops, op, rfl⟩ := initializeOps_ok hops
    exact ⟨.inr (.inl rfl), by simp [Process.start, Point.enforcing], by simp [Process.start]⟩
  | step _ hlimit hstep ih =>
    have hs := step_cases hstep
    rw [hs.configured.controlType] at hvanilla
    exact (ih hvanilla).step hs hvanilla hlimit

theorem committed_le (h : machine.Reach WithinLimit p) (hvanilla : p.core.controlType = .dynamicVanilla)
    {todo : List (String × String)} (hpoint : p.point = .enforce todo) :
    p.core.committed ≤ p.core.maximumLimit + (iopsThreshold - 1) * ((p.core.jobs.length - 1 : ℕ) : ℤ) ∧
      (p.core.changeInSystem = true → p.core.committed ≤ p.core.maximumLimit) :=
  (committed_reach h hvanilla).enforcing (by rw [hpoint]; rfl)

def twoDemands : List Action :=
  let stage (job : String) : List Action :=
    [.enqueueStage ⟨job, 1, "u", "A"⟩, .countStage, .loop, .serve "A" ⟨1, ∅⟩, .loop]
  let collect : List Action := [.loop, .loop, .serve "A" ⟨0, ((∅ : Rates).insert "a+1" 5).insert "b+1" 5⟩,
    .loop, .loop]
  firstController ++ [.loop, .enqueueRule "1|demand|a|op|44"] ++ stage "a" ++ stage "b" ++ collect ++
    [.loop, .serve "A" ⟨1, ∅⟩, .serve "A" ⟨1, ∅⟩, .loop, .loop, .loop, .loop, .loop, .loop] ++
    [.enqueueRule "1|demand|b|op|20"] ++ collect ++ [.loop]

theorem committed_le_two_demands :
    ∃ p, machine.Reach WithinLimit p ∧ p.core.jobs = ["a", "b"] ∧ p.core.maximumLimit = 100 ∧
      p.core.committed ≤ p.core.maximumLimit + (iopsThreshold - 1) * ((p.core.jobs.length - 1 : ℕ) : ℤ) ∧
      (p.core.changeInSystem = true → p.core.committed ≤ p.core.maximumLimit) := by
  obtain ⟨p, hp, htype, hpoint, hjobs, hlimit⟩ : ∃ p, machine.Reach WithinLimit p ∧
      p.core.controlType = .dynamicVanilla ∧ p.point = .enforce [("b", "A")] ∧ p.core.jobs = ["a", "b"] ∧
      p.core.maximumLimit = 100 :=
    reach_of_run .dynamicVanilla 100 twoDemands (by decide)
  exact ⟨p, hp, hjobs, hlimit, committed_le hp htype hpoint⟩

def Demanding (p : Process) : Action → Prop
  | .enqueueRule rule => WithinLimit p (.enqueueRule rule) ∧
    ((token (parseRule '|' rule) 4).bind stol).toOption.any (0 ≤ ·) = true
  | action => WithinLimit p action

instance : ∀ p action, Decidable (Demanding p action)
  | _, .enqueueRule _ => inferInstanceAs (Decidable (_ ∧ _))
  | p, .loop | p, .enqueueLocal _ | p, .countLocal _ | p, .enqueueStage _ | p, .countStage | p, .serve _ _
  | p, .rehash _ => inferInstanceAs (Decidable ((p.core.jobs.length : ℤ) ≤ p.core.maximumLimit))

theorem committed_above_limit :
    ∃ p, machine.Reach Demanding p ∧ p.core.controlType = .dynamicVanilla ∧
      p.point = .enforce [("b", "A")] ∧ p.core.maximumLimit = 100 ∧ p.core.committed = 109 :=
  reach_of_run .dynamicVanilla 100 twoDemands (by decide)

end FeedbackLoop

end Cheferd
