import Cheferd.JobTables
import Cheferd.SessionSafety
import Cheferd.Library.Lists
import Mathlib.Algebra.Order.BigOperators.Group.List

namespace Cheferd

open Library Strings

namespace CoreControlApplication

variable {core core' core₁ : CoreControlApplication}

theorem updateJobDemands_quiet (h : updateJobDemands core = .ok ("", core')) :
    core'.jobDemands = core.jobDemands := by
  unfold updateJobDemands at h
  split at h
  · cases h
    rfl
  · dsimp only at h
    split at h
    · cases h
      rfl
    · obtain ⟨kind, _, h⟩ := Fault.bind_eq_ok.mp h
      split at h
      · simp only [Fault.bind_eq_ok] at h
        obtain ⟨job, _, op, hop, t, _, demand, _, h⟩ := h
        cases h
        exact absurd rfl (parseRule_ne_empty (List.mem_of_getElem? (token_eq_ok.mp hop)))
      · cases h
        rfl

def wanted (core : CoreControlApplication) (job : String) : ℤ :=
  match core.jobDemands.lookup job with
  | some demand => if demand = -1 then core.jobRates.read job else demand
  | none => core.jobRates.read job

theorem ratesFromDemands_read (core : CoreControlApplication) (job : String) :
    (ratesFromDemands core).jobRates.read job = core.wanted job := by
  have hfold : ∀ (entries : List (Σ _ : String, ℤ)) (core : CoreControlApplication), entries.NodupKeys →
      (entries.foldl (fun core e => if e.2 = -1 then core else setRate e.1 e.2 core) core).jobRates.read job =
        match entries.dlookup job with
        | some demand => if demand = -1 then core.jobRates.read job else demand
        | none => core.jobRates.read job := by
    intro entries
    induction entries with
    | nil => exact fun _ _ => rfl
    | cons e entries ih =>
      intro core hnodup
      obtain ⟨hnotin, hnodup⟩ := List.nodupKeys_cons.mp hnodup
      rw [List.foldl_cons, ih _ hnodup]
      by_cases he : e.1 = job
      · subst he
        rw [List.dlookup_eq_none.mpr hnotin, List.dlookup_cons_eq]
        by_cases hv : e.2 = -1
        · simp [hv]
        · simp [hv, setRate, Assoc.read_insert]
      · have hne : job ≠ e.1 := Ne.symm he
        have hsame : (if e.2 = -1 then core else setRate e.1 e.2 core).jobRates.read job =
          core.jobRates.read job := by
          split
          · rfl
          · simp [setRate, Assoc.read_insert, hne]
        rw [hsame, List.dlookup_cons_ne _ _ hne]
  exact hfold _ core core.jobDemands.nodupKeys

def staticView (job : String) (s : Enforcement) : ℤ × ℤ × Option Event :=
  (s.1.jobRates.read job, s.1.jobPreviousRates.read job, newest job s.1.history)

def ruleFor (operation : String) (app : Σ _ : String, Locations) (rate : ℤ) : EnforcementRule :=
  ⟨app.1, operation, app.2, Double.ofInt (rate.tdiv (totalStages app.2))⟩

def Decided (operation : String) (app : Σ _ : String, Locations) (before after : ℤ × ℤ × Option Event) : Prop :=
  |before.1 - before.2.1| < iopsThreshold ∧ after = (-1, before.2) ∨
    iopsThreshold ≤ |before.1 - before.2.1| ∧
      after = (before.1, before.1, some (.enforced (ruleFor operation app before.1)))

theorem enforceStatic_decided {operation : String} {app : Σ _ : String, Locations} {s t : Enforcement}
    (h : enforceStatic operation s app = .ok t) :
    Decided operation app (staticView app.1 s) (staticView app.1 t) ∧
      ∀ job ≠ app.1, staticView job t = staticView job s := by
  unfold enforceStatic at h
  split at h
  case isTrue hbelow =>
    cases h
    refine ⟨.inl ⟨by simpa [belowThreshold, staticView] using hbelow, ?_⟩, fun job hj => ?_⟩
    · simp [staticView, setRate, Assoc.read_insert]
    · simp [staticView, setRate, Assoc.read_insert, hj]
  case isFalse hbelow =>
    obtain ⟨hsent, _⟩ := sendEnforcementRule_ok h
    refine ⟨.inr ⟨by simpa [belowThreshold, staticView] using hbelow, ?_⟩, fun job hj => ?_⟩
    · simp only [staticView, hsent.jobRates, hsent.jobPreviousRates, hsent.history, Assoc.read_insert, if_true]
      rw [newest_cons_self rfl]
      rfl
    · simp only [staticView, hsent.jobRates, hsent.jobPreviousRates, hsent.history,
        Assoc.read_insert, if_neg hj]
      rw [newest_cons_ne]
      exact fun he => hj (Option.some.inj he).symm

theorem computeAndEnforceStaticRules_decided {updated : List String}
    (h : computeAndEnforceStaticRules core = .ok (core', updated)) :
    ∃ operation core₁, updateJobDemands core = .ok (operation, core₁) ∧ core'.jobDemands = core₁.jobDemands ∧
      (((core.changeInSystem = false ∧ operation = "") ∨ core.jobLocationTracker.entries = []) ∧
          (∀ job, staticView job (core', updated) = staticView job (core, [])) ∨
        (core.changeInSystem = true ∨ operation ≠ "") ∧
          (∀ app ∈ core.jobLocationTracker.entries, Decided core₁.activeOp app
            (core₁.wanted app.1, core.jobPreviousRates.read app.1, newest app.1 core.history)
            (staticView app.1 (core', updated))) ∧
          ∀ job ∉ core.jobs, staticView job (core', updated) =
            (core₁.wanted job, core.jobPreviousRates.read job, newest job core.history)) := by
  obtain ⟨operation, core₁, flag, h₁, hflag, hcases⟩ := computeAndEnforceStaticRules_cases h
  obtain ⟨⟨_, _, _, _, _, hcore₁, _⟩, hrates₁, _⟩ := updateJobDemands_prepared h₁
  have hprevious₁ : core₁.jobPreviousRates = core.jobPreviousRates := by rw [hcore₁]
  have hhistory₁ : core₁.history = core.history := by rw [hcore₁]
  refine ⟨operation, core₁, h₁, ?_⟩
  rcases hcases with ⟨hquiet, rfl, rfl⟩ | ⟨hset, hfold⟩
  · refine ⟨rfl, .inl ⟨?_, fun job => ?_⟩⟩
    · rcases hquiet with hclear | hnil
      · left
        rw [hclear] at hflag
        simpa using hflag
      · exact .inr hnil
    · simp only [staticView, hrates₁, hprevious₁, hhistory₁]
  · have hrates := ratesFromDemands_frame { core₁ with changeInSystem := flag }
    have hview : ∀ job, staticView job (ratesFromDemands { core₁ with changeInSystem := flag }, []) =
        (core₁.wanted job, core.jobPreviousRates.read job, newest job core.history) := by
      intro job
      rw [staticView, ratesFromDemands_read, hrates, ← hprevious₁, ← hhistory₁]
      rfl
    obtain ⟨hdecided, hother⟩ := Lists.foldlM_pointwise Sigma.fst staticView
      (fun _ _ _ => enforceStatic_decided) core.jobLocationTracker.keys_nodup hfold
    obtain ⟨_, hr⟩ := (turns_of_foldlM (fun _ _ _ => enforceStatic_turn) hfold).requests
      core.jobLocationTracker.keys_nodup
    refine ⟨?_, .inr ⟨hflag.mp hset, fun app happ => ?_, fun job hj => ?_⟩⟩
    · rw [show core'.jobDemands = _ from hr.jobDemands, hrates]
    · rw [← hview]
      exact hdecided app happ
    · rw [← hview]
      exact hother job hj

def withRule (core : CoreControlApplication) : String × CoreControlApplication :=
  (updateJobDemands core).toOption.getD ("", core)

theorem withRule_eq {operation : String} (h : updateJobDemands core = .ok (operation, core₁)) :
    core.withRule = (operation, core₁) := by
  rw [withRule, h]
  rfl

def Admissible (v : ℤ) : Prop := -1 ≤ v ∧ v ≤ 2 ^ 53

instance (v : ℤ) : Decidable (Admissible v) := inferInstanceAs (Decidable (_ ∧ _))

def Prompt (core : CoreControlApplication) : Prop :=
  (∀ e ∈ core.withRule.2.jobDemands.entries, Admissible e.2) ∧
    ∀ e ∈ core.withRule.2.jobDemands.entries, e.2 ≠ -1 → e.1 ∈ core.jobLocationTracker →
      Touched core.history e.1 → (core.changeInSystem = true ∨ core.withRule.1 ≠ "") ∧
        iopsThreshold ≤ |e.2 - core.jobPreviousRates.read e.1|

instance (core : CoreControlApplication) : Decidable core.Prompt := inferInstanceAs (Decidable (_ ∧ _))

structure Current (core : CoreControlApplication) (job : String) (locations : Locations) : Prop where
  ruled : ∃ operation, newest job core.history =
    some (.enforced (ruleFor operation ⟨job, locations⟩ (core.jobPreviousRates.read job)))
  close : ∀ demand, core.jobDemands.lookup job = some demand → demand ≠ -1 →
    |core.jobPreviousRates.read job - demand| < iopsThreshold

structure Limited (core : CoreControlApplication) : Prop where
  tracked : ∀ job locations, core.jobLocationTracker.lookup job = some locations →
    Touched core.history job ∨ Current core job locations
  rates : ∀ job, Admissible (core.jobRates.read job)
  previousRates : ∀ job, Admissible (core.jobPreviousRates.read job)

theorem Decided.current {operation : String} {job : String} {locations : Locations}
    (hold : Touched core.history job ∨ Current core job locations)
    (hprompt : ∀ demand, core₁.jobDemands.lookup job = some demand → demand ≠ -1 → Touched core.history job →
      iopsThreshold ≤ |demand - core.jobPreviousRates.read job|)
    (hdemands : core'.jobDemands = core₁.jobDemands) {updated : List String}
    (h : Decided operation ⟨job, locations⟩
      (core₁.wanted job, core.jobPreviousRates.read job, newest job core.history)
      (staticView job (core', updated))) :
    Current core' job locations ∨
      Touched core'.history job ∧ ∀ demand, core'.jobDemands.lookup job = some demand → demand = -1 := by
  have hwanted : ∀ demand, core'.jobDemands.lookup job = some demand → demand ≠ -1 →
      core₁.wanted job = demand := by
    intro demand hd hne
    rw [hdemands] at hd
    simp only [wanted, hd, if_neg hne]
  rcases h with ⟨hclose, hafter⟩ | ⟨_, hafter⟩
  · have hprevious : core'.jobPreviousRates.read job = core.jobPreviousRates.read job := congrArg (·.2.1) hafter
    have hnewest : newest job core'.history = newest job core.history := congrArg (·.2.2) hafter
    rcases hold with htouched | ⟨hruled, _⟩
    · refine .inr ⟨by rw [Touched, hnewest]; exact htouched, fun demand hd => by_contra fun hne => ?_⟩
      have hfar := hprompt demand (hdemands ▸ hd) hne htouched
      rw [hwanted demand hd hne] at hclose
      exact absurd hclose (not_lt.mpr hfar)
    · refine .inl ⟨by rw [hnewest, hprevious]; exact hruled, fun demand hd hne => ?_⟩
      rw [hwanted demand hd hne] at hclose
      rw [hprevious, abs_sub_comm]
      exact hclose
  · have hprevious : core'.jobPreviousRates.read job = core₁.wanted job := congrArg (·.2.1) hafter
    have hnewest : newest job core'.history =
        some (.enforced (ruleFor operation ⟨job, locations⟩ (core₁.wanted job))) := congrArg (·.2.2) hafter
    refine .inl ⟨⟨operation, by rw [hnewest, hprevious]⟩, fun demand hd hne => ?_⟩
    rw [hprevious, hwanted demand hd hne, sub_self]
    decide

theorem Current.quiet {job : String} {locations : Locations} {updated : List String}
    (hold : Touched core.history job ∨ Current core job locations)
    (hprompt : ∀ demand, core'.jobDemands.lookup job = some demand → demand ≠ -1 → ¬ Touched core.history job)
    (hdemands : core'.jobDemands = core.jobDemands)
    (h : staticView job (core', updated) = staticView job (core, [])) :
    Current core' job locations ∨
      Touched core'.history job ∧ ∀ demand, core'.jobDemands.lookup job = some demand → demand = -1 := by
  have hprevious : core'.jobPreviousRates.read job = core.jobPreviousRates.read job := congrArg (·.2.1) h
  have hnewest : newest job core'.history = newest job core.history := congrArg (·.2.2) h
  rcases hold with htouched | ⟨hruled, hclose⟩
  · exact .inr ⟨by rw [Touched, hnewest]; exact htouched,
      fun demand hd => by_contra fun hne => hprompt demand hd hne htouched⟩
  · exact .inl ⟨by rw [hnewest, hprevious]; exact hruled, by rw [hdemands, hprevious]; exact hclose⟩

theorem wanted_admissible {job : String} (hrates : Admissible (core.jobRates.read job))
    (hdemands : ∀ e ∈ core.jobDemands.entries, Admissible e.2) : Admissible (core.wanted job) := by
  unfold wanted
  split
  case h_1 demand hd =>
    split
    · exact hrates
    · exact hdemands ⟨job, demand⟩ (AList.mem_lookup_iff.mp hd)
  case h_2 => exact hrates

theorem computeAndEnforceStaticRules_limited {updated : List String} (hp : Limited core) (hprompt : core.Prompt)
    (h : computeAndEnforceStaticRules core = .ok (core', updated)) :
    (∀ job, Admissible (core'.jobRates.read job) ∧ Admissible (core'.jobPreviousRates.read job)) ∧
    (∀ job demand, core'.jobDemands.lookup job = some demand → Admissible demand) ∧
    ∀ job locations, core.jobLocationTracker.lookup job = some locations → Current core' job locations ∨
      Touched core'.history job ∧ ∀ demand, core'.jobDemands.lookup job = some demand → demand = -1 := by
  obtain ⟨operation, core₁, h₁, hdemands, hcases⟩ := computeAndEnforceStaticRules_decided h
  obtain ⟨hrange, hprompt⟩ := hprompt
  rw [withRule_eq h₁] at hrange hprompt
  have hrates₁ := (updateJobDemands_prepared h₁).2.1
  have hwanted : ∀ job, Admissible (core₁.wanted job) := fun job =>
    wanted_admissible (by rw [hrates₁]; exact hp.rates job) hrange
  have hentry : ∀ job demand, core₁.jobDemands.lookup job = some demand →
      (⟨job, demand⟩ : Σ _ : String, ℤ) ∈ core₁.jobDemands.entries := fun job demand => AList.mem_lookup_iff.mp
  have hdemanded : ∀ job demand, core'.jobDemands.lookup job = some demand → Admissible demand :=
    fun job demand hd => hrange _ (hentry job demand (hdemands ▸ hd))
  rcases hcases with ⟨hquiet, hsame⟩ | ⟨hrun, hdecided, hother⟩
  · have hread : ∀ job, core'.jobRates.read job = core.jobRates.read job ∧
        core'.jobPreviousRates.read job = core.jobPreviousRates.read job := fun job =>
      ⟨congrArg (·.1) (hsame job), congrArg (·.2.1) (hsame job)⟩
    refine ⟨fun job => ?_, hdemanded, fun job locations hl => ?_⟩
    · rw [(hread job).1, (hread job).2]
      exact ⟨hp.rates job, hp.previousRates job⟩
    · have htracked : job ∈ core.jobLocationTracker := AList.lookup_isSome.mp (by rw [hl]; rfl)
      rcases hquiet with ⟨hclear, rfl⟩ | hnil
      · refine Current.quiet (hp.tracked job locations hl) (fun demand hd hne htouched => ?_)
          (hdemands.trans (updateJobDemands_quiet h₁)) (hsame job)
        rcases (hprompt ⟨job, demand⟩ (hentry job demand (hdemands ▸ hd)) hne htracked htouched).1
          with hset | hop
        · rw [hclear] at hset
          cases hset
        · exact hop rfl
      · rw [Assoc.lookup_of_entries_nil hnil] at hl
        cases hl
  · refine ⟨fun job => ?_, hdemanded, fun job locations hl => ?_⟩
    · by_cases hj : job ∈ core.jobs
      · obtain ⟨app, happ, rfl⟩ := List.mem_map.mp hj
        rcases hdecided app happ with ⟨_, hafter⟩ | ⟨_, hafter⟩
        · rw [show core'.jobRates.read app.1 = -1 from congrArg (·.1) hafter,
            show core'.jobPreviousRates.read app.1 = _ from congrArg (·.2.1) hafter]
          exact ⟨by decide, hp.previousRates app.1⟩
        · rw [show core'.jobRates.read app.1 = _ from congrArg (·.1) hafter,
            show core'.jobPreviousRates.read app.1 = _ from congrArg (·.2.1) hafter]
          exact ⟨hwanted app.1, hwanted app.1⟩
      · rw [show core'.jobRates.read job = _ from congrArg (·.1) (hother job hj),
          show core'.jobPreviousRates.read job = _ from congrArg (·.2.1) (hother job hj)]
        exact ⟨hwanted job, hp.previousRates job⟩
    · have htracked : job ∈ core.jobLocationTracker := AList.lookup_isSome.mp (by rw [hl]; rfl)
      exact (hdecided ⟨job, locations⟩ (AList.mem_lookup_iff.mp hl)).current (hp.tracked job locations hl)
        (fun demand hd hne ht => (hprompt ⟨job, demand⟩ (hentry job demand hd) hne htracked ht).2) hdemands

theorem Current.of_eq {job : String} {locations : Locations} (h : Current core job locations)
    (hdemand : core'.jobDemands.lookup job = core.jobDemands.lookup job)
    (hprevious : core'.jobPreviousRates.read job = core.jobPreviousRates.read job)
    (hnewest : newest job core'.history = newest job core.history) : Current core' job locations := by
  obtain ⟨hruled, hclose⟩ := h
  exact ⟨by rw [hnewest, hprevious]; exact hruled, by rw [hdemand, hprevious]; exact hclose⟩

theorem SameTables.limited (h : SameTables core core') (hp : Limited core) : Limited core' := by
  refine ⟨fun job locations hl => ?_, by rw [h.jobRates]; exact hp.rates,
    by rw [h.jobPreviousRates]; exact hp.previousRates⟩
  rw [h.jobLocationTracker] at hl
  refine (hp.tracked job locations hl).imp (fun ht => by rw [h.history]; exact ht) fun hc => hc.of_eq ?_ ?_ ?_
  · rw [h.jobDemands]
  · rw [h.jobPreviousRates]
  · rw [h.history]

theorem Registers.limited {info : StageInfo} (h : Registers info core core') (hp : Limited core) :
    Limited core' := by
  have hread : ∀ {m m' : Assoc String ℤ} {job : String}, m'.lookup job = m.lookup job →
      m'.read job = m.read job :=
    fun he => by rw [Assoc.read, Assoc.read, he]
  refine ⟨fun job locations hl => ?_, fun job => ?_, fun job => ?_⟩
  · rw [h.jobLocationTracker, trackStage, Assoc.lookup_insertSorted] at hl
    rw [h.history]
    split at hl
    case isTrue hj => exact .inl (touched_of_newest (newest_cons_self (by rw [hj]; rfl)) rfl)
    case isFalse hj =>
      obtain ⟨hdemand, _, hprevious⟩ := h.kept job (.inr hj)
      have hnewest : newest job (.registered info :: core.history) = newest job core.history :=
        newest_cons_ne fun he => hj (Option.some.inj he).symm
      refine (hp.tracked job locations hl).imp (fun ht => by rw [Touched, hnewest]; exact ht) fun hc => ?_
      exact hc.of_eq hdemand (hread hprevious) (by rw [h.history, hnewest])
  · by_cases hj : job = info.stageName
    · rcases List.mem_pair.mp h.emplaced.1 with hr | hr
      · rw [hj, hr]
        exact hp.rates _
      · rw [hj, hr]
        decide
    · rw [hread (h.kept job (.inr hj)).2.1]
      exact hp.rates job
  · by_cases hj : job = info.stageName
    · rcases List.mem_pair.mp h.emplaced.2 with hr | hr
      · rw [hj, hr]
        exact hp.previousRates _
      · rw [hj, hr]
        decide
    · rw [hread (h.kept job (.inr hj)).2.2]
      exact hp.previousRates job

theorem Forgets.limited (h : Forgets core core') (hp : Limited core) : Limited core' := by
  obtain ⟨infos, hhistory, _, htracker⟩ := h.events
  have hread : ∀ {m m' : Assoc String ℤ} {job : String}, m'.lookup job = m.lookup job →
      m'.read job = m.read job :=
    fun he => by rw [Assoc.read, Assoc.read, he]
  have hrange : ∀ {m m' : Assoc String ℤ} {job : String}, Admissible (m.read job) →
      m'.lookup job = m.lookup job ∨ m'.lookup job = none → Admissible (m'.read job) := by
    rintro m m' job hm (he | he)
    · rw [hread he]
      exact hm
    · rw [Assoc.read, he]
      decide
  have hlookup : ∀ job, (job ∈ core.jobLocationTracker → job ∈ core'.jobLocationTracker) ∨
      job ∈ core.jobLocationTracker ∧ job ∉ core'.jobLocationTracker := fun job => by tauto
  refine ⟨fun job locations hl => ?_, fun job => ?_, fun job => ?_⟩
  · rw [hhistory]
    have htracked : job ∈ core'.jobLocationTracker := AList.lookup_isSome.mp (by rw [hl]; rfl)
    have hremoved : ∀ event ∈ infos.map Event.removed, event.sends = false := by simp [Event.sends]
    rcases touched_or_newest hremoved job with ht | ⟨hnone, hnewest⟩
    · exact .inl ht
    · have hne : ∀ info ∈ infos, info.stageName ≠ job := fun info hi he =>
        hnone _ (List.mem_map_of_mem hi) (by rw [← he]; rfl)
      obtain ⟨hdemand, _, hprevious⟩ := h.kept job fun _ => htracked
      rw [htracker job hne] at hl
      refine (hp.tracked job locations hl).imp (fun ht => by rw [Touched, hnewest]; exact ht) fun hc => ?_
      exact hc.of_eq hdemand (hread hprevious) (by rw [hhistory, hnewest])
  · refine hrange (hp.rates job) ((hlookup job).imp (fun hk => (h.kept job hk).2.1) fun hf => ?_)
    exact (h.forgotten job hf.1 hf.2).2.1
  · refine hrange (hp.previousRates job) ((hlookup job).imp (fun hk => (h.kept job hk).2.2) fun hf => ?_)
    exact (h.forgotten job hf.1 hf.2).2.2

end CoreControlApplication

namespace FeedbackLoop

open CoreControlApplication

def Prompted (p : Process) : Action → Prop
  | .loop => p.point.computing = true → p.core.Prompt
  | _ => True

instance : ∀ p action, Decidable (Prompted p action)
  | _, .loop => inferInstanceAs (Decidable (_ → _))
  | _, .enqueueLocal _ | _, .countLocal _ | _, .enqueueStage _ | _, .countStage | _, .enqueueRule _
  | _, .serve _ _ | _, .rehash _ => inferInstanceAs (Decidable True)

variable {p q : Process}

structure Kept (p : Process) : Prop where
  limited : Limited p.core
  demands : p.point.enforcing = true → ∀ job demand, p.core.jobDemands.lookup job = some demand →
    Admissible demand
  enforcing : p.point.enforcing = true →
    ∀ job locations, p.core.jobLocationTracker.lookup job = some locations →
    Current p.core job locations ∨ ∀ demand, p.core.jobDemands.lookup job = some demand → demand = -1

theorem Kept.step {action : Action} (h : Step p action q) (hstatic : p.core.controlType = .static)
    (hprompted : Prompted p action) (hp : Kept p) : Kept q := by
  cases h.tableStep with
  | kept h henforcing hfinish =>
    refine ⟨h.limited hp.limited, fun hq => by rw [h.jobDemands]; exact hp.demands (henforcing hq),
      fun hq job locations hl => ?_⟩
    rw [h.jobLocationTracker] at hl
    rw [h.jobDemands]
    refine (hp.enforcing (henforcing hq) job locations hl).imp_left fun hc => hc.of_eq ?_ ?_ ?_
    · rw [h.jobDemands]
    · rw [h.jobPreviousRates]
    · rw [h.history]
  | registered info hpoint h =>
    exact ⟨h.limited hp.limited, by simp [hpoint, Point.enforcing], by simp [hpoint, Point.enforcing]⟩
  | removed todo collection core hpoint hcore h =>
    exact ⟨h.limited (hcore.limited hp.limited),
      by simp [hpoint, Point.enforcing], by simp [hpoint, Point.enforcing]⟩
  | computed dStats core updated haction hpoint h hcore hnext =>
    rw [haction] at hprompted
    unfold computeAndEnforce at h
    simp only [hstatic] at h
    obtain ⟨hrange, hdemanded, hjobs⟩ :=
      computeAndEnforceStaticRules_limited hp.limited (hprompted (by rw [hpoint]; rfl)) h
    have hframe := (computeAndEnforceStaticRules_computes h).frame
    have hnewest : ∀ job, newest job q.core.history = newest job core.history := fun job => by
      rw [hcore]
      exact newest_cons_ne (by simp [Event.job])
    have htracker : q.core.jobLocationTracker = p.core.jobLocationTracker := by
      rw [hcore]
      exact hframe.jobLocationTracker
    have hq : ∀ job locations, q.core.jobLocationTracker.lookup job = some locations →
        Current q.core job locations ∨
          Touched q.core.history job ∧ ∀ demand, q.core.jobDemands.lookup job = some demand → demand = -1 := by
      intro job locations hl
      rw [htracker] at hl
      rw [Touched, hnewest]
      have hdemands : q.core.jobDemands = core.jobDemands := by rw [hcore]
      rw [hdemands]
      refine (hjobs job locations hl).imp_left fun hc => hc.of_eq ?_ ?_ (hnewest job)
      · rw [hdemands]
      · rw [hcore]
    refine ⟨⟨fun job locations hl => ?_, fun job => ?_, fun job => ?_⟩, fun _ job demand hd => ?_,
      fun _ job locations hl => ?_⟩
    · exact (hq job locations hl).symm.imp_left And.left
    · rw [hcore]
      exact (hrange job).1
    · rw [hcore]
      exact (hrange job).2
    · rw [hcore] at hd
      exact hdemanded job demand hd
    · exact (hq job locations hl).imp_right And.right
  | finished hpoint hcore hnext =>
    refine ⟨?_, by simp [hnext, Point.enforcing], by simp [hnext, Point.enforcing]⟩
    rw [hcore]
    refine ⟨fun job locations hl => (hp.limited.tracked job locations hl).imp_right fun hc => ?_,
      hp.limited.rates, hp.limited.previousRates⟩
    exact hc.of_eq rfl rfl rfl

theorem kept_reach (h : machine.Reach Prompted p) (hstatic : p.core.controlType = .static) : Kept p := by
  induction h with
  | start h =>
    obtain ⟨_, _, _, _, core, hops, rfl⟩ := h
    obtain ⟨ops, op, rfl⟩ := initializeOps_ok hops
    exact ⟨⟨fun _ _ hl => (nomatch hl), fun _ => (by decide : Admissible 0), fun _ =>
      (by decide : Admissible 0)⟩,
      by simp [Process.start, Point.enforcing], by simp [Process.start, Point.enforcing]⟩
  | step _ hprompted hstep ih =>
    have hs := step_cases hstep
    rw [hs.configured.controlType] at hstatic
    exact (ih hstatic).step hs hstatic hprompted

def lastLimit (job address : String) (env : ℤ) : List Event → Option ℤ
  | [] => none
  | .enforced rule :: history =>
    if rule.appName = job ∧ env ∈ (rule.localToEnvs.lookup address).getD [] then some rule.limitPerStage
    else lastLimit job address env history
  | .registered info :: history =>
    if info.stageName = job ∧ info.localAddress = address ∧ info.stageEnv = env then none
    else lastLimit job address env history
  | .removed _ :: history => lastLimit job address env history
  | .computed :: history => lastLimit job address env history

theorem lastLimit_of_newest {job address : String} {env : ℤ} {rule : EnforcementRule} {history : List Event}
    (h : newest job history = some (.enforced rule)) (henv : env ∈ (rule.localToEnvs.lookup address).getD []) :
    lastLimit job address env history = some rule.limitPerStage := by
  induction history with
  | nil => cases h
  | cons event history ih =>
    by_cases he : event.job = some job
    · rw [newest_cons_self he] at h
      cases h
      exact if_pos ⟨Option.some.inj he, henv⟩
    · rw [newest_cons_ne he] at h
      cases event with
      | registered info => exact (if_neg fun hc => he (by rw [← hc.1]; rfl)).trans (ih h)
      | enforced rule => exact (if_neg fun hc => he (by rw [← hc.1]; rfl)).trans (ih h)
      | removed info => exact ih h
      | computed => exact ih h

theorem limit_share {rate demand n : ℤ} (hrate : Admissible rate) (hdemand : 0 ≤ demand) (hn : 0 ≤ n)
    (hclose : |rate - demand| < iopsThreshold) :
    ∃ r, |r - demand| < iopsThreshold ∧ Double.ofInt (rate.tdiv n) = r / n := by
  obtain ⟨hlow, hhigh⟩ := hrate
  by_cases hneg : rate = -1
  · subst hneg
    by_cases hone : n = 1
    · subst hone
      exact ⟨-1, hclose, by decide⟩
    · refine ⟨0, ?_, ?_⟩
      · rw [abs_lt] at hclose ⊢
        omega
      · have hzero : (-1 : ℤ).tdiv n = 0 := by
          rw [Int.neg_tdiv, Int.tdiv_eq_ediv_of_nonneg (by decide), neg_eq_zero]
          rcases hn.eq_or_lt with rfl | hpos
          · rfl
          · exact Int.ediv_eq_zero_of_lt (by decide) (by omega)
        rw [hzero, Int.zero_ediv]
        rfl
  · have hnonneg : 0 ≤ rate := by omega
    refine ⟨rate, hclose, ?_⟩
    rw [Int.tdiv_eq_ediv_of_nonneg hnonneg, Double.ofInt_eq]
    have h0 := Int.ediv_nonneg hnonneg hn
    have h1 := Int.ediv_le_self n hnonneg
    omega

theorem stages_hold_share (h : machine.Reach Prompted p) (hstatic : p.core.controlType = .static)
    {todo : List (String × String)} (hpoint : p.point = .enforce todo) {job : String} {locations : Locations}
    (hl : p.core.jobLocationTracker.lookup job = some locations) {demand : ℤ}
    (hd : p.core.jobDemands.lookup job = some demand) (hne : demand ≠ -1) :
    ∃ r, |r - demand| < iopsThreshold ∧ ∀ address, ∀ env ∈ p.core.envsOf job address,
      lastLimit job address env p.core.history = some (r / totalStages locations) := by
  have henforcing : p.point.enforcing = true := by rw [hpoint]; rfl
  have hk := kept_reach h hstatic
  obtain ⟨hlow, -⟩ := hk.demands henforcing job demand hd
  rcases hk.enforcing henforcing job locations hl with ⟨⟨operation, hnewest⟩, hclose⟩ | hnone
  · have hn : 0 ≤ totalStages locations := List.sum_nonneg fun x hx => by
      obtain ⟨e, _, rfl⟩ := List.mem_map.mp hx
      exact Int.natCast_nonneg _
    obtain ⟨r, hr, hlimit⟩ := limit_share (hk.limited.previousRates job) (by omega) hn (hclose demand hd hne)
    refine ⟨r, hr, fun address env henv => ?_⟩
    rw [envsOf_lookup hl] at henv
    rw [← hlimit]
    exact lastLimit_of_newest hnewest henv
  · exact absurd (hnone demand hd) hne

def demandedStage (later : List Action) : List Action :=
  let collect : List Action := [.loop, .loop, .serve "A" ⟨0, (∅ : Rates).insert "j+1" 5⟩, .loop, .loop]
  firstController ++ [.loop, .enqueueRule "1|job|j|op|100", .enqueueStage ⟨"j", 1, "u", "A"⟩,
    .countStage, .loop, .serve "A" ⟨1, ∅⟩, .loop] ++ collect ++
    [.loop, .serve "A" ⟨1, ∅⟩, .loop, .loop, .loop, .loop, .loop] ++ later ++ collect ++ [.loop]

theorem stages_hold_share_demanded :
    ∃ p, machine.Reach Prompted p ∧ p.core.envsOf "j" "A" = [1] ∧
      ∃ r, |r - 100| < iopsThreshold ∧ ∀ address, ∀ env ∈ p.core.envsOf "j" address,
        lastLimit "j" address env p.core.history = some (r / totalStages (AList.singleton "A" [1])) := by
  obtain ⟨p, hp, htype, hpoint, hl, hd⟩ : ∃ p, machine.Reach Prompted p ∧ p.core.controlType = .static ∧
      p.point = .enforce [] ∧ p.core.jobLocationTracker.lookup "j" = some (AList.singleton "A" [1]) ∧
      p.core.jobDemands.lookup "j" = some 100 :=
    reach_of_run .static 100 (demandedStage []) (by decide)
  exact ⟨p, hp, envsOf_lookup hl, stages_hold_share hp htype hpoint hl hd (by decide)⟩

theorem second_stage_without_limit :
    ∃ p, machine.Reach (fun _ _ => True) p ∧ p.core.controlType = .static ∧ p.point = .enforce [] ∧
      p.core.jobLocationTracker.lookup "j" = some (AList.singleton "A" [1, 2]) ∧
      p.core.jobDemands.lookup "j" = some 100 ∧
      ¬ ∃ r, |r - 100| < iopsThreshold ∧ ∀ address, ∀ env ∈ p.core.envsOf "j" address,
        lastLimit "j" address env p.core.history = some (r / totalStages (AList.singleton "A" [1, 2])) := by
  obtain ⟨p, hp, htype, hpoint, hl, hd, hnone⟩ : ∃ p, machine.Reach (fun _ _ => True) p ∧
      p.core.controlType = .static ∧ p.point = .enforce [] ∧
      p.core.jobLocationTracker.lookup "j" = some (AList.singleton "A" [1, 2]) ∧
      p.core.jobDemands.lookup "j" = some 100 ∧ lastLimit "j" "A" 2 p.core.history = none :=
    reach_of_run .static 100 (demandedStage
      [.enqueueStage ⟨"j", 2, "u", "A"⟩, .countStage, .loop, .serve "A" ⟨1, ∅⟩, .loop]) (by decide)
  refine ⟨p, hp, htype, hpoint, hl, hd, ?_⟩
  rintro ⟨r, _, hlimit⟩
  have henv : 2 ∈ p.core.envsOf "j" "A" := by
    rw [envsOf_lookup hl]
    decide
  rw [hlimit "A" 2 henv] at hnone
  cases hnone

end FeedbackLoop

end Cheferd
