import Cheferd.StaticLimits
import Cheferd.VanillaCommitment

namespace Cheferd.CoreControlApplication

open Library

variable {core core' core₁ : CoreControlApplication} {operation : String} {app : Σ _ : String, Locations}

def about (job : String) (history : List Event) : List Event := history.filter (·.job = some job)

theorem newest_eq (job : String) (history : List Event) : newest job history = (about job history).head? :=
  List.head?_filter.symm

theorem about_cons_self {job : String} {event : Event} {history : List Event} (h : event.job = some job) :
    about job (event :: history) = event :: about job history :=
  List.filter_cons_of_pos (by simpa using h)

theorem about_cons_ne {job : String} {event : Event} {history : List Event} (h : event.job ≠ some job) :
    about job (event :: history) = about job history :=
  List.filter_cons_of_neg (by simpa using h)

theorem about_append_ne {job : String} {event : Event} {events history : List Event} (h : event ∈ events)
    (hjob : event.job = some job) : about job (events ++ history) ≠ about job history := by
  rw [about, List.filter_append]
  intro he
  have hnil := List.append_left_eq_self.mp he
  have hmem : event ∈ events.filter (·.job = some job) := List.mem_filter.mpr ⟨h, by simpa using hjob⟩
  rw [hnil] at hmem
  cases hmem

structure JobView where
  changeInSystem : Bool
  rate : ℤ
  previousRate : ℤ
  events : List Event

def jobView (job : String) (s : Enforcement) : JobView :=
  ⟨s.1.changeInSystem, s.1.jobRates.read job, s.1.jobPreviousRates.read job, about job s.1.history⟩

inductive Outcome (operation : String) (app : Σ _ : String, Locations) (rate : ℤ) (skip : Prop)
    (before after : JobView) : Prop
  | skipped (h : skip) (hafter : after = { before with rate := -1 })
  | sent (h : ¬ skip) (hafter : after =
      ⟨before.changeInSystem, rate, rate, .enforced (ruleFor operation app rate) :: before.events⟩)

theorem Sent.jobView_self {updated : List String} (h : Sent app.1 operation app.2 core core') :
    jobView app.1 (core', updated) = ⟨core.changeInSystem, core.jobRates.read app.1, core.jobRates.read app.1,
      .enforced (ruleFor operation app (core.jobRates.read app.1)) :: about app.1 core.history⟩ := by
  simp only [jobView, h.changeInSystem, h.jobRates, h.jobPreviousRates, h.history, Assoc.read_insert, if_true]
  rw [about_cons_self rfl]
  rfl

theorem Sent.jobView_ne {updated updated' : List String} {job : String} (hj : job ≠ app.1)
    (h : Sent app.1 operation app.2 core core') :
    jobView job (core', updated) = jobView job (core, updated') := by
  simp only [jobView, h.changeInSystem, h.jobRates, h.jobPreviousRates, h.history, Assoc.read_insert, if_neg hj]
  rw [about_cons_ne (by simpa [Event.job] using hj.symm)]

theorem enforceStatic_outcome {s t : Enforcement} (h : enforceStatic operation s app = .ok t) :
    Outcome operation app (jobView app.1 s).rate
        (|(jobView app.1 s).rate - (jobView app.1 s).previousRate| < iopsThreshold) (jobView app.1 s)
          (jobView app.1 t) ∧
      ∀ job ≠ app.1, jobView job t = jobView job s := by
  unfold enforceStatic at h
  split at h
  case isTrue hbelow =>
    cases h
    refine ⟨.skipped (by simpa [belowThreshold, jobView] using hbelow) ?_, fun job hj => ?_⟩
    · simp [jobView, setRate, Assoc.read_insert]
    · simp [jobView, setRate, Assoc.read_insert, hj]
  case isFalse hbelow =>
    obtain ⟨hsent, _⟩ := sendEnforcementRule_ok h
    exact ⟨.sent (by simpa [belowThreshold, jobView] using hbelow) hsent.jobView_self,
      fun job hj => hsent.jobView_ne hj⟩

theorem enforceVanilla_outcome {leftover : ℤ} {s t : Enforcement}
    (h : enforceVanilla operation leftover s app = .ok t) :
    Outcome operation app ((jobView app.1 s).rate + leftover)
        ((jobView app.1 s).changeInSystem = false ∧
          |(jobView app.1 s).rate + leftover - (jobView app.1 s).previousRate| < iopsThreshold)
        (jobView app.1 s) (jobView app.1 t) ∧
      ∀ job ≠ app.1, jobView job t = jobView job s := by
  unfold enforceVanilla at h
  dsimp only at h
  have hself : (setRate app.1 (s.1.jobRates.read app.1 + leftover) s.1).jobRates.read app.1 =
      s.1.jobRates.read app.1 + leftover := by simp [setRate, Assoc.read_insert]
  have hother : ∀ job ≠ app.1, jobView job (setRate app.1 (s.1.jobRates.read app.1 + leftover) s.1, s.2) =
      jobView job s := fun job hj => by simp [jobView, setRate, Assoc.read_insert, hj]
  split at h
  case isTrue hskip =>
    cases h
    refine ⟨.skipped ?_ ?_, fun job hj => ?_⟩
    · simpa [belowThreshold, jobView, hself, setRate, Assoc.read_insert] using hskip
    · simp [jobView, setRate, Assoc.read_insert]
    · simp [jobView, setRate, Assoc.read_insert, hj]
  case isFalse hskip =>
    obtain ⟨hsent, _⟩ := sendEnforcementRule_ok h
    refine ⟨.sent ?_ ?_, fun job hj => (hsent.jobView_ne hj).trans (hother job hj)⟩
    · simpa [belowThreshold, jobView, hself, setRate, Assoc.read_insert] using hskip
    · rw [hsent.jobView_self, hself]
      rfl

structure Passed (operation : String) (app : Σ _ : String, Locations) (rate : ℤ) (skip : Prop)
    (core core' : CoreControlApplication) : Prop where
  skipped : skip → core'.jobPreviousRates.read app.1 = core.jobPreviousRates.read app.1 ∧
    about app.1 core'.history = about app.1 core.history
  sent : ¬ skip → core'.jobRates.read app.1 = rate ∧ core'.jobPreviousRates.read app.1 = rate ∧
    about app.1 core'.history = .enforced (ruleFor operation app rate) :: about app.1 core.history

theorem Outcome.passed {rate : ℤ} {skip : Prop} {before : JobView} {s : Enforcement}
    (h : Outcome operation app rate skip before (jobView app.1 s))
    (hprevious : before.previousRate = core.jobPreviousRates.read app.1)
    (hevents : before.events = about app.1 core.history) : Passed operation app rate skip core s.1 := by
  cases h with
  | skipped h hafter =>
    refine ⟨fun _ => ⟨?_, ?_⟩, fun hn => absurd h hn⟩
    · exact (congrArg JobView.previousRate hafter).trans hprevious
    · exact (congrArg JobView.events hafter).trans hevents
  | sent h hafter =>
    refine ⟨fun hs => absurd hs h, fun _ =>
      ⟨congrArg JobView.rate hafter, congrArg JobView.previousRate hafter, ?_⟩⟩
    exact (congrArg JobView.events hafter).trans (by rw [hevents])

theorem computeAndEnforceStaticRules_passed {updated : List String}
    (h : computeAndEnforceStaticRules core = .ok (core', updated)) :
    (core.changeInSystem = false ∧ core.withRule.1 = "" ∧ core'.history = core.history) ∨
      (∀ app ∈ core.jobLocationTracker.entries, Passed core.withRule.2.activeOp app
      (core.withRule.2.wanted app.1)
        (|core.withRule.2.wanted app.1 - core.jobPreviousRates.read app.1| < iopsThreshold) core core') ∧
      ∀ job ∉ core.jobs, core'.jobPreviousRates.read job = core.jobPreviousRates.read job ∧
        about job core'.history = about job core.history := by
  obtain ⟨operation, core₁, flag, h₁, hflag, hcases⟩ := computeAndEnforceStaticRules_cases h
  obtain ⟨⟨_, _, _, _, _, hcore₁, _⟩, hrates₁, _⟩ := updateJobDemands_prepared h₁
  have hprevious₁ : core₁.jobPreviousRates = core.jobPreviousRates := by rw [hcore₁]
  have hhistory₁ : core₁.history = core.history := by rw [hcore₁]
  rw [withRule_eq h₁]
  dsimp only
  rcases hcases with ⟨hclear | hnil, rfl, _⟩ | ⟨_, hfold⟩
  · rw [hclear] at hflag
    obtain ⟨hset, hop⟩ : core.changeInSystem = false ∧ operation = "" := by simpa using hflag
    exact .inl ⟨hset, hop, hhistory₁⟩
  · refine .inr ⟨fun app happ => ?_, fun job _ =>
      ⟨congrArg (·.read job) hprevious₁, congrArg (about job) hhistory₁⟩⟩
    rw [hnil] at happ
    cases happ
  · have hview : ∀ job, jobView job (ratesFromDemands { core₁ with changeInSystem := flag }, []) =
        ⟨flag, core₁.wanted job, core.jobPreviousRates.read job, about job core.history⟩ := by
      intro job
      rw [jobView, ratesFromDemands_read, ratesFromDemands_frame]
      simp only [hcore₁, wanted]
    obtain ⟨hpassed, hother⟩ := Lists.foldlM_pointwise
      (R := fun app before after => Outcome core₁.activeOp app before.rate
        (|before.rate - before.previousRate| < iopsThreshold) before after)
      Sigma.fst jobView (fun _ _ _ => enforceStatic_outcome) core.jobLocationTracker.keys_nodup hfold
    refine .inr ⟨fun app happ => ?_, fun job hj => ?_⟩
    · have houtcome := hpassed app happ
      rw [hview] at houtcome
      exact houtcome.passed rfl rfl
    · have hsame := hother job hj
      rw [hview] at hsame
      exact ⟨congrArg JobView.previousRate hsame, congrArg JobView.events hsame⟩

theorem computeAndEnforceDynamicVanillaRules_passed {updated : List String}
    (h : computeAndEnforceDynamicVanillaRules core = .ok (core', updated)) :
    (∀ app ∈ core.jobLocationTracker.entries,
      Passed core.withRule.2.activeOp app (core.withRule.2.vanillaRate app.1)
        (core.changeInSystem = false ∧
          |core.withRule.2.vanillaRate app.1 - core.jobPreviousRates.read app.1| < iopsThreshold) core core') ∧
      ∀ job ∉ core.jobs, core'.jobPreviousRates.read job = core.jobPreviousRates.read job ∧
        about job core'.history = about job core.history := by
  obtain ⟨operation, core₁, h₁, hcases⟩ := computeAndEnforceDynamicVanillaRules_cases h
  obtain ⟨⟨_, _, _, _, _, hcore₁, _⟩, _, hflag₁⟩ := updateJobDemands_prepared h₁
  have hhistory₁ : core₁.history = core.history := by rw [hcore₁]
  have hprevious₁ : core₁.jobPreviousRates = core.jobPreviousRates := by rw [hcore₁]
  rw [withRule_eq h₁]
  dsimp only
  rcases hcases with ⟨hnil, rfl, _⟩ | ⟨_, core₂, left, hshares, hframe, hfold⟩
  · refine ⟨fun app happ => ?_, fun job _ =>
      ⟨congrArg (·.read job) hprevious₁, congrArg (about job) hhistory₁⟩⟩
    have hmem : app.1 ∈ core.jobs := List.mem_map_of_mem happ
    rw [hnil] at hmem
    cases hmem
  · unfold vanillaRate
    dsimp only
    rw [hshares]
    have hhistory : core₂.history = core.history := by rw [hframe, hhistory₁]
    have hprevious : core₂.jobPreviousRates = core.jobPreviousRates := by rw [hframe, hprevious₁]
    have hflag : core₂.changeInSystem = core.changeInSystem := by rw [hframe, hflag₁]
    obtain ⟨hpassed, hother⟩ := Lists.foldlM_pointwise
      (R := fun app before after => Outcome core₁.activeOp app (before.rate + left.tdiv core₁.jobs.length)
        (before.changeInSystem = false ∧
          |before.rate + left.tdiv core₁.jobs.length - before.previousRate| < iopsThreshold) before after)
      Sigma.fst jobView (fun _ _ _ => enforceVanilla_outcome) core.jobLocationTracker.keys_nodup hfold
    refine ⟨fun app happ => ?_, fun job hj => ?_⟩
    · have hpassed := (hpassed app happ).passed (congrArg (·.read app.1) hprevious)
        (congrArg (about app.1) hhistory)
      simpa only [jobView, hprevious, hflag] using hpassed
    · have hsame := hother job hj
      exact ⟨(congrArg JobView.previousRate hsame).trans (congrArg (·.read job) hprevious),
        (congrArg JobView.events hsame).trans (congrArg (about job) hhistory)⟩

end Cheferd.CoreControlApplication
