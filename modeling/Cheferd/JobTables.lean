import Cheferd.RegistryModel

namespace Cheferd

open Library

namespace CoreControlApplication

variable {core core' core'' : CoreControlApplication}

structure SameTables (core core' : CoreControlApplication) : Prop where
  jobLocationTracker : core'.jobLocationTracker = core.jobLocationTracker
  jobDemands : core'.jobDemands = core.jobDemands
  jobRates : core'.jobRates = core.jobRates
  jobPreviousRates : core'.jobPreviousRates = core.jobPreviousRates
  changeInSystem : core'.changeInSystem = core.changeInSystem
  history : core'.history = core.history

theorem SameTables.refl (core : CoreControlApplication) : SameTables core core := ⟨rfl, rfl, rfl, rfl, rfl, rfl⟩

structure SameReads (core core' : CoreControlApplication) : Prop where
  jobLocationTracker : core'.jobLocationTracker = core.jobLocationTracker
  jobDemands : ∀ job, core'.jobDemands.read job = core.jobDemands.read job
  jobRates : ∀ job, core'.jobRates.read job = core.jobRates.read job
  jobPreviousRates : ∀ job, core'.jobPreviousRates.read job = core.jobPreviousRates.read job
  changeInSystem : core'.changeInSystem = core.changeInSystem
  history : core'.history = core.history

theorem SameTables.reads (h : SameTables core core') : SameReads core core' := by
  constructor
  · exact h.jobLocationTracker
  · intro job
    rw [h.jobDemands]
  · intro job
    rw [h.jobRates]
  · intro job
    rw [h.jobPreviousRates]
  · exact h.changeInSystem
  · exact h.history

theorem Forgets.reads (hcore : SameTables core core') (h : Forgets core' core'')
    (hhistory : core''.history = core'.history) : SameReads core core'' := by
  have hstill := h.still hhistory
  have hkept := fun job => h.kept job fun hj => hstill ▸ hj
  obtain ⟨infos, hinfos, hflag, _⟩ := h.events
  have hnil : infos = [] := List.map_eq_nil_iff.mp (List.append_left_eq_self.mp (hinfos.symm.trans hhistory))
  constructor
  · exact hstill.trans hcore.jobLocationTracker
  · intro job
    rw [Assoc.read, (hkept job).1, hcore.jobDemands, Assoc.read]
  · intro job
    rw [Assoc.read, (hkept job).2.1, hcore.jobRates, Assoc.read]
  · intro job
    rw [Assoc.read, (hkept job).2.2, hcore.jobPreviousRates, Assoc.read]
  · rw [hflag, hnil, hcore.changeInSystem, List.isEmpty_nil, Bool.not_true, Bool.or_false]
  · exact hhistory.trans hcore.history

structure Registers (info : StageInfo) (core core' : CoreControlApplication) : Prop where
  jobLocationTracker : core'.jobLocationTracker = trackStage info core.jobLocationTracker
  changeInSystem : core'.changeInSystem = true
  history : core'.history = .registered info :: core.history
  kept : ∀ job, job ∈ core.jobLocationTracker ∨ job ≠ info.stageName →
    core'.jobDemands.lookup job = core.jobDemands.lookup job ∧
      core'.jobRates.lookup job = core.jobRates.lookup job ∧
      core'.jobPreviousRates.lookup job = core.jobPreviousRates.lookup job
  emplaced : core'.jobRates.read info.stageName ∈ [core.jobRates.read info.stageName, -1] ∧
    core'.jobPreviousRates.read info.stageName ∈ [core.jobPreviousRates.read info.stageName, 0]

theorem emplace_read (job : String) (v : ℤ) (m : Assoc String ℤ) :
    (m.emplace job v).read job ∈ [m.read job, v] := by
  simp only [Assoc.read, Assoc.lookup_emplace, if_true, Option.getD_some]
  cases m.lookup job <;> simp

theorem registerStage_registers (info : StageInfo) (core : CoreControlApplication) :
    Registers info core (registerStage info core) := by
  by_cases hm : info.stageName ∈ core.jobLocationTracker
  · have he : emplaceJob info.stageName core = core := if_pos hm
    refine ⟨rfl, rfl, rfl, fun job _ => ?_, ?_⟩
    · simp [registerStage, he]
    · simp [registerStage, he]
  · have he : emplaceJob info.stageName core = { core with
        jobDemands := core.jobDemands.emplace info.stageName (-1)
        jobPreviousRates := core.jobPreviousRates.emplace info.stageName 0
        jobRates := core.jobRates.emplace info.stageName (-1) } := if_neg hm
    refine ⟨rfl, rfl, rfl, fun job hj => ?_, ?_⟩
    · have hne : job ≠ info.stageName := by
        rcases hj with hj | hj
        · rintro rfl
          exact hm hj
        · exact hj
      simp only [registerStage, he, Assoc.lookup_emplace, if_neg hne]
      exact ⟨trivial, trivial, trivial⟩
    · simp only [registerStage, he]
      exact ⟨emplace_read _ _ _, emplace_read _ _ _⟩

section Events

variable {history history' : List Event} {job : String} {event : Event}

def newest (job : String) (history : List Event) : Option Event := history.find? (·.job = some job)

def Touched (history : List Event) (job : String) : Prop := (newest job history).any Event.sends = false

instance (history : List Event) (job : String) : Decidable (Touched history job) :=
  inferInstanceAs (Decidable (_ = _))

theorem newest_cons_self (h : event.job = some job) : newest job (event :: history) = some event :=
  List.find?_cons_of_pos (by simpa using h)

theorem newest_cons_ne (h : event.job ≠ some job) : newest job (event :: history) = newest job history :=
  List.find?_cons_of_neg (by simpa using h)

theorem newest_append (h : ∀ event ∈ history, event.job ≠ some job) :
    newest job (history ++ history') = newest job history' := by
  have hnone : history.find? (·.job = some job) = none := List.find?_eq_none.mpr (by simpa using h)
  rw [newest, List.find?_append, hnone, Option.none_or]
  rfl

theorem touched_of_newest (h : newest job history = some event) (hsends : event.sends = false) :
    Touched history job := by
  rw [Touched, h, Option.any_some, hsends]

theorem touched_or_newest (h : ∀ event ∈ history, event.sends = false) (job : String) :
    Touched (history ++ history') job ∨
      (∀ event ∈ history, event.job ≠ some job) ∧ newest job (history ++ history') = newest job history' := by
  cases hf : history.find? (·.job = some job) with
  | none =>
    have hnone : ∀ event ∈ history, event.job ≠ some job := by simpa using List.find?_eq_none.mp hf
    exact .inr ⟨hnone, newest_append hnone⟩
  | some event =>
    refine .inl (touched_of_newest ?_ (h event (List.mem_of_find?_eq_some hf)))
    rw [newest, List.find?_append, hf, Option.some_or]

end Events

end CoreControlApplication

namespace FeedbackLoop

open CoreControlApplication

variable {p q : Process}

inductive TableStep (p q : Process) (action : Action) : Prop
  | kept (h : SameTables p.core q.core) (henforcing : q.point.enforcing = true → p.point.enforcing = true)
      (hfinish : q.point = .finish → p.point = .finish ∨ p.point.enforcing = true ∨
        p.core.controlType ≠ .dynamicVanilla)
  | registered (info : StageInfo) (hpoint : q.point = .markReady info) (h : Registers info p.core q.core)
  | removed (todo : List String) (collection : Collection) (core : CoreControlApplication)
      (hpoint : q.point = .collect todo collection) (hcore : SameTables p.core core) (h : Forgets core q.core)
  | computed (dStats : Assoc String Rates) (core : CoreControlApplication) (updated : List String)
      (haction : action = .loop) (hpoint : p.point = .compute dStats)
      (h : computeAndEnforce dStats p.sessionsSent p.core = .ok (core, updated))
      (hcore : q.core = { core with history := .computed :: core.history })
      (hnext : q.point = .enforce (waitList core updated))
  | finished (hpoint : p.point = .finish) (hcore : q.core = { p.core with changeInSystem := false })
      (hnext : q.point = .condition)

theorem Takes.sameTables {address rule : String} {response : StageResponse} {core : CoreControlApplication}
    (h : Takes p address rule response core) : SameTables p.core core := by
  rw [h.tables]
  exact ⟨rfl, rfl, rfl, rfl, rfl, rfl⟩

theorem LoopStep.tableStep (h : LoopStep p q) : TableStep p q .loop := by
  cases h with
  | goes point h =>
    refine .kept (.refl _) ?_ ?_
    · cases h <;> simp [Point.enforcing]
    · cases h with
      | enforceDone hpoint => exact fun _ => .inr (.inl (by rw [hpoint]; rfl))
      | _ => simp
  | localTaken address rest session hpoint hpending hqueue hsession =>
    exact .kept ⟨rfl, rfl, rfl, rfl, rfl, rfl⟩ (by simp [Point.enforcing]) (by simp)
  | handshaken address rule response core hpoint htakes =>
    obtain ⟨h1, h2, h3, h4, h5, h6⟩ := htakes.sameTables
    exact .kept ⟨h1, h2, h3, h4, h5, h6⟩ (by simp [Point.enforcing]) (by simp)
  | stageTaken info rest session hpoint hpending hqueue hsession =>
    obtain ⟨h1, h2, h3, h4, h5⟩ := registerStage_registers info { p.core with
      localToDataQueue := rest
      pendingDataPlaneSessions := p.core.pendingDataPlaneSessions - 1 }
    exact .registered info rfl ⟨h1, h2, h3, h4, h5⟩
  | marked info rule response core hpoint htakes =>
    obtain ⟨h1, h2, h3, h4, h5, h6⟩ := htakes.sameTables
    exact .kept ⟨h1, h2, h3, h4, h5, h6⟩ (by simp [Point.enforcing]) (by simp)
  | control hpoint h =>
    obtain ⟨sessions, hcore, _⟩ := h.tables
    refine .kept ?_ ?_ ?_
    · rw [hcore]
      exact ⟨rfl, rfl, rfl, rfl, rfl, rfl⟩
    · rcases h.point with h | h <;> simp [h, Point.enforcing]
    · refine fun hfinish => .inr (.inr ?_)
      cases h with
      | requested htype => cases hfinish
      | idle htype => rcases htype with htype | htype <;> simp [htype]
      | _ => simp [*]
  | collectDone collection active point hpoint hgone hactive hnext =>
    refine .kept ⟨rfl, rfl, rfl, rfl, rfl, rfl⟩ ?_ ?_
    · rcases hnext with ⟨rfl, _⟩ | rfl <;> simp [Point.enforcing]
    · rcases hnext with ⟨_, htype⟩ | rfl
      · exact fun _ => .inr (.inr (by rw [htype]; decide))
      · simp
  | collectResult address rule rest collection collection' response core core' hpoint hcollects htakes h =>
    exact .removed rest collection' core rfl htakes.sameTables (collectStatisticsResult_forgets h)
  | collectFault address rule rest collection response core fault hpoint hcollects htakes h =>
    exact .kept htakes.sameTables (by simp [Point.enforcing]) (by simp)
  | computed dStats core updated hpoint h => exact .computed dStats core updated rfl hpoint h rfl rfl
  | enforced job address rule rest response core hpoint htakes =>
    exact .kept htakes.sameTables (fun _ => by rw [hpoint]; rfl) (by simp)
  | finished hpoint => exact .finished hpoint rfl rfl

theorem Step.tableStep {action : Action} (h : Step p action q) : TableStep p q action := by
  cases h with
  | loop h => exact h.tableStep
  | _ => exact .kept ⟨rfl, rfl, rfl, rfl, rfl, rfl⟩ (fun h => h) .inl

end FeedbackLoop

end Cheferd
