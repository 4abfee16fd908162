import Cheferd.RegistryModel

namespace Cheferd.FeedbackLoop

open Library CoreControlApplication

variable {p q : Process} {allowed : Process → Action → Prop}

theorem Step.mem_localSessions {action : Action} (h : Step p action q) (address : String)
    (ha : address ∈ p.core.localSessions) : address ∈ q.core.localSessions := by
  cases h with
  | served a reply session session' hsession hserve => exact (mem_insert_of_lookup hsession _ _).mpr ha
  | loop h =>
    cases h.coreStep with
    | still h => exact (h.localSessions address).mpr ha
    | localTaken a rest session hpoint hqueue h =>
      exact (h.localSessions address).mpr ((AList.mem_insert _).mpr (.inr ha))
    | stageTaken info rest hpoint hqueue hsession h => exact (h.localSessions address).mpr ha
    | collected a response rest collection collection' core hpoint hcore h =>
      obtain ⟨_, _, _, hpurged, _⟩ := collectStatisticsResult_ok h
      rw [hpurged.localSessions]
      exact (hcore.localSessions address).mpr ha
  | _ => exact ha

structure Hosted (p : Process) : Prop where
  hosts : ∀ address, p.core.stagesOf address ≠ [] → address ∈ p.core.localSessions
  shaking : ∀ address, p.point = .localHandshake address → address ∈ p.core.localSessions
  marking : ∀ info, p.point = .markReady info → info.localAddress ∈ p.core.localSessions

theorem Step.stagesOf {action : Action} (h : Step p action q) (address : String)
    (ha : q.core.stagesOf address ≠ []) :
    p.core.stagesOf address ≠ [] ∨ address ∈ q.core.localSessions := by
  cases h with
  | loop h =>
    cases h.coreStep with
    | still h => exact .inl (h.stagesOf address ▸ ha)
    | localTaken a rest session hpoint hqueue h => exact .inl (h.stagesOf address ▸ ha)
    | stageTaken info rest hpoint hqueue hsession h =>
      by_cases he : address = info.localAddress
      · right
        rw [h.localSessions, he]
        exact hsession
      · left
        have hstages : (registerStage info p.core).stagesOf address = p.core.stagesOf address := by
          rw [registerStage_stagesOf, if_neg he]
        exact hstages ▸ h.stagesOf address ▸ ha
    | collected a response rest collection collection' core hpoint hcore h =>
      obtain ⟨_, _, _, _, hstages, _⟩ := collectStatisticsResult_ok h
      left
      intro hs
      rw [← hcore.stagesOf] at hs
      apply ha
      rw [hstages, hs]
      split <;> rfl
  | _ => exact .inl ha

theorem Hosted.step {action : Action} (h : Step p action q) (hp : Hosted p) : Hosted q := by
  have hkeep := h.mem_localSessions
  have hhosts : ∀ a, q.core.stagesOf a ≠ [] → a ∈ q.core.localSessions := fun a ha =>
    (h.stagesOf a ha).elim (fun ha => hkeep a (hp.hosts a ha)) id
  cases h with
  | loop h =>
    refine ⟨hhosts, fun address hq => ?_, fun info hq => ?_⟩
    · cases h with
      | goes point h => cases h <;> cases hq
      | localTaken a rest session hpoint hpending hqueue hsession =>
        cases hq
        exact (AList.mem_insert _).mpr (.inl rfl)
      | control hpoint h => rcases h.point with he | he <;> rw [he] at hq <;> cases hq
      | collectDone collection active point hpoint hgone hactive hnext =>
        rcases hnext with ⟨rfl, _⟩ | rfl <;> cases hq
      | _ => cases hq
    · cases h with
      | goes point h => cases h <;> cases hq
      | stageTaken info rest session hpoint hpending hqueue hsession =>
        cases hq
        exact (AList.mem_insert _).mpr (.inl rfl)
      | control hpoint h => rcases h.point with he | he <;> rw [he] at hq <;> cases hq
      | collectDone collection active point hpoint hgone hactive hnext =>
        rcases hnext with ⟨rfl, _⟩ | rfl <;> cases hq
      | _ => cases hq
  | _ => exact ⟨hhosts, fun a ha => hkeep a (hp.shaking a ha), fun info hi => hkeep _ (hp.marking info hi)⟩

theorem hosted_reach (h : machine.Reach allowed p) : Hosted p := by
  refine h.invariant ?_ fun p q action hp _ hstep => hp.step (step_cases hstep)
  rintro _ ⟨controlType, rules, systemLimit, hash, core, hops, rfl⟩
  obtain ⟨ops, op, rfl⟩ := initializeOps_ok hops
  exact ⟨fun a ha => absurd rfl ha, nofun, nofun⟩

def Queued (p : Process) : Prop :=
  ∀ info ∈ p.core.localToDataQueue,
    info.localAddress ∈ p.core.localSessions ∨ info.localAddress ∈ p.core.localQueue

/-- No stage is announced by a controller that has not connected, and none is taken before the registration
of its controller. -/
def Settled (p : Process) : Action → Prop
  | .enqueueStage info =>
    info.localAddress ∈ p.core.localSessions ∨ info.localAddress ∈ p.core.localQueue
  | .loop => p.point = .stages → p.core.pendingDataPlaneSessions > 0 →
    ∀ info ∈ p.core.localToDataQueue.head?, info.localAddress ∉ p.core.localQueue
  | _ => True

instance : ∀ p action, Decidable (Settled p action)
  | _, .enqueueStage _ => inferInstanceAs (Decidable (_ ∨ _))
  | _, .loop => inferInstanceAs (Decidable (_ → _))
  | _, .enqueueLocal _ | _, .countLocal _ | _, .countStage | _, .enqueueRule _ | _, .serve _ _
  | _, .rehash _ => inferInstanceAs (Decidable True)

theorem Queued.step {action : Action} (h : Step p action q) (hs : Settled p action) (hp : Queued p) :
    Queued q := by
  have hkeep := h.mem_localSessions
  have hsame : q.core.localToDataQueue = p.core.localToDataQueue → q.core.localQueue = p.core.localQueue →
      Queued q := by
    rintro hdata hlocal info hi
    rw [hdata] at hi
    rw [hlocal]
    exact (hp info hi).imp_left (hkeep _)
  cases h with
  | enqueueLocal address =>
    intro info hi
    exact (hp info hi).imp_right (List.mem_append_left _)
  | enqueueStage info =>
    intro other ho
    rcases List.mem_append.mp ho with ho | ho
    · exact hp other ho
    · rw [List.mem_singleton.mp ho]
      exact hs
  | loop h =>
    cases h.coreStep with
    | still h => exact hsame h.localToDataQueue h.localQueue
    | localTaken address rest session hpoint hqueue h =>
      intro info hi
      rw [h.localToDataQueue] at hi
      rw [h.localQueue, h.localSessions, AList.mem_insert]
      rcases hp info hi with hs | hq
      · exact .inl (.inr hs)
      · rw [hqueue] at hq
        rcases List.mem_cons.mp hq with ha | hr
        · exact .inl (.inl ha)
        · exact .inr hr
    | stageTaken info rest hpoint hqueue hsession h =>
      intro other ho
      rw [h.localToDataQueue] at ho
      rw [h.localQueue, h.localSessions]
      exact hp other (by rw [hqueue]; exact List.mem_cons_of_mem _ ho)
    | collected address response rest collection collection' core hpoint hcore h =>
      have hf := (collectStatisticsResult_forgets h).frame
      apply hsame
      · exact (congrArg (·.localToDataQueue) hf).trans hcore.localToDataQueue
      · exact (congrArg (·.localQueue) hf).trans hcore.localQueue
  | _ => exact hsame rfl rfl

theorem queued_reach (h : machine.Reach Settled p) : Queued p := by
  refine h.invariant ?_ fun p q action hp hs hstep => hp.step (step_cases hstep) hs
  rintro _ ⟨controlType, rules, systemLimit, hash, core, hops, rfl⟩
  obtain ⟨ops, op, rfl⟩ := initializeOps_ok hops
  intro info hi
  cases hi

theorem LoopStep.session_found (h : LoopStep p q) (hs : Settled p .loop) (hhosted : Hosted p)
    (hqueued : Queued p) : q.point ≠ .crashed (.outOfRange .localSessions) := by
  intro hq
  cases h with
  | goes point h =>
    cases h with
    | stageUnknown info rest hpoint hpending hqueue h =>
      have hwaits := hs hpoint hpending info (by rw [hqueue]; rfl)
      have hfound := (hqueued info (by rw [hqueue]; exact List.mem_cons_self)).resolve_right hwaits
      exact AList.lookup_eq_none.mp h hfound
    | markLost info hpoint h => exact AList.lookup_eq_none.mp h (hhosted.marking info hpoint)
    | computeFault dStats fault hpoint h =>
      cases hq
      cases (computeAndEnforce_outOfRange h).1
    | _ => cases hq
  | control hpoint h => rcases h.point with h | h <;> simp [h] at hq
  | collectDone collection active point hpoint hgone hactive hnext =>
    rcases hnext with ⟨rfl, _⟩ | rfl <;> cases hq
  | collectFault address rule rest collection response core fault hpoint hcollects htakes h =>
    cases hq
    exact collectStatisticsResult_error h rfl
  | _ => cases hq

theorem queued_stage_has_session (h : machine.Reach Settled p) :
    p.point ≠ .crashed (.outOfRange .localSessions) ∧
      (∀ info rest, p.point = .stages → p.core.localToDataQueue = info :: rest →
        info.localAddress ∉ p.core.localQueue → info.localAddress ∈ p.core.localSessions) ∧
      ∀ info, p.point = .markReady info → info.localAddress ∈ p.core.localSessions := by
  refine ⟨?_, fun info rest _ hqueue hn => ?_, (hosted_reach h).marking⟩
  · induction h with
    | start h =>
      obtain ⟨_, _, _, _, core, _, rfl⟩ := h
      simp [Process.start]
    | step hreach hs hstep ih =>
      cases step_cases hstep with
      | loop h => exact h.session_found hs (hosted_reach hreach) (queued_reach hreach)
      | _ => exact ih
  · exact (queued_reach h info (by rw [hqueue]; exact List.mem_cons_self)).resolve_right hn

def Announced (p : Process) : Action → Prop
  | .enqueueStage info => info.localAddress ∈ p.connected
  | _ => True

instance : ∀ p action, Decidable (Announced p action)
  | _, .enqueueStage _ => inferInstanceAs (Decidable (_ ∈ _))
  | _, .loop | _, .enqueueLocal _ | _, .countLocal _ | _, .countStage | _, .enqueueRule _ | _, .serve _ _
  | _, .rehash _ => inferInstanceAs (Decidable True)

def firstController : List Action :=
  [.enqueueLocal "A", .countLocal "A", .loop, .loop, .loop, .serve "A" ⟨1, ∅⟩, .loop]

theorem queued_stage_has_session_first :
    ∃ p, machine.Reach Settled p ∧ p.point = .markReady ⟨"j", 1, "u", "A"⟩ ∧ "A" ∈ p.core.localSessions := by
  obtain ⟨p, hp, hpoint⟩ : ∃ p, machine.Reach Settled p ∧ p.point = .markReady ⟨"j", 1, "u", "A"⟩ :=
    reach_of_run .static 100
      (firstController ++ [.loop, .enqueueStage ⟨"j", 1, "u", "A"⟩, .countStage, .loop]) (by decide)
  exact ⟨p, hp, hpoint, (queued_stage_has_session hp).2.2 _ hpoint⟩

theorem announced_stage_without_session :
    ∃ p, machine.Reach Announced p ∧ p.point = .crashed (.outOfRange .localSessions) :=
  reach_of_run .static 100
    (firstController ++ [.loop, .enqueueLocal "B", .countLocal "B", .enqueueStage ⟨"j", 2, "u", "B"⟩,
      .countStage, .loop]) (by decide)

end Cheferd.FeedbackLoop
