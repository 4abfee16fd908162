import Cheferd.LocalFeedbackLoop
import Cheferd.LoopSteps
import Mathlib.Logic.Function.Basic

namespace Cheferd

open Library

/-- A remote call as the local controller got it; the source keeps no such record. -/
structure Call where
  address : String
  rule : String
  outside : Surroundings
  app : LocalControlApplication

structure ControlPlane where
  core : FeedbackLoop.Process
  locals : String → LocalFeedbackLoop.LocalProcess
  calls : List Call

namespace ControlPlane

inductive Action
  | core (action : FeedbackLoop.Action)
  | serve (address : String) (outside : Surroundings)
  | stage (address : String) (action : LocalFeedbackLoop.Action)

def localAction (address : String) : LocalFeedbackLoop.Action → LocalFeedbackLoop.Action
  | .handshake info => .handshake { info with localAddress := address }
  | action => action

def announces (process : LocalFeedbackLoop.LocalProcess) : LocalFeedbackLoop.Action → Option StageInfo
  | .connect =>
    match process.point with
    | .connecting info _ _ => some info
    | _ => none
  | _ => none

def nextRule (p : FeedbackLoop.Process) (address : String) : Option String :=
  (p.core.localSessions.lookup address).bind fun session => session.submissionQueue.head?

def setLocal (address : String) (process : LocalFeedbackLoop.LocalProcess) (s : ControlPlane) : ControlPlane :=
  { s with locals := Function.update s.locals address process }

def serve (address : String) (outside : Surroundings) (s : ControlPlane) : Option ControlPlane :=
  match nextRule s.core address with
  | none => none
  | some rule =>
    match LocalInterface.call outside rule (s.locals address).app with
    | .error _ => none
    | .ok (app, reply) => (s.core.step (.serve address reply)).map fun core =>
      { s.setLocal address { s.locals address with app := app } with
        core := core
        calls := ⟨address, rule, outside, (s.locals address).app⟩ :: s.calls }

def step (s : ControlPlane) : Action → Option ControlPlane
  | .core (.serve _ _) | .core (.enqueueStage _) => none
  | .core action => (s.core.step action).map fun core => { s with core := core }
  | .serve address outside => s.serve address outside
  | .stage address action =>
    match (s.locals address).step (localAction address action) with
    | none => none
    | some process =>
      match announces (s.locals address) action with
      | none => some (s.setLocal address process)
      | some info => (s.core.step (.enqueueStage info)).map fun core =>
        { s.setLocal address process with core := core }

def machine : Machine ControlPlane Action where
  start s := FeedbackLoop.machine.start s.core ∧
    (∃ rules : String → List String, s.locals = fun address => .start (rules address)) ∧ s.calls = []
  step := step

variable {s t : ControlPlane}

inductive Step (s : ControlPlane) : Action → ControlPlane → Prop
  | core (action : FeedbackLoop.Action) (core : FeedbackLoop.Process)
      (hserve : ∀ address reply, action ≠ .serve address reply) (hstage : ∀ info, action ≠ .enqueueStage info)
      (h : s.core.step action = some core) : Step s (.core action) { s with core := core }
  | served (address rule : String) (rest : List String) (outside : Surroundings) (app : LocalControlApplication)
      (reply : Reply) (session : LocalControllerSession)
      (hsession : s.core.core.localSessions.lookup address = some session)
      (hqueue : session.submissionQueue = rule :: rest)
      (hcall : LocalInterface.call outside rule (s.locals address).app = .ok (app, reply)) :
      Step s (.serve address outside)
        { s.setLocal address { s.locals address with app := app } with
          core := { s.core with
            core := { s.core.core with
              localSessions := s.core.core.localSessions.insert address
                ⟨rest, session.completionQueue ++
                  (LocalControllerSession.sendRule rule reply).toList.map fun response => (rule, response)⟩ } }
          calls := ⟨address, rule, outside, (s.locals address).app⟩ :: s.calls }
  | stage (address : String) (action : LocalFeedbackLoop.Action) (process : LocalFeedbackLoop.LocalProcess)
      (h : (s.locals address).step (localAction address action) = some process)
      (hquiet : ∀ info acknowledged ready, (s.locals address).point = .connecting info acknowledged ready →
        action ≠ .connect) : Step s (.stage address action) (s.setLocal address process)
  | announced (address : String) (info : StageInfo) (acknowledged : List String) (ready : ℤ)
      (hpoint : (s.locals address).point = .connecting info acknowledged ready) :
      Step s (.stage address .connect)
        { s.setLocal address
            ⟨(s.locals address).app, .idle, ⟨info, acknowledged, ready⟩ :: (s.locals address).announced⟩ with
          core := { s.core with
            core := { s.core.core with localToDataQueue := s.core.core.localToDataQueue ++ [info] }
            enteringStages := s.core.enteringStages + 1 } }

theorem serve_cases {address : String} {outside : Surroundings} (h : s.serve address outside = some t) :
    Step s (.serve address outside) t := by
  unfold serve at h
  split at h
  · cases h
  case h_2 rule hrule =>
    obtain ⟨session, hsession, hhead⟩ := Option.bind_eq_some_iff.mp hrule
    obtain ⟨rest, hqueue⟩ := List.head?_eq_some_iff.mp hhead
    split at h
    · cases h
    case h_2 app reply hcall =>
      have hserve : session.serve reply = some ⟨rest, session.completionQueue ++
          (LocalControllerSession.sendRule rule reply).toList.map fun response => (rule, response)⟩ := by
        simp only [LocalControllerSession.serve, hqueue]
      simp only [FeedbackLoop.Process.step, hsession, hserve, Option.map_some, Option.some.injEq] at h
      rw [← h]
      exact .served address rule rest outside app reply session hsession hqueue hcall

theorem step_cases {action : Action} (h : s.step action = some t) : Step s action t := by
  cases action with
  | core action =>
    have hcore : ∀ action, (s.core.step action).map (fun core => { s with core := core }) = some t →
        (∀ address reply, action ≠ .serve address reply) → (∀ info, action ≠ .enqueueStage info) →
        Step s (.core action) t := by
      intro action h hserve hstage
      obtain ⟨core, hstep, rfl⟩ := Option.map_eq_some_iff.mp h
      exact .core action core hserve hstage hstep
    cases action with
    | serve address reply => cases h
    | enqueueStage info => cases h
    | _ => exact hcore _ h (by simp) (by simp)
  | serve address outside => exact serve_cases h
  | stage address action =>
    simp only [step] at h
    split at h
    · cases h
    case h_2 process hprocess =>
      split at h
      case h_1 hquiet =>
        cases h
        refine .stage address action process hprocess ?_
        rintro info acknowledged ready hpoint rfl
        simp [announces, hpoint] at hquiet
      case h_2 info hinfo =>
        unfold announces at hinfo
        split at hinfo
        · split at hinfo
          case h_1 acknowledged ready hpoint =>
            cases hinfo
            simp only [localAction, LocalFeedbackLoop.LocalProcess.step, hpoint, Option.some.injEq] at hprocess
            cases h
            rw [← hprocess]
            exact .announced address _ acknowledged ready hpoint
          · cases hinfo
        · cases hinfo

theorem Step.core_step {action : Action} (h : Step s action t) :
    t.core = s.core ∨ ∃ coreAction, s.core.step coreAction = some t.core := by
  cases h with
  | core action core hserve hstage h => exact .inr ⟨action, h⟩
  | served address rule rest outside app reply session hsession hqueue hcall =>
    refine .inr ⟨.serve address reply, ?_⟩
    simp only [FeedbackLoop.Process.step, hsession, LocalControllerSession.serve, hqueue, Option.map_some]
  | stage address action process h hquiet => exact .inl rfl
  | announced address info acknowledged ready hpoint => exact .inr ⟨.enqueueStage info, rfl⟩

theorem core_reach {allowed : ControlPlane → Action → Prop} (h : machine.Reach allowed s) :
    FeedbackLoop.machine.Reach (fun _ _ => True) s.core := by
  induction h with
  | start h => exact .start h.1
  | step _ _ hstep ih =>
    rcases (step_cases hstep).core_step with he | ⟨coreAction, he⟩
    · rw [he]
      exact ih
    · exact ih.step trivial he

def run (controlType : ControlType) (systemLimit : ℤ) (allowed : ControlPlane → Action → Prop)
    [∀ s a, Decidable (allowed s a)] (actions : List Action) : Option ControlPlane :=
  let rules := ["4|1|create_channel|1000|posix|1000|data|no_op|"]
  match (CoreControlApplication.new controlType rules systemLimit .id).initializeOps with
  | .ok core => machine.exec allowed ⟨.start core, fun _ => .start [], []⟩ actions
  | .error _ => none

theorem reach_of_run_mono (controlType : ControlType) (systemLimit : ℤ)
    {allowed allowed' : ControlPlane → Action → Prop}
    [∀ s a, Decidable (allowed s a)] (actions : List Action) {P : ControlPlane → Prop} [DecidablePred P]
    (himp : ∀ action ∈ actions, ∀ s, allowed s action → allowed' s action)
    (h : (run controlType systemLimit allowed actions).any (fun s => decide (P s)) = true) :
    ∃ s, machine.Reach allowed' s ∧ P s := by
  unfold run at h
  dsimp only at h
  split at h
  case h_1 core hops =>
    cases he : machine.exec allowed ⟨.start core, fun _ => .start [], []⟩ actions with
    | none => simp [he] at h
    | some s =>
      rw [he, Option.any_some, decide_eq_true_iff] at h
      have hstart : machine.start ⟨.start core, fun _ => .start [], []⟩ :=
        ⟨⟨_, _, _, _, core, hops, rfl⟩, ⟨fun _ => [], rfl⟩, rfl⟩
      exact ⟨s, (Machine.Reach.start hstart).exec_mono himp he, h⟩
  case h_2 => cases h

theorem reach_of_run (controlType : ControlType) (systemLimit : ℤ) {allowed : ControlPlane → Action → Prop}
    [∀ s a, Decidable (allowed s a)] (actions : List Action) {P : ControlPlane → Prop} [DecidablePred P]
    (h : (run controlType systemLimit allowed actions).any (fun s => decide (P s)) = true) :
    ∃ s, machine.Reach allowed s ∧ P s :=
  reach_of_run_mono controlType systemLimit actions (fun _ _ _ ha => ha) h

end ControlPlane

end Cheferd
