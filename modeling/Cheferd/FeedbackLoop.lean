import Cheferd.ComputeRules
import Cheferd.Library.Runs

namespace Cheferd.FeedbackLoop

open Library CoreControlApplication

/-- Where `execute_feedback_loop` stands; a point that waits for a result has its own constructor. -/
inductive Point
  | waiting
  | condition
  | locals
  | localHandshake (address : String)
  | stages
  | markReady (info : StageInfo)
  | control
  | collect (todo : List String) (collection : Collection)
  | compute (dStats : Assoc String Rates)
  | enforce (todo : List (String × String))
  | finish
  | exited
  | crashed (fault : Fault)
deriving DecidableEq

def Point.erased : Point → List String
  | .collect [] collection => collection.sessionsToDelete
  | _ => []

def Point.asked : Point → Option String
  | .collect (address :: _) _ => some address
  | _ => none

def Point.computing : Point → Bool
  | .compute _ => true
  | _ => false

def Point.enforcing : Point → Bool
  | .enforce _ => true
  | _ => false

structure Process where
  core : CoreControlApplication
  point : Point
  roundsCounter : ℕ
  sessionsSent : List String
  /-- Calls of the registration service between their push and their `fetch_add`. -/
  enteringLocals : List String
  enteringStages : ℕ
  /-- The local controllers whose `ConnectLocalToGlobal` call has returned. -/
  connected : List String

inductive Action
  | enqueueLocal (address : String)
  | countLocal (address : String)
  | enqueueStage (info : StageInfo)
  | countStage
  | enqueueRule (rule : String)
  | serve (address : String) (reply : Reply)
  | rehash (hash : HashOrder)
  | loop

namespace Process

def proceed (p : Process) (x : Except Fault CoreControlApplication) (point : Point) : Process :=
  match x with
  | .ok core => { p with core := core, point := point }
  | .error fault => { p with point := .crashed fault }

def await (p : Process) (missing : Fault) (address : String)
    (next : CoreControlApplication → StageResponse → Process) : Option Process :=
  match p.core.localSessions.lookup address with
  | none => some { p with point := .crashed missing }
  | some session =>
    match session.getResult with
    | none => none
    | some ((_, response), session) =>
      some (next { p.core with localSessions := p.core.localSessions.insert address session } response)

def Erasing (p : Process) : Prop := ∃ address ∈ p.point.erased, address ∈ p.core.localSessions

instance (p : Process) : Decidable p.Erasing := inferInstanceAs (Decidable (∃ _ ∈ _, _))

def collects (p : Process) (address : String) : Bool :=
  p.core.stagesOf address ≠ [] ∧
    (p.core.controlType = .dynamicLeftover → address ∈ p.sessionsSent)

def requestStatistics (subtype : ℤ) : List String → CoreControlApplication → CoreControlApplication
  | [], core => core
  | address :: rest, core =>
    if core.stagesOf address = [] then requestStatistics subtype rest core
    else
      requestStatistics subtype rest
        { core with
          localSessions := match core.localSessions.lookup address with
            | none => core.localSessions
            | some session =>
              core.localSessions.insert address (session.submitRule (collectStatisticsRule subtype)) }

def sessionOrder (core : CoreControlApplication) : List String :=
  core.hash.order "local_sessions_" core.localSessions.keys

def control (p : Process) : Process :=
  let order := sessionOrder p.core
  match p.core.controlType with
  | .static | .dynamicVanilla =>
    { p with core := requestStatistics 5 order p.core, point := .collect order .empty }
  | .dynamicLeftover =>
    let p := if p.roundsCounter = 0 then
        { p with
          core := requestStatistics 6 order p.core
          sessionsSent := order.filter (p.core.stagesOf · ≠ []) }
      else p
    if p.roundsCounter + 1 = collectRounds then
      { p with roundsCounter := collectRounds, point := .collect order .empty }
    else { p with roundsCounter := p.roundsCounter + 1, point := .finish }
  | .mds | .noop => { p with point := .finish }

def collected (p : Process) (collection : Collection) : Option Process :=
  (eraseSessions collection.sessionsToDelete p.core).map fun core =>
    { p with
      core := core
      -- only the static policy is skipped when no controller is left
      point :=
        if core.controlType = .static ∧ core.activeLocalControllerSessions ≤ 0 then .finish
        else .compute collection.collectedStats }

def collect (p : Process) : List String → Collection → Option Process
  | [], collection => p.collected collection
  | address :: rest, collection =>
    if p.collects address then
      p.await .nullPointer address fun core response =>
        match collectStatisticsResult address response collection core with
        | .ok (core, collection) => { p with core := core, point := .collect rest collection }
        | .error fault => { p with core := core, point := .crashed fault }
    else some { p with point := .collect rest collection }

def compute (p : Process) (dStats : Assoc String Rates) : Process :=
  match computeAndEnforce dStats p.sessionsSent p.core with
  | .ok (core, updated) =>
    { p with
      core := { core with history := .computed :: core.history }
      point := .enforce (waitList core updated)
      roundsCounter := 0 }
  | .error fault => { p with point := .crashed fault }

def loop (p : Process) : Option Process :=
  match p.point with
  | .waiting =>
    if p.core.pendingLocalControllerSessions = 0 then none else some { p with point := .condition }
  | .condition =>
    if p.core.pendingLocalControllerSessions + p.core.activeLocalControllerSessions +
        p.core.pendingDataPlaneSessions > 0 then some { p with point := .locals }
    else some { p with point := .exited }
  | .locals =>
    if p.core.pendingLocalControllerSessions > 0 then
      match p.core.localQueue with
      | [] => none
      | address :: rest =>
        some (p.proceed (handleLocalControllerSessions address rest p.core) (.localHandshake address))
    else some { p with point := .stages }
  | .localHandshake address =>
    p.await .nullPointer address fun core _ =>
      { p with
        core := { core with activeLocalControllerSessions := core.activeLocalControllerSessions + 1 }
        point := .locals }
  | .stages =>
    if p.core.pendingDataPlaneSessions > 0 then
      match p.core.localToDataQueue with
      | [] => none
      | info :: rest =>
        some (p.proceed (handleDataPlaneSessions info rest p.core) (.markReady info))
    else some { p with point := .control }
  | .markReady info =>
    p.await (.outOfRange .localSessions) info.localAddress fun core response =>
      { p with core := stageMarked info response core, point := .stages }
  | .control => some p.control
  | .collect todo collection => p.collect todo collection
  | .compute dStats => some (p.compute dStats)
  | .enforce [] => some { p with point := .finish }
  | .enforce ((_, address) :: rest) =>
    p.await .nullPointer address fun core _ => { p with core := core, point := .enforce rest }
  | .finish => some { p with core := { p.core with changeInSystem := false }, point := .condition }
  | .exited | .crashed _ => none

def step (p : Process) : Action → Option Process
  | .enqueueLocal address =>
    some { p with
      core := { p.core with localQueue := p.core.localQueue ++ [address] }
      enteringLocals := p.enteringLocals ++ [address] }
  | .countLocal address =>
    if address ∈ p.enteringLocals then
      some { p with
        core := { p.core with
          pendingLocalControllerSessions := p.core.pendingLocalControllerSessions + 1 }
        enteringLocals := p.enteringLocals.erase address
        connected := address :: p.connected }
    else none
  | .enqueueStage info =>
    some { p with
      core := { p.core with localToDataQueue := p.core.localToDataQueue ++ [info] }
      enteringStages := p.enteringStages + 1 }
  | .countStage =>
    if 0 < p.enteringStages then
      some { p with
        core := { p.core with pendingDataPlaneSessions := p.core.pendingDataPlaneSessions + 1 }
        enteringStages := p.enteringStages - 1 }
    else none
  | .enqueueRule rule =>
    some { p with core := { p.core with pendingRulesQueue := p.core.pendingRulesQueue ++ [rule] } }
  | .serve address reply =>
    match p.core.localSessions.lookup address with
    | none => none
    | some session => (session.serve reply).map fun session =>
      { p with core := { p.core with localSessions := p.core.localSessions.insert address session } }
  | .rehash order => some { p with core := { p.core with hash := order } }
  | .loop => p.loop

def start (core : CoreControlApplication) : Process where
  core := core
  point := .waiting
  roundsCounter := 0
  sessionsSent := []
  enteringLocals := []
  enteringStages := 0
  connected := []

end Process

/-- `execute_feedback_loop` beside the threads that register, answer and submit rules. -/
def machine : Machine Process Action where
  start p := ∃ controlType rules systemLimit hash core,
    (CoreControlApplication.new controlType rules systemLimit hash).initializeOps = .ok core ∧
      p = Process.start core
  step := Process.step

def run (controlType : ControlType) (systemLimit : ℤ) (allowed : Process → Action → Prop)
    [∀ p a, Decidable (allowed p a)] (actions : List Action) : Option Process :=
  let rules := ["4|1|create_channel|1000|posix|1000|data|no_op|"]
  match (CoreControlApplication.new controlType rules systemLimit .id).initializeOps with
  | .ok core => machine.exec allowed (Process.start core) actions
  | .error _ => none

theorem reach_of_run (controlType : ControlType) (systemLimit : ℤ) {allowed : Process → Action → Prop}
    [∀ p a, Decidable (allowed p a)] (actions : List Action) {P : Process → Prop} [DecidablePred P]
    (h : (run controlType systemLimit allowed actions).any (fun p => decide (P p)) = true) :
    ∃ p, machine.Reach allowed p ∧ P p := by
  unfold run at h
  dsimp only at h
  split at h
  case h_1 core hops =>
    cases he : machine.exec allowed (Process.start core) actions with
    | none => simp [he] at h
    | some p =>
      rw [he, Option.any_some, decide_eq_true_iff] at h
      have hstart : machine.start (Process.start core) := ⟨_, _, _, _, core, hops, rfl⟩
      exact ⟨p, (Machine.Reach.start hstart).exec he, h⟩
  case h_2 => cases h

end Cheferd.FeedbackLoop
