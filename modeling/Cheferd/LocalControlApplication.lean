import Cheferd.CoreControlApplication
import Cheferd.PaioInterface

namespace Cheferd

open Library Strings PaioInterface

structure EnforcementOpRules where
  ruleId : ℤ
  stageName : String
  envRates : Assoc ℤ ℤ
deriving DecidableEq

abbrev EnforcementRules := Assoc String EnforcementOpRules

structure Traversal (α : Type) where
  order : List α → List α
  perm : ∀ entries, (order entries).Perm entries

def Traversal.id {α : Type} : Traversal α := ⟨fun entries => entries, fun _ => .refl _⟩

/-- How a stage answers: the value of its acknowledgement, given all rules it has received, and its
total rates, one after another. There is no answer from a stage whose connection is lost. -/
structure Stage where
  acknowledge : List EnforcementRuleRaw → Option ℤ
  samples : ℕ → Option ℚ

structure Surroundings where
  stages : String → Stage
  opOrder : Traversal (Σ _ : String, EnforcementOpRules)
  envOrder : Traversal (Σ _ : ℤ, ℤ)
  sessionOrder : Traversal String

structure DataPlaneSession where
  received : List EnforcementRuleRaw
deriving DecidableEq

namespace DataPlaneSession

def new : DataPlaneSession := ⟨[]⟩

def createEnforcementRule (stage : Stage) (rule : String) (session : DataPlaneSession) :
    Except Fault (DataPlaneSession × ℤ) :=
  match PaioInterface.parseRule rule with
  | [] => .ok (session, 0)
  | tokens => do
    let received := session.received ++ [← fillEnforcementRule tokens]
    match stage.acknowledge received with
    | none => return (session, 0)
    | some value => return (⟨received⟩, value)

def collectGlobalStatistics (stage : Stage) (i : ℕ) : ℚ := (stage.samples i).getD (-1)

end DataPlaneSession

structure LocalControlApplication where
  housekeepingRules : List String
  dataSessions : Assoc String DataPlaneSession
  preparingDataSessions : Assoc String DataPlaneSession
  operationToChannelObject : Assoc String (List (Int32 × Int32))
deriving DecidableEq

namespace LocalControlApplication

def new (rules : List String) : LocalControlApplication := ⟨rules, ∅, ∅, ∅⟩

def channelOperation (tokens : List String) : Except Fault String := do
  if (← token tokens 6) = "no_op" then token tokens 7 else token tokens 6

def addChannel (operation : String) (channelObject : Int32 × Int32) (app : LocalControlApplication) :
    LocalControlApplication :=
  let channelsObjects := (app.operationToChannelObject.lookup operation).getD []
  { app with
    operationToChannelObject :=
      app.operationToChannelObject.insert operation (channelsObjects ++ [channelObject]) }

def registerChannel (app : LocalControlApplication) (rule : String) : Except Fault LocalControlApplication := do
  let app := { app with housekeepingRules := app.housekeepingRules ++ [rule] }
  let tokens := Strings.parseRule '|' rule
  if (← token tokens 2) ≠ "create_channel" then return app
  else do
    let channelId ← stoi (← token tokens 3)
    let operation ← channelOperation tokens
    return app.addChannel operation (Int32.ofInt channelId, 1)

def localHandshake (rules : List String) (app : LocalControlApplication) :
    Except Fault LocalControlApplication :=
  rules.foldlM registerChannel app

theorem registerChannel_ok {app app' : LocalControlApplication} {rule : String}
    (h : registerChannel app rule = .ok app') :
    app' = { app with
      housekeepingRules := app.housekeepingRules ++ [rule]
      operationToChannelObject := app'.operationToChannelObject } := by
  unfold registerChannel at h
  obtain ⟨kind, _, h⟩ := Fault.bind_eq_ok.mp h
  split at h
  · cases h
    rfl
  · obtain ⟨_, _, h⟩ := Fault.bind_eq_ok.mp h
    obtain ⟨_, _, h⟩ := Fault.bind_eq_ok.mp h
    obtain ⟨_, _, h⟩ := Fault.bind_eq_ok.mp h
    cases h
    rfl

theorem localHandshake_ok {rules : List String} {app app' : LocalControlApplication}
    (h : localHandshake rules app = .ok app') :
    app' = { app with
      housekeepingRules := app.housekeepingRules ++ rules
      operationToChannelObject := app'.operationToChannelObject } := by
  induction rules generalizing app with
  | nil =>
    cases h
    simp
  | cons rule rules ih =>
    obtain ⟨app₁, h₁, h⟩ := Fault.bind_eq_ok.mp h
    have hrest := ih h
    rw [registerChannel_ok h₁] at hrest
    simpa using hrest

/-- The node moves, unless it is empty or its key is there; then it is destroyed with its session, whose
thread waits on a condition variable, and there is no reply. -/
def markStageReady (stageNameEnv : String) (app : LocalControlApplication) :
    LocalControlApplication × Option ℤ :=
  match app.preparingDataSessions.lookup stageNameEnv with
  | none => (app, some 1)
  | some stage =>
    ({ app with
      dataSessions := app.dataSessions.emplace stageNameEnv stage
      preparingDataSessions := app.preparingDataSessions.erase stageNameEnv },
      if stageNameEnv ∈ app.dataSessions then none else some 1)

def localPassthru (stages : String → Stage) (stageNameEnv rule : String) (app : LocalControlApplication) :
    Except Fault (LocalControlApplication × Bool) :=
  match app.dataSessions.lookup stageNameEnv with
  | none => .error .nullPointer
  | some session => do
    let (session, value) ← session.createEnforcementRule (stages stageNameEnv) rule
    return ({ app with dataSessions := app.dataSessions.insert stageNameEnv session }, value = 1)

def limitPerChannel (rate : ℤ) (totalChannels : ℕ) : ℤ :=
  if totalChannels > 0 then Double.ofInt (rate.tdiv totalChannels) else 0

def enforcementRule (ruleId : ℤ) (channelObject : Int32 × Int32) (limit : ℤ) : String :=
  toString (6 : ℤ) ++ "|" ++ toString ruleId ++ "|" ++ toString channelObject.1.toInt ++ "|" ++
    toString channelObject.2.toInt ++ "|" ++ "drl" ++ "|" ++ "rate" ++ "|" ++ toString limit

structure Enforcing where
  app : LocalControlApplication
  message : ℤ
  ok : Bool
  returned : Bool

def enforceChannel (stages : String → Stage) (ruleId : ℤ) (stageNameEnv : String) (limit : ℤ) (s : Enforcing)
    (channelObject : Int32 × Int32) : Except Fault Enforcing :=
  if s.returned then .ok s
  else do
    let (app, ok) ← localPassthru stages stageNameEnv (enforcementRule ruleId channelObject limit) s.app
    return ⟨app, 1, true, !ok⟩

def enforceEnv (stages : String → Stage) (operation : String) (rules : EnforcementOpRules) (s : Enforcing)
    (envRate : Σ _ : ℤ, ℤ) : Except Fault Enforcing :=
  if s.returned then .ok s
  else
    match s.app.operationToChannelObject.lookup operation with
    | none => .ok { s with message := 0, ok := false }
    | some channels =>
      channels.foldlM (enforceChannel stages rules.ruleId (stageKey rules.stageName envRate.1)
        (limitPerChannel envRate.2 channels.length)) s

def enforceOperation (outside : Surroundings) (s : Enforcing) (rules : Σ _ : String, EnforcementOpRules) :
    Except Fault Enforcing :=
  (outside.envOrder.order rules.2.envRates.entries).foldlM (enforceEnv outside.stages rules.1 rules.2) s

def createEnforcementRule (outside : Surroundings) (request : EnforcementRules)
    (app : LocalControlApplication) :
    Except Fault Enforcing :=
  (outside.opOrder.order request.entries).foldlM (enforceOperation outside) ⟨app, 0, true, false⟩

def collectGlobalStatistics (outside : Surroundings) (app : LocalControlApplication) :
    LocalControlApplication × Assoc String ℚ :=
  let rate := fun key => DataPlaneSession.collectGlobalStatistics (outside.stages key) 0
  let sessions := outside.sessionOrder.order app.dataSessions.keys
  ({ app with dataSessions := (sessions.filter (rate · = -1)).foldr AList.erase app.dataSessions },
    Assoc.ofKeys rate sessions)

def addSample (rate : String → ℚ) (i : ℕ) (stats : Assoc String ℚ) (key : String) : Assoc String ℚ :=
  stats.insert key
    ((stats.lookup key).elim (rate key) fun previousValue => (rate key + previousValue * i) / (i + 1))

/-- Nobody calls `RemoveSession` before a dead session is erased, so that the erase does not return. -/
def aggregateRound (outside : Surroundings) (s : LocalControlApplication × Assoc String ℚ) (i : ℕ) :
    Option (LocalControlApplication × Assoc String ℚ) :=
  let rate := fun key => DataPlaneSession.collectGlobalStatistics (outside.stages key) i
  let sessions := outside.sessionOrder.order s.1.dataSessions.keys
  match sessions.filter (rate · = -1) with
  | [] => some (s.1, (sessions.filter (rate · ≠ -1)).foldl (addSample rate i) s.2)
  | _ :: _ => none

def collectGlobalStatisticsAggregated (outside : Surroundings) (app : LocalControlApplication) :
    Option (LocalControlApplication × Assoc String ℚ) :=
  (List.range collectRounds).foldlM (aggregateRound outside) (app, ∅)

end LocalControlApplication

end Cheferd
