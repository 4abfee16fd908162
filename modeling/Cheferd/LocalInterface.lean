import Cheferd.LocalControlApplication

namespace Cheferd.LocalInterface

open Library Strings

inductive Request
  | localHandshake (rules : List String)
  | stageHandshake
  | markStageReady (stageNameEnv : String)
  | createEnforcementRule (rules : EnforcementRules)
  | collectGlobalStatistics
  | collectGlobalStatisticsAggregated

def fillHousekeepingRules (rule : String) : List String := (parseRule ':' rule).tail

def addEnvRate (envRates : Assoc ℤ ℤ) (tokenRule : String) : Except Fault (Assoc ℤ ℤ) := do
  let tokens := parseRule ':' tokenRule
  let env ← stoll (← token tokens 0)
  return envRates.insert env (← stoll (← token tokens 1))

def addOpRules (opRules : EnforcementRules) (curRule : String) : Except Fault EnforcementRules := do
  let ruleTokens := parseRule '|' curRule
  let ruleId ← stoll (← token ruleTokens 0)
  let stageName ← token ruleTokens 1
  let envRates ← (parseRule '*' (← token ruleTokens 3)).foldlM addEnvRate ∅
  return opRules.insert (← token ruleTokens 2) ⟨ruleId, stageName, envRates⟩

def createEnforcementRule (rule : String) : Except Fault EnforcementRules :=
  (parseRule '.' rule).tail.foldlM addOpRules ∅

def collectGlobalStatistics : Request := .collectGlobalStatistics

/-- The stub's call is the one of `collectGlobalStatistics`. -/
def collectGlobalStatisticsAggregated : Request := .collectGlobalStatistics

def request (rule : String) : Except Fault (Option Request) :=
  match LocalControllerSession.operationType rule with
  | some 11 => .ok (some (.localHandshake (fillHousekeepingRules rule)))
  | some 0 => .ok (some .stageHandshake)
  | some 1 => do return some (.markStageReady (← token (parseRule '|' rule) 1))
  | some 6 => do return some (.createEnforcementRule (← createEnforcementRule rule))
  | some 3 =>
    match (parseRule '|' rule)[1]?.bind (Decimal.signed 32) with
    | some 5 => .ok (some collectGlobalStatistics)
    | some 6 => .ok (some collectGlobalStatisticsAggregated)
    | _ => .ok none
  | _ => .ok none

def handle (outside : Surroundings) (app : LocalControlApplication) :
    Request → Except Fault (LocalControlApplication × Reply)
  | .localHandshake rules => do return (← app.localHandshake rules, ⟨1, ∅⟩)
  | .stageHandshake => .ok (app, ⟨0, ∅⟩)
  | .markStageReady stageNameEnv =>
    match app.markStageReady stageNameEnv with
    | (app, some message) => .ok (app, ⟨message, ∅⟩)
    | (_, none) => .error .blocked
  | .createEnforcementRule rules => do
    let s ← app.createEnforcementRule outside rules
    return (s.app, ⟨if s.ok then s.message else 0, ∅⟩)
  | .collectGlobalStatistics =>
    let (app, rates) := app.collectGlobalStatistics outside
    .ok (app, ⟨0, rates⟩)
  | .collectGlobalStatisticsAggregated =>
    match app.collectGlobalStatisticsAggregated outside with
    | some (app, rates) => .ok (app, ⟨0, rates⟩)
    | none => .error .blocked

def call (outside : Surroundings) (rule : String) (app : LocalControlApplication) :
    Except Fault (LocalControlApplication × Reply) := do
  match ← request rule with
  | none => return (app, .failed)
  | some request => handle outside app request

end Cheferd.LocalInterface
