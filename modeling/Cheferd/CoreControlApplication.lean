import Cheferd.LocalControllerSession
import Cheferd.RulesFileParser
import Cheferd.Library.Double
import Mathlib.Data.String.Basic

namespace Cheferd

open Library Strings

inductive ControlType | static | dynamicVanilla | dynamicLeftover | mds | noop
deriving DecidableEq, Repr

def iopsThreshold : ℤ := 10

def collectRounds : ℕ := 5

def stageKey (stageName : String) (stageEnv : ℤ) : String := stageName ++ "+" ++ toString stageEnv

/-- The env is the process id the node reported, which travels as its decimal string. -/
structure StageInfo where
  stageName : String
  stageEnv : ℤ
  stageUser : String
  localAddress : String
deriving DecidableEq, Repr

def StageInfo.key (info : StageInfo) : String := stageKey info.stageName info.stageEnv

structure EnforcementRule where
  appName : String
  operation : String
  localToEnvs : Assoc String (List ℤ)
  limitPerStage : ℤ
deriving DecidableEq

/-- What the outside has seen of the core; the source keeps no such record. -/
inductive Event
  | registered (info : StageInfo)
  | removed (info : StageInfo)
  | enforced (rule : EnforcementRule)
  | computed
deriving DecidableEq

def Event.job : Event → Option String
  | .registered info | .removed info => some info.stageName
  | .enforced rule => some rule.appName
  | .computed => none

def Event.sends : Event → Bool
  | .enforced _ => true
  | _ => false

/-- The order in which the containers with hashed keys are gone through. -/
structure HashOrder where
  order : String → List String → List String
  perm : ∀ container keys, (order container keys).Perm keys

def HashOrder.id : HashOrder := ⟨fun _ keys => keys, fun _ _ => .refl _⟩

abbrev Locations := Assoc String (List ℤ)

structure CoreControlApplication where
  changeInSystem : Bool
  pendingRulesQueue : List String
  localQueue : List String
  localToDataQueue : List StageInfo
  controlType : ControlType
  localSessions : Assoc String LocalControllerSession
  localToStages : Assoc String (List String)
  stageInfoDetailed : Assoc String StageInfo
  jobLocationTracker : Assoc String Locations
  jobDemands : Assoc String ℤ
  jobRates : Assoc String ℤ
  jobPreviousRates : Assoc String ℤ
  maximumLimit : ℤ
  activeOps : List String
  activeOp : String
  activeLocalControllerSessions : ℤ
  pendingLocalControllerSessions : ℤ
  activeDataPlaneSessions : ℤ
  pendingDataPlaneSessions : ℤ
  housekeepingRules : List String
  hash : HashOrder
  history : List Event

namespace CoreControlApplication

def new (controlType : ControlType) (rules : List String) (systemLimit : ℤ) (hash : HashOrder) :
    CoreControlApplication where
  changeInSystem := false
  pendingRulesQueue := []
  localQueue := []
  localToDataQueue := []
  controlType := controlType
  localSessions := ∅
  localToStages := ∅
  stageInfoDetailed := ∅
  jobLocationTracker := ∅
  jobDemands := ∅
  jobRates := ∅
  jobPreviousRates := ∅
  maximumLimit := systemLimit
  activeOps := []
  activeOp := ""
  activeLocalControllerSessions := 0
  pendingLocalControllerSessions := 0
  activeDataPlaneSessions := 0
  pendingDataPlaneSessions := 0
  housekeepingRules := rules
  hash := hash
  history := []

def activeOpOf (rule : String) : Except Fault (Option String) := do
  let tokens := parseRule '|' rule
  if (← token tokens 2) ≠ "create_channel" then return none
  if (← token tokens 6) = "no_op" then return some (← token tokens 7)
  return some (← token tokens 6)

def activeOpsOf : List String → Except Fault (List String)
  | [] => .ok []
  | rule :: rules => do
    let op ← activeOpOf rule
    return op.toList ++ (← activeOpsOf rules)

def initializeOps (core : CoreControlApplication) : Except Fault CoreControlApplication := do
  let ops := (← activeOpsOf core.housekeepingRules).dedup
  let activeOp ← token (core.hash.order "active_ops" ops) 0
  return { core with activeOps := ops, activeOp := activeOp }

def stagesOf (core : CoreControlApplication) (address : String) : List String :=
  (core.localToStages.lookup address).getD []

def envsOf (core : CoreControlApplication) (job address : String) : List ℤ :=
  ((core.jobLocationTracker.lookup job).bind fun locations => locations.lookup address).getD []

def submitRule (missing : Fault) (address rule : String) (core : CoreControlApplication) :
    Except Fault CoreControlApplication :=
  match core.localSessions.lookup address with
  | none => .error missing
  | some session =>
    .ok { core with localSessions := core.localSessions.insert address (session.submitRule rule) }

def localHandshakeRule (core : CoreControlApplication) : String :=
  toString (11 : ℤ) ++ "|" ++ core.housekeepingRules.foldr (fun rule rest => ":" ++ rule ++ rest) ""

def stageReadyRule (info : StageInfo) : String := toString (1 : ℤ) ++ "|" ++ info.key ++ "|"

def collectStatisticsRule (subtype : ℤ) : String := toString (3 : ℤ) ++ "|" ++ toString subtype ++ "|"

def handleLocalControllerSessions (address : String) (rest : List String) (core : CoreControlApplication) :
    Except Fault CoreControlApplication :=
  submitRule .nullPointer address core.localHandshakeRule
    { core with
      localQueue := rest
      pendingLocalControllerSessions := core.pendingLocalControllerSessions - 1
      localSessions := core.localSessions.emplace address .new
      localToStages := core.localToStages.emplace address [] }

def trackStage (info : StageInfo) (tracker : Assoc String Locations) : Assoc String Locations :=
  let locations := (tracker.lookup info.stageName).getD ∅
  let envs := (locations.lookup info.localAddress).getD []
  tracker.insertSorted info.stageName (locations.insert info.localAddress (envs ++ [info.stageEnv]))

def emplaceJob (job : String) (core : CoreControlApplication) : CoreControlApplication :=
  if job ∈ core.jobLocationTracker then core
  else
    { core with
      jobDemands := core.jobDemands.emplace job (-1)
      jobPreviousRates := core.jobPreviousRates.emplace job 0
      jobRates := core.jobRates.emplace job (-1) }

def registerStage (info : StageInfo) (core : CoreControlApplication) : CoreControlApplication :=
  { emplaceJob info.stageName core with
    changeInSystem := true
    jobLocationTracker := trackStage info core.jobLocationTracker
    localToStages := core.localToStages.insert info.localAddress (core.stagesOf info.localAddress ++ [info.key])
    history := .registered info :: core.history }

def handleDataPlaneSessions (info : StageInfo) (rest : List StageInfo) (core : CoreControlApplication) :
    Except Fault CoreControlApplication :=
  submitRule (.outOfRange .localSessions) info.localAddress (stageReadyRule info) <|
    registerStage info
      { core with
        localToDataQueue := rest
        pendingDataPlaneSessions := core.pendingDataPlaneSessions - 1 }

def stageMarked (info : StageInfo) (response : StageResponse) (core : CoreControlApplication) :
    CoreControlApplication :=
  let ready := match response with
    | .ack _ value => value == 1
    | .handshake _ | .stats _ _ => false
  { core with
    stageInfoDetailed := core.stageInfoDetailed.insert info.key info
    activeDataPlaneSessions := core.activeDataPlaneSessions + if ready then 1 else 0 }

def eraseJob (job : String) (core : CoreControlApplication) : CoreControlApplication :=
  { core with
    jobLocationTracker := core.jobLocationTracker.erase job
    jobRates := core.jobRates.erase job
    jobPreviousRates := core.jobPreviousRates.erase job
    jobDemands := core.jobDemands.erase job }

def untrackStage (info : StageInfo) (locations : Locations) (envs : List ℤ) (core : CoreControlApplication) :
    CoreControlApplication :=
  let envs := envs.filter (· ≠ info.stageEnv)
  if envs = [] then
    let locations := locations.erase info.localAddress
    if locations.entries = [] then eraseJob info.stageName core
    else { core with jobLocationTracker := core.jobLocationTracker.insertSorted info.stageName locations }
  else
    { core with
      jobLocationTracker :=
        core.jobLocationTracker.insertSorted info.stageName (locations.insert info.localAddress envs) }

def removeStage (key : String) (core : CoreControlApplication) : Except Fault CoreControlApplication :=
  match core.stageInfoDetailed.lookup key with
  | none => .error (.outOfRange .stageInfoDetailed)
  | some info =>
    match core.jobLocationTracker.lookup info.stageName with
    | none => .error (.outOfRange .jobLocationTracker)
    | some locations =>
      match locations.lookup info.localAddress with
      | none => .error (.outOfRange .localAddressToEnvs)
      | some envs =>
        .ok { untrackStage info locations envs core with
          stageInfoDetailed := core.stageInfoDetailed.erase key
          changeInSystem := true
          history := .removed info :: core.history }

abbrev Rates := Assoc String ℚ

structure Collection where
  sessionsToDelete : List String
  collectedStats : Assoc String Rates
deriving DecidableEq

def Collection.empty : Collection := ⟨[], ∅⟩

def removeDead (address : String) : List (Σ _ : String, ℚ) → CoreControlApplication → List String →
    Except Fault (CoreControlApplication × List String)
  | [], core, sessionsToDelete => .ok (core, sessionsToDelete)
  | ⟨key, rate⟩ :: rest, core, sessionsToDelete =>
    if rate = -1 then do
      let core ← removeStage key core
      match core.localToStages.lookup address with
      | none => .error (.outOfRange .localToStages)
      | some stages =>
        let stages := stages.filter (· ≠ key)
        if stages = [] then
          removeDead address rest { core with localToStages := core.localToStages.erase address }
            (sessionsToDelete ++ [address])
        else
          removeDead address rest { core with localToStages := core.localToStages.insert address stages }
            sessionsToDelete
    else removeDead address rest core sessionsToDelete

def removeStages : List String → CoreControlApplication → Except Fault CoreControlApplication
  | [], core => .ok core
  | key :: rest, core => do removeStages rest (← removeStage key core)

/-- From the response on; the cast of any other kind of response gives a null pointer. -/
def collectStatisticsResult (address : String) (response : StageResponse) (collection : Collection)
    (core : CoreControlApplication) : Except Fault (CoreControlApplication × Collection) :=
  match response with
  | .ack _ _ | .handshake _ => .error .nullPointer
  | .stats _ rates =>
    -- an empty reply stands for a controller that is gone
    if rates.entries = [] then
      match core.localToStages.lookup address with
      | none => .error (.outOfRange .localToStages)
      | some stages => do
        let core ← removeStages stages core
        return ({ core with localToStages := core.localToStages.erase address },
          { collection with sessionsToDelete := collection.sessionsToDelete ++ [address] })
    else do
      let (core, sessionsToDelete) ← removeDead address rates.entries core collection.sessionsToDelete
      return (core, ⟨sessionsToDelete, collection.collectedStats.emplace address rates⟩)

/-- The erase of a session destroys the condition variable that the session's thread waits on, since nobody
has called `RemoveSession`: it does not return. -/
def eraseSessions : List String → CoreControlApplication → Option CoreControlApplication
  | [], core => some core
  | address :: rest, core =>
    let core := { core with activeLocalControllerSessions := core.activeLocalControllerSessions - 1 }
    if address ∈ core.localSessions then none else eraseSessions rest core

def updateJobDemands (core : CoreControlApplication) : Except Fault (String × CoreControlApplication) :=
  match core.pendingRulesQueue with
  | [] => .ok ("", core)
  | newRule :: rest =>
    let core := { core with pendingRulesQueue := rest }
    if newRule = "" then .ok ("", core)
    else do
      let tokens := parseRule '|' newRule
      let kind ← token tokens 1
      if kind = "demand" ∨ kind = "job" then
        let job ← token tokens 2
        let operation ← token tokens 3
        let demand ← stol (← token tokens 4)
        return (operation,
          { core with jobDemands := core.jobDemands.insert job demand, activeOp := operation })
      else return ("", { core with activeOp := "" })

def totalStages (localToEnvs : Locations) : ℤ := (localToEnvs.entries.map fun e => (e.2.length : ℤ)).sum

def enforcementRule (appName operation : String) (envs : List ℤ) (limitPerStage : ℤ) : String :=
  toString (6 : ℤ) ++ "|.0|" ++ appName ++ "|" ++ operation ++ "|" ++
    envs.foldr (fun env rest => "*" ++ toString env ++ ":" ++ toString limitPerStage ++ rest) "" ++ "*."

def updatedKey (job address : String) : String := job ++ "+" ++ address

/-- The third component stands for `job_address_updated`. -/
def submitEnforcementRules (appName operation : String) (localToEnvs : Locations) (limitPerStage : ℤ) :
    List String → CoreControlApplication → List String → Except Fault (CoreControlApplication × List String)
  | [], core, updated => .ok (core, updated)
  | address :: rest, core, updated => do
    let envs := (localToEnvs.lookup address).getD []
    let core ← submitRule .nullPointer address (enforcementRule appName operation envs limitPerStage) core
    submitEnforcementRules appName operation localToEnvs limitPerStage rest core
      (updated ++ [updatedKey appName address])

def sendEnforcementRule (appName : String) (localToEnvs : Locations) (operation : String)
    (core : CoreControlApplication) (updated : List String) :
    Except Fault (CoreControlApplication × List String) :=
  let rate := core.jobRates.read appName
  let total := totalStages localToEnvs
  if total = 0 then .error .divisionByZero
  else
    let limitPerStage := Double.ofInt (rate.tdiv total)
    submitEnforcementRules appName operation localToEnvs limitPerStage
      (core.hash.order appName localToEnvs.keys)
      { core with
        jobPreviousRates := core.jobPreviousRates.insert appName rate
        history := .enforced ⟨appName, operation, localToEnvs, limitPerStage⟩ :: core.history }
      updated

def waitList (core : CoreControlApplication) (updated : List String) : List (String × String) :=
  core.jobLocationTracker.entries.flatMap fun app =>
    ((core.hash.order app.1 app.2.keys).filter (updatedKey app.1 · ∈ updated)).map fun address =>
      (app.1, address)

section OperationTypes

open LocalControllerSession

theorem operationType_handshake (core : CoreControlApplication) :
    operationType core.localHandshakeRule = some 11 :=
  operationType_append 11 _ (by decide)

theorem operationType_stageReady (info : StageInfo) : operationType (stageReadyRule info) = some 1 := by
  have h := operationType_append 1 (info.key ++ "|") (by decide)
  rwa [← String.append_assoc] at h

theorem operationType_collectStatistics (subtype : ℤ) :
    operationType (collectStatisticsRule subtype) = some 3 := by
  have h := operationType_append 3 (toString subtype ++ "|") (by decide)
  rwa [← String.append_assoc] at h

theorem operationType_enforcementRule (appName operation : String) (envs : List ℤ) (limit : ℤ) :
    operationType (enforcementRule appName operation envs limit) = some 6 := by
  have hsplit : ∃ rest, enforcementRule appName operation envs limit = toString (6 : ℤ) ++ "|" ++ rest :=
    ⟨".0|" ++ appName ++ "|" ++ operation ++ "|" ++ envs.foldr
        (fun env rest => "*" ++ toString env ++ ":" ++ toString limit ++ rest) "" ++ "*.",
      String.toList_inj.mp (by simp [enforcementRule])⟩
  obtain ⟨rest, hrest⟩ := hsplit
  rw [hrest]
  exact operationType_append 6 rest (by decide)

end OperationTypes

end CoreControlApplication

end Cheferd
