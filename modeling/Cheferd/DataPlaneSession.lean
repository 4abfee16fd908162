import Cheferd.HandshakeSession
import Cheferd.LocalControlApplication

namespace Cheferd

open Library Strings LocalControllerSession

/-- What the writes and reads on a stage's socket bring for one rule; a read that fails brings nothing. -/
structure Exchange where
  operationWritten : Bool
  ruleWritten : Bool
  acknowledgement : Option ℤ
  removal : Option ℤ
  identity : HandshakeSession.Identity
  totalRate : Option ℚ

namespace PaioInterface

def acknowledged (io : Exchange) : ℤ :=
  if io.operationWritten && io.ruleWritten then io.acknowledgement.getD 0 else 0

def createHousekeepingRule (io : Exchange) (rule : String) :
    Except Fault (Option (RulesFileParser.HousekeepingCreateChannelRaw ⊕
      RulesFileParser.HousekeepingCreateObjectRaw) × ℤ) :=
  match parseRule rule with
  | [] => .ok (none, 0)
  | tokens => do
    match RulesFileParser.convertHousekeepingOperation (← token tokens 2) with
    | .createChannel => return (some (.inl (← fillCreateChannelRule tokens)), acknowledged io)
    | .createObject => return (some (.inr (← fillCreateObjectRule tokens)), acknowledged io)
    | _ => return (none, 0)

def markStageReady (io : Exchange) : ℤ := acknowledged io

def createEnforcementRule (io : Exchange) (rule : String) : Except Fault (Option EnforcementRuleRaw × ℤ) :=
  match parseRule rule with
  | [] => .ok (none, 0)
  | tokens => do return (some (← fillEnforcementRule tokens), acknowledged io)

def removeRule (io : Exchange) : ℤ :=
  if io.operationWritten && io.ruleWritten then
    match io.acknowledgement with
    | none => 0
    | some message => io.removal.getD message
  else 0

def collectGlobalStatistics (io : Exchange) : Option ℚ := if io.operationWritten then io.totalRate else none

end PaioInterface

namespace DataPlaneSession

inductive Response
  | handshake (identity : HandshakeSession.Identity)
  | ack (responseType value : ℤ)
  | stat (responseType : ℤ) (rate : ℚ)

def sendRule (io : Exchange) (rule : String) : Except Fault (Option Response) :=
  -- the empty rule is the one that `RemoveSession` submits
  match if rule = "" then some (-1) else operationType rule with
  | none => .error .invalidArgument
  | some 0 => .ok (some (.handshake io.identity))
  | some 1 => .ok (some (.ack 1 (PaioInterface.markStageReady io)))
  | some 4 => do return some (.ack 4 (← PaioInterface.createHousekeepingRule io rule).2)
  | some 6 => do return some (.ack 6 (← PaioInterface.createEnforcementRule io rule).2)
  | some 8 => .ok (some (.ack 8 (PaioInterface.removeRule io)))
  | some 3 => do
    if (← stoi (← token (parseRule '|' rule) 1)) = 5 then
      return some (.stat 5 ((PaioInterface.collectGlobalStatistics io).getD (-1)))
    else return none
  | some _ => .ok none

def stageReadyRule : String := toString (1 : ℤ) ++ "|"

def collectStatisticsRule : String := toString (3 : ℤ) ++ "|" ++ toString (5 : ℤ) ++ "|"

end DataPlaneSession

end Cheferd
