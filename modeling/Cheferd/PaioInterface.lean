import Cheferd.RulesFileParser

namespace Cheferd.PaioInterface

open Strings RulesFileParser

structure EnforcementRuleRaw where
  ruleId : ℤ
  channelId : ℤ
  enforcementObjectId : ℤ
  enforcementOperation : ℤ
  propertyFirst : ℤ
  propertySecond : ℤ
  propertyThird : ℤ
deriving DecidableEq, Repr

def parseRule : String → List String := Strings.parseRule '|'

def fillCreateChannelRule (tokens : List String) : Except Fault HousekeepingCreateChannelRaw := do
  return {
    ruleId := UInt64.ofInt (← stol (← token tokens 1))
    ruleType := HousekeepingOperation.createChannel.toInt
    channelId := ← stol (← token tokens 3)
    contextDefinition := convertContextTypeDefinition (← token tokens 4)
    workflowId := UInt32.ofInt (← stol (← token tokens 5))
    operationType :=
      UInt32.ofInt (convertDifferentiationDefinitions (← token tokens 4) (← token tokens 6))
    operationContext :=
      UInt32.ofInt (convertDifferentiationDefinitions (← token tokens 4) (← token tokens 7)) }

def fillCreateObjectRule (tokens : List String) : Except Fault HousekeepingCreateObjectRaw := do
  return {
    ruleId := ← stol (← token tokens 1)
    ruleType := HousekeepingOperation.createObject.toInt
    channelId := ← stol (← token tokens 3)
    enforcementObjectId := ← stol (← token tokens 4)
    contextDefinition := convertContextTypeDefinition (← token tokens 5)
    operationType :=
      UInt32.ofInt (convertDifferentiationDefinitions (← token tokens 5) (← token tokens 6))
    operationContext :=
      UInt32.ofInt (convertDifferentiationDefinitions (← token tokens 5) (← token tokens 7))
    enforcementObjectType := (convertObjectType (← token tokens 8)).toInt
    propertyFirst := ← stol (← token tokens 9)
    propertySecond := ← stol (← token tokens 10) }

def fillEnforcementRule (tokens : List String) : Except Fault EnforcementRuleRaw := do
  let operation :=
    convertEnforcementOperation (convertObjectType (← token tokens 4)) (← token tokens 5)
  return {
    ruleId := ← stoll (← token tokens 1)
    channelId := ← stol (← token tokens 2)
    enforcementObjectId := ← stol (← token tokens 3)
    enforcementOperation := operation
    propertyFirst := ← stol (← token tokens 6)
    -- sent with `init` only; otherwise the default stays
    propertySecond := ← if operation = 1 then do stol (← token tokens 7) else pure (-1)
    propertyThird := -1 }

end Cheferd.PaioInterface
