import Cheferd.PaioInterface

namespace Cheferd.PolicyGenerator

open Library Strings RulesFileParser PaioInterface

def convertHousekeepingCreateChannelString (hskRaw : HousekeepingCreateChannelRaw) : String :=
  toString (4 : ℤ) ++ "|" ++ toString (hskRaw.ruleId.toNat : ℤ) ++ "|" ++ "create_channel" ++ "|" ++
    toString hskRaw.channelId ++ "|" ++ contextTypeName hskRaw.contextDefinition ++ "|" ++
    toString (hskRaw.workflowId.toNat : ℤ) ++ "|" ++
    differentiationName hskRaw.contextDefinition hskRaw.operationType.toInt32.toInt ++ "|" ++
    differentiationName hskRaw.contextDefinition hskRaw.operationContext.toInt32.toInt ++ "|"

def convertHousekeepingCreateObjectString (hskRaw : HousekeepingCreateObjectRaw) : String :=
  toString (4 : ℤ) ++ "|" ++ toString hskRaw.ruleId ++ "|" ++ "create_object" ++ "|" ++
    toString hskRaw.channelId ++ "|" ++ toString hskRaw.enforcementObjectId ++ "|" ++
    contextTypeName hskRaw.contextDefinition ++ "|" ++
    differentiationName hskRaw.contextDefinition hskRaw.operationType.toInt32.toInt ++ "|" ++
    differentiationName hskRaw.contextDefinition hskRaw.operationContext.toInt32.toInt ++ "|" ++
    objectTypeName hskRaw.enforcementObjectType ++ "|" ++ toString hskRaw.propertyFirst ++ "|" ++
    toString hskRaw.propertySecond ++ "|"

def channelAtStage (hskRaw : HousekeepingCreateChannelRaw) : Except Fault HousekeepingCreateChannelRaw :=
  fillCreateChannelRule (PaioInterface.parseRule (convertHousekeepingCreateChannelString hskRaw))

def objectAtStage (hskRaw : HousekeepingCreateObjectRaw) : Except Fault HousekeepingCreateObjectRaw :=
  fillCreateObjectRule (PaioInterface.parseRule (convertHousekeepingCreateObjectString hskRaw))

end Cheferd.PolicyGenerator
