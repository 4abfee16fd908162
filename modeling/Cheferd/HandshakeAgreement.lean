import Cheferd.HousekeepingRoundTrip
import Cheferd.LocalInterface
import Mathlib.Data.List.Dedup

namespace Cheferd

open Library Strings RulesFileParser PaioInterface

inductive HousekeepingRule
  | createChannel (raw : HousekeepingCreateChannelRaw)
  | createObject (raw : HousekeepingCreateObjectRaw)
deriving DecidableEq

namespace HousekeepingRule

open PolicyGenerator

def convert : HousekeepingRule → String
  | createChannel raw => convertHousekeepingCreateChannelString raw
  | createObject raw => convertHousekeepingCreateObjectString raw

def Known : HousekeepingRule → Prop
  | createChannel raw => raw.contextDefinition ∈ contextTypeLabels.map Prod.snd
  | createObject raw => raw.contextDefinition ∈ contextTypeLabels.map Prod.snd

instance : DecidablePred Known
  | createChannel raw => inferInstanceAs (Decidable (raw.contextDefinition ∈ _))
  | createObject raw => inferInstanceAs (Decidable (raw.contextDefinition ∈ _))

def tokens : HousekeepingRule → List String
  | createChannel raw => channelTokens raw
  | createObject raw => objectTokens raw

/-- What a channel controls: the second definition counts where the first is `no_op`. -/
def operation (raw : HousekeepingCreateChannelRaw) : String :=
  let type := differentiationName raw.contextDefinition raw.operationType.toInt32.toInt
  if type = "no_op" then differentiationName raw.contextDefinition raw.operationContext.toInt32.toInt
  else type

def channels (rules : List HousekeepingRule) : List HousekeepingCreateChannelRaw :=
  rules.filterMap fun
    | createChannel raw => some raw
    | createObject _ => none

theorem exists_context {v : ℤ} (h : v ∈ contextTypeLabels.map Prod.snd) :
    ∃ context, KnownContext context ∧ convertContextTypeDefinition context = v := by
  obtain ⟨e, he, rfl⟩ := List.mem_map.mp h
  exact ⟨e.1, ⟨e, he, rfl⟩, switchHash_label (-1) (by decide) he⟩

def Framed (t : String) : Prop := Plain '|' t ∧ ':' ∉ t.toList

instance (t : String) : Decidable (Framed t) := inferInstanceAs (Decidable (_ ∧ _))

theorem framed_toString (v : ℤ) : Framed (toString v) :=
  ⟨toString_plain v, Decimal.notMem_toString v ':' (by decide) (by decide)⟩

theorem framed_contextTypeName (v : ℤ) : Framed (contextTypeName v) := by
  have hall : ∀ t ∈ "noop" :: contextTypeNames.map Prod.snd, Framed t := by decide
  exact hall _ (contextTypeName_mem v)

theorem framed_differentiationName {v : ℤ} (h : v ∈ contextTypeLabels.map Prod.snd) (w : ℤ) :
    Framed (differentiationName v w) := by
  have hall : ∀ t ∈ writtenNames, Framed t := by decide
  obtain ⟨context, hk, rfl⟩ := exists_context h
  exact hall _ (differentiationName_mem hk w)

theorem framed_objectTypeName (v : ℤ) : Framed (objectTypeName v) := by
  unfold objectTypeName
  split <;> decide

theorem Known.framed {rule : HousekeepingRule} (h : rule.Known) : ∀ t ∈ rule.tokens, Framed t := by
  cases rule with
  | createChannel raw =>
    have hname := framed_differentiationName h
    simp only [tokens, channelTokens, List.forall_mem_cons, framed_toString, framed_contextTypeName, hname,
      true_and]
    decide
  | createObject raw =>
    have hname := framed_differentiationName h
    simp only [tokens, objectTokens, List.forall_mem_cons, framed_toString, framed_contextTypeName, hname,
      framed_objectTypeName, true_and]
    decide

theorem convert_eq (rule : HousekeepingRule) : rule.convert = terminated "|" rule.tokens := by
  cases rule with
  | createChannel raw => exact channelString_eq raw
  | createObject raw => exact objectString_eq raw

theorem Known.parse {rule : HousekeepingRule} (h : rule.Known) : parseRule '|' rule.convert = rule.tokens := by
  rw [convert_eq, parseRule_plain '|' "|" rfl]
  exact fun t ht => (h.framed t ht).1

theorem Known.plain {rule : HousekeepingRule} (h : rule.Known) : Plain ':' rule.convert := by
  constructor
  · rw [convert_eq]
    exact notMem_terminated ':' "|" (by decide) fun t ht => (h.framed t ht).2
  · intro hempty
    have hparse := h.parse
    rw [hempty, parseRule_nil] at hparse
    cases rule with
    | createChannel raw => cases hparse
    | createObject raw => cases hparse

end HousekeepingRule

open HousekeepingRule

theorem LocalInterface.parseRule_frame (rules : List String) (first : String) :
    parseRule ':' (first ++ rules.foldr (fun rule rest => ":" ++ rule ++ rest) "") =
      parseRule ':' first ++ rules.flatMap (parseRule ':') := by
  induction rules generalizing first with
  | nil => simp
  | cons rule rules ih =>
    rw [List.foldr_cons, String.append_assoc, parseRule_append ':' ":" _ _ rfl, ih, List.flatMap_cons]

theorem LocalInterface.fillHousekeepingRules_frame {core : CoreControlApplication}
    (h : ∀ rule ∈ core.housekeepingRules, Plain ':' rule) :
    LocalInterface.fillHousekeepingRules core.localHandshakeRule = core.housekeepingRules := by
  have hflat : ∀ rules : List String, (∀ rule ∈ rules, Plain ':' rule) →
      rules.flatMap (parseRule ':') = rules := by
    intro rules hrules
    induction rules with
    | nil => rfl
    | cons rule rules ih =>
      obtain ⟨hrule, hrules⟩ := List.forall_mem_cons.mp hrules
      rw [List.flatMap_cons, parseRule_single ':' rule hrule.1 hrule.2, ih hrules]
      rfl
  rw [fillHousekeepingRules, CoreControlApplication.localHandshakeRule, LocalInterface.parseRule_frame,
    hflat _ h, parseRule_single ':' _ (by decide) (by decide)]
  rfl

namespace CoreControlApplication

theorem activeOpOf_convert {rule : HousekeepingRule} (h : rule.Known) :
    activeOpOf rule.convert = .ok ((channels [rule]).map operation).head? := by
  rw [activeOpOf, h.parse]
  cases rule with
  | createChannel raw =>
    simp only [tokens, channelTokens, token, List.getElem?_cons_succ, List.getElem?_cons_zero, Fault.ok_bind,
      ne_eq, not_true_eq_false, if_false, pure, Except.pure, channels, List.filterMap_cons, List.filterMap_nil,
      List.map_cons, List.map_nil, List.head?_cons, operation]
    split <;> rfl
  | createObject raw => rfl

theorem activeOpsOf_convert {rules : List HousekeepingRule} (h : ∀ rule ∈ rules, rule.Known) :
    activeOpsOf (rules.map convert) = .ok ((channels rules).map operation) := by
  induction rules with
  | nil => rfl
  | cons rule rules ih =>
    obtain ⟨hrule, hrules⟩ := List.forall_mem_cons.mp h
    rw [List.map_cons, activeOpsOf, activeOpOf_convert hrule, ih hrules]
    cases rule with
    | createChannel raw => rfl
    | createObject raw => rfl

theorem initializeOps_convert {rules : List HousekeepingRule} (h : ∀ rule ∈ rules, rule.Known)
    (core : CoreControlApplication) (hrules : core.housekeepingRules = rules.map convert) :
    if channels rules = [] then initializeOps core = .error .missingToken
    else ∃ core', initializeOps core = .ok core' ∧ core'.housekeepingRules = rules.map convert ∧
      core'.activeOps = ((channels rules).map operation).dedup := by
  have hperm := core.hash.perm "active_ops" ((channels rules).map operation).dedup
  unfold initializeOps
  rw [hrules, activeOpsOf_convert h]
  simp only [Fault.ok_bind]
  split
  case isTrue hnone =>
    rw [hnone] at hperm ⊢
    rw [List.perm_nil.mp hperm]
    rfl
  case isFalse hsome =>
    have hne : core.hash.order "active_ops" ((channels rules).map operation).dedup ≠ [] := by
      obtain ⟨raw, rest, hraw⟩ := List.exists_cons_of_ne_nil hsome
      have hmem : operation raw ∈ ((channels rules).map operation).dedup :=
        List.mem_dedup.mpr (List.mem_map_of_mem (by simp [hraw]))
      exact List.ne_nil_of_mem (hperm.mem_iff.mpr hmem)
    obtain ⟨activeOp, rest, hcons⟩ := List.exists_cons_of_ne_nil hne
    rw [hcons]
    exact ⟨_, rfl, rfl, rfl⟩

end CoreControlApplication

namespace LocalControlApplication

def channelObject (raw : HousekeepingCreateChannelRaw) : Int32 × Int32 := (Int32.ofInt raw.channelId, 1)

def objectsOf (rules : List HousekeepingRule) (op : String) : List (Int32 × Int32) :=
  ((channels rules).filter (operation · = op)).map channelObject

theorem registerChannel_convert {rule : HousekeepingRule} (h : rule.Known)
    (app app' : LocalControlApplication) :
    registerChannel app rule.convert = .ok app' ↔
      (∀ raw ∈ channels [rule], Decimal.InRange 32 raw.channelId) ∧
      app' = (channels [rule]).foldl (fun app raw => app.addChannel (operation raw) (channelObject raw))
        { app with housekeepingRules := app.housekeepingRules ++ [rule.convert] } := by
  rw [registerChannel, h.parse]
  cases rule with
  | createChannel raw =>
    have hoperation : channelOperation (channelTokens raw) = .ok (operation raw) := by
      simp only [channelOperation, channelTokens, token, List.getElem?_cons_succ, List.getElem?_cons_zero,
        Fault.ok_bind, operation]
      split <;> rfl
    have hid : token (channelTokens raw) 3 = .ok (toString raw.channelId) := rfl
    have hkind : token (channelTokens raw) 2 = .ok "create_channel" := rfl
    simp only [tokens, hkind, hid, hoperation, Fault.ok_bind, ne_eq, not_true_eq_false, if_false,
      Fault.bind_eq_ok, stoi,
      number_toString_eq_ok, channels, List.filterMap_cons, List.filterMap_nil, List.forall_mem_singleton,
      List.foldl_cons, List.foldl_nil, channelObject]
    constructor
    · rintro ⟨id, ⟨hrange, rfl⟩, hadd⟩
      cases hadd
      exact ⟨hrange, rfl⟩
    · rintro ⟨hrange, rfl⟩
      exact ⟨_, ⟨hrange, rfl⟩, rfl⟩
  | createObject raw =>
    have hkind : token (objectTokens raw) 2 = .ok "create_object" := rfl
    simp only [tokens, hkind, Fault.ok_bind, channels, List.filterMap_cons, List.filterMap_nil, List.foldl_nil,
      List.not_mem_nil, false_imp_iff, implies_true, true_and]
    constructor
    · intro hadd
      cases hadd
      rfl
    · rintro rfl
      rfl

theorem lookup_addChannel (op : String) (object : Int32 × Int32) (app : LocalControlApplication) (k : String) :
    (app.addChannel op object).operationToChannelObject.lookup k =
      if k = op then some ((app.operationToChannelObject.lookup k).getD [] ++ [object])
      else app.operationToChannelObject.lookup k := by
  rw [addChannel, Assoc.lookup_insert_eq]
  split
  case isTrue h => rw [h]
  case isFalse h => rfl

theorem lookup_registerChannel {rule : HousekeepingRule} {app app' : LocalControlApplication} (h : rule.Known)
    (hstep : registerChannel app rule.convert = .ok app') (op : String) :
    app'.operationToChannelObject.lookup op =
      if objectsOf [rule] op = [] then app.operationToChannelObject.lookup op
      else some ((app.operationToChannelObject.lookup op).getD [] ++ objectsOf [rule] op) := by
  rw [((registerChannel_convert h app app').mp hstep).2]
  cases rule with
  | createChannel raw =>
    simp only [channels, List.filterMap_cons, List.filterMap_nil, List.foldl_cons, List.foldl_nil,
      lookup_addChannel, objectsOf]
    by_cases hop : operation raw = op
    · simp [hop]
    · simp [hop, Ne.symm hop]
  | createObject raw => rfl

theorem objectsOf_cons (rule : HousekeepingRule) (rules : List HousekeepingRule) (op : String) :
    objectsOf (rule :: rules) op = objectsOf [rule] op ++ objectsOf rules op := by
  cases rule with
  | createChannel raw =>
    simp only [objectsOf, channels, List.filterMap_cons, List.filterMap_nil, ← List.map_append,
      ← List.filter_append]
    rfl
  | createObject raw => rfl

theorem lookup_localHandshake {rules : List HousekeepingRule} {app app' : LocalControlApplication}
    (h : ∀ rule ∈ rules, rule.Known) (hrun : localHandshake (rules.map convert) app = .ok app') (op : String) :
    app'.operationToChannelObject.lookup op =
      if objectsOf rules op = [] then app.operationToChannelObject.lookup op
      else some ((app.operationToChannelObject.lookup op).getD [] ++ objectsOf rules op) := by
  induction rules generalizing app with
  | nil =>
    cases hrun
    rfl
  | cons rule rules ih =>
    obtain ⟨hrule, hrules⟩ := List.forall_mem_cons.mp h
    obtain ⟨next, hstep, hrun⟩ := Fault.bind_eq_ok.mp hrun
    rw [ih hrules hrun, lookup_registerChannel hrule hstep, objectsOf_cons rule rules]
    by_cases hfirst : objectsOf [rule] op = []
    · simp [hfirst]
    · by_cases hrest : objectsOf rules op = []
      · simp [hfirst, hrest]
      · simp [hfirst, hrest]

theorem localHandshake_succeeds_iff {rules : List HousekeepingRule} (h : ∀ rule ∈ rules, rule.Known)
    (app : LocalControlApplication) :
    (∃ app', localHandshake (rules.map convert) app = .ok app') ↔
      ∀ raw ∈ channels rules, Decimal.InRange 32 raw.channelId := by
  induction rules generalizing app with
  | nil => exact iff_of_true ⟨app, rfl⟩ (List.forall_mem_nil _)
  | cons rule rules ih =>
    obtain ⟨hrule, hrules⟩ := List.forall_mem_cons.mp h
    have hchannels : channels (rule :: rules) = channels [rule] ++ channels rules := by
      cases rule with
      | createChannel raw => rfl
      | createObject raw => rfl
    rw [hchannels, List.forall_mem_append]
    constructor
    · rintro ⟨app', hrun⟩
      obtain ⟨next, hstep, hrun⟩ := Fault.bind_eq_ok.mp hrun
      exact ⟨((registerChannel_convert hrule app next).mp hstep).1, (ih hrules next).mp ⟨app', hrun⟩⟩
    · rintro ⟨hfirst, hrest⟩
      have hstep := (registerChannel_convert hrule app _).mpr ⟨hfirst, rfl⟩
      obtain ⟨app', hrun⟩ := (ih hrules _).mpr hrest
      exact ⟨app', Fault.bind_eq_ok.mpr ⟨_, hstep, hrun⟩⟩

theorem objectsOf_ne_nil {rules : List HousekeepingRule} {op : String} :
    objectsOf rules op ≠ [] ↔ op ∈ (channels rules).map operation := by
  rw [objectsOf, ne_eq, List.map_eq_nil_iff, List.filter_eq_nil_iff, List.mem_map]
  simp

end LocalControlApplication

section Agreement

variable {rules : List HousekeepingRule}

structure Agree (core : CoreControlApplication) (rules : List HousekeepingRule)
    (before after : LocalControlApplication) :
    Prop where
  operations : ∀ op, op ∈ after.operationToChannelObject ↔ op ∈ core.activeOps
  housekeeping : after.housekeepingRules = before.housekeepingRules ++ core.housekeepingRules
  objects : ∀ op ∈ core.activeOps,
    after.operationToChannelObject.lookup op = some (LocalControlApplication.objectsOf rules op)

theorem call_localHandshakeRule (outside : Surroundings) (h : ∀ rule ∈ rules, rule.Known)
    {core : CoreControlApplication} (hcore : core.housekeepingRules = rules.map convert)
    (app : LocalControlApplication) :
    LocalInterface.call outside core.localHandshakeRule app =
      (app.localHandshake (rules.map convert)).map fun app' => (app', ⟨1, ∅⟩) := by
  have hplain : ∀ rule ∈ core.housekeepingRules, Plain ':' rule := by
    rw [hcore]
    exact List.forall_mem_map.mpr fun rule hrule => (h rule hrule).plain
  rw [LocalInterface.call, LocalInterface.request, CoreControlApplication.operationType_handshake,
    LocalInterface.fillHousekeepingRules_frame hplain, hcore]
  rfl

theorem agree_of_localHandshake (h : ∀ rule ∈ rules, rule.Known) {core : CoreControlApplication}
    (hcore : core.housekeepingRules = rules.map convert)
    (hops : core.activeOps = ((channels rules).map operation).dedup) {before after : LocalControlApplication}
    (hempty : before.operationToChannelObject = ∅)
    (hrun : before.localHandshake (rules.map convert) = .ok after) : Agree core rules before after := by
  have hactive : ∀ op, op ∈ core.activeOps ↔ LocalControlApplication.objectsOf rules op ≠ [] := by
    intro op
    rw [hops, List.mem_dedup, LocalControlApplication.objectsOf_ne_nil]
  have hlookup := LocalControlApplication.lookup_localHandshake h hrun
  simp only [hempty, AList.lookup_empty, Option.getD_none, List.nil_append] at hlookup
  constructor
  · intro op
    rw [hactive, ← AList.lookup_isSome, hlookup]
    split <;> simp [*]
  · rw [hcore, LocalControlApplication.localHandshake_ok hrun]
  · intro op hop
    rw [hlookup, if_neg ((hactive op).mp hop)]

theorem operations_agree_iff (controlType : ControlType) (systemLimit : ℤ) (hash : HashOrder)
    (outside : Surroundings) (app : LocalControlApplication) (h : ∀ rule ∈ rules, rule.Known) :
    (∃ core after,
      (CoreControlApplication.new controlType (rules.map convert) systemLimit hash).initializeOps = .ok core ∧
      LocalInterface.call outside core.localHandshakeRule { app with operationToChannelObject := ∅ } =
        .ok (after, ⟨1, ∅⟩) ∧
      Agree core rules app after) ↔
    channels rules ≠ [] ∧ ∀ raw ∈ channels rules, Decimal.InRange 32 raw.channelId := by
  have hinit := CoreControlApplication.initializeOps_convert h
    (CoreControlApplication.new controlType (rules.map convert) systemLimit hash) rfl
  have hsucceeds := LocalControlApplication.localHandshake_succeeds_iff h
    { app with operationToChannelObject := ∅ }
  constructor
  · rintro ⟨core, after, hcore, hcall, -⟩
    split at hinit
    case isTrue hnone =>
      rw [hinit] at hcore
      cases hcore
    case isFalse hsome =>
      obtain ⟨core', hinit, hrules, -⟩ := hinit
      rw [hinit] at hcore
      cases hcore
      rw [call_localHandshakeRule outside h hrules] at hcall
      refine ⟨hsome, hsucceeds.mp ?_⟩
      cases hrun : LocalControlApplication.localHandshake (rules.map convert)
          { app with operationToChannelObject := ∅ } with
      | ok app' => exact ⟨app', rfl⟩
      | error e =>
        rw [hrun] at hcall
        cases hcall
  · rintro ⟨hsome, hrange⟩
    rw [if_neg hsome] at hinit
    obtain ⟨core, hinit, hrules, hops⟩ := hinit
    obtain ⟨after, hrun⟩ := hsucceeds.mpr hrange
    obtain ⟨hsame, hgrown, hobjects⟩ := agree_of_localHandshake h hrules hops rfl hrun
    refine ⟨core, after, hinit, ?_, hsame, hgrown, hobjects⟩
    rw [call_localHandshakeRule outside h hrules, hrun]
    rfl

theorem operations_agree_two_rules :
    let rules := [createChannel ⟨2, 1, 2000, 1, 2000, 0, 96⟩, createObject ⟨3, 2, 2000, 1, 1, 0, 96, 1, 0, 0⟩]
    (∃ core after,
      (CoreControlApplication.new .static (rules.map convert) 100 .id).initializeOps = .ok core ∧
      LocalInterface.call ⟨fun _ => ⟨fun _ => none, fun _ => none⟩, .id, .id, .id⟩ core.localHandshakeRule
        { LocalControlApplication.new [] with operationToChannelObject := ∅ } = .ok (after, ⟨1, ∅⟩) ∧
      Agree core rules (.new []) after) ↔
    channels rules ≠ [] ∧ ∀ raw ∈ channels rules, Decimal.InRange 32 raw.channelId :=
  operations_agree_iff .static 100 .id _ (.new []) (by decide)

theorem operations_disagree :
    let wide := [createChannel ⟨1, 1, 2147483648, 1, 1000, 95, 0⟩]
    (∀ rule ∈ wide, rule.Known) ∧
    (∃ core, (CoreControlApplication.new .static (wide.map convert) 100 .id).initializeOps = .ok core ∧
      core.activeOps = ["data"] ∧
      LocalInterface.call ⟨fun _ => ⟨fun _ => none, fun _ => none⟩, .id, .id, .id⟩
      core.localHandshakeRule (.new []) =
        .error .invalidArgument) ∧
    (CoreControlApplication.new .static
      ([createObject ⟨3, 2, 2000, 1, 1, 95, 0, 1, 0, 0⟩].map convert) 100 .id).initializeOps =
        .error .missingToken := by
  intro wide
  have hknown : ∀ rule ∈ wide, rule.Known := by decide
  have hinit := CoreControlApplication.initializeOps_convert hknown
    (CoreControlApplication.new .static (wide.map convert) 100 .id) rfl
  obtain ⟨core, hcore, hrules, hops⟩ := hinit
  refine ⟨hknown, ⟨core, hcore, ?_, ?_⟩, ?_⟩
  · rw [hops]
    decide
  · have hrun : LocalControlApplication.localHandshake (wide.map convert) (.new []) =
      .error .invalidArgument := by
      decide
    rw [call_localHandshakeRule _ hknown hrules, hrun]
    rfl
  · have hobject : ∀ rule ∈ [createObject ⟨3, 2, 2000, 1, 1, 95, 0, 1, 0, 0⟩], rule.Known := by decide
    exact CoreControlApplication.initializeOps_convert hobject (.new .static _ 100 .id) rfl

end Agreement

end Cheferd
