import Cheferd.DataPlaneSession
import Cheferd.HandshakeAgreement
import Cheferd.Library.Lists
import Cheferd.LocalFeedbackLoop
import Cheferd.LoopSteps
import Cheferd.RulesFile

namespace Cheferd

open Library Strings RulesFileParser PaioInterface PolicyGenerator

namespace Controller

def registerHousekeepingRules (lines housekeepingRules : List String) : Except Fault (List String) := do
  let (hskCreateChannel, channels) ← pushCreateChannelRules (-1) lines []
  let (hskCreateObject, objects) ← pushCreateObjectRules (-1) lines []
  return housekeepingRules ++
    (hskCreateChannel.take channels.toNat).map convertHousekeepingCreateChannelString ++
    (hskCreateObject.take objects.toNat).map convertHousekeepingCreateObjectString

theorem registerHousekeepingRules_ok {lines housekeepingRules rules : List String}
    (h : registerHousekeepingRules lines housekeepingRules = .ok rules) :
    ∃ channels objects, getCreateChannelRules (-1) (readRules lines) = .ok channels ∧
      getCreateObjectRules (-1) (readRules lines) = .ok objects ∧
      rules = housekeepingRules ++
        (channels.map HousekeepingRule.createChannel ++ objects.map HousekeepingRule.createObject).map
          HousekeepingRule.convert := by
  obtain ⟨⟨channels, n⟩, hchannels, h⟩ := Fault.bind_eq_ok.mp h
  obtain ⟨⟨objects, m⟩, hobjects, h⟩ := Fault.bind_eq_ok.mp h
  cases h
  have hread : ∀ {α : Type} {rule : List String → Except Fault (Option α)} {x : List α × ℤ},
      pushRules rule 2147483647 (readRules lines) [] 0 = .ok x →
        getRules rule 2147483647 (readRules lines) 0 = .ok x.1 ∧ x.2.toNat = x.1.length := by
    intro α rule x hx
    rw [pushRules_eq] at hx
    cases hr : getRules rule 2147483647 (readRules lines) 0 with
    | error e =>
      rw [hr] at hx
      cases hx
    | ok xs =>
      rw [hr] at hx
      cases hx
      exact ⟨by simp, by simp⟩
  obtain ⟨hc, hn⟩ := hread hchannels
  obtain ⟨ho, hm⟩ := hread hobjects
  refine ⟨channels, objects, hc, ho, ?_⟩
  dsimp only at hn hm ⊢
  rw [hn, hm, List.take_length, List.take_length, List.map_append, List.map_map, List.map_map,
    List.append_assoc]
  rfl

end Controller

namespace HousekeepingRule

def raw : HousekeepingRule → HousekeepingCreateChannelRaw ⊕ HousekeepingCreateObjectRaw
  | createChannel raw => .inl raw
  | createObject raw => .inr raw

def atStage : HousekeepingRule → Except Fault (HousekeepingCreateChannelRaw ⊕ HousekeepingCreateObjectRaw)
  | createChannel raw => (channelAtStage raw).map .inl
  | createObject raw => (objectAtStage raw).map .inr

theorem map_eq_ok {α β : Type} {f : α → β} {x : Except Fault α} {b : β} :
    x.map f = .ok b ↔ ∃ a, x = .ok a ∧ f a = b := by
  cases x <;> simp [Except.map]

theorem map_eq_ok_apply {α β : Type} {f : α → β} (hf : f.Injective) {x : Except Fault α} {a : α} :
    x.map f = .ok (f a) ↔ x = .ok a := by
  simp only [map_eq_ok, hf.eq_iff, exists_eq_right]

def Clear (t : String) : Prop := '|' ∉ t.toList ∧ ':' ∉ t.toList

instance (t : String) : Decidable (Clear t) := inferInstanceAs (Decidable (_ ∧ _))

theorem Framed.clear {t : String} (h : Framed t) : Clear t := ⟨h.1.1, h.2⟩

theorem clear_differentiationName (v w : ℤ) : Clear (differentiationName v w) := by
  by_cases h : v ∈ contextTypeLabels.map Prod.snd
  · exact (framed_differentiationName h w).clear
  · have hkeys : ∀ e ∈ definitionNames, e.1 ∈ contextTypeLabels.map Prod.snd := by
      simp only [definitionNames, List.forall_mem_cons, List.not_mem_nil, false_implies, implies_true, and_true]
      decide
    have hnone : definitionNames.lookup v = none := by
      rw [List.lookup_eq_none_iff]
      intro e he
      have hne : v ≠ e.1 := fun hv => h (hv ▸ hkeys e he)
      simpa using hne
    have hempty : differentiationName v w = "" := by
      rw [differentiationName, switchValue, hnone]
      rfl
    rw [hempty]
    decide

theorem clear_tokens (rule : HousekeepingRule) : ∀ t ∈ rule.tokens, Clear t := by
  have hnumber := fun v : ℤ => (framed_toString v).clear
  cases rule with
  | createChannel raw =>
    simp only [tokens, channelTokens, List.forall_mem_cons, hnumber, (framed_contextTypeName _).clear,
      clear_differentiationName, true_and]
    decide
  | createObject raw =>
    simp only [tokens, objectTokens, List.forall_mem_cons, hnumber, (framed_contextTypeName _).clear,
      (framed_objectTypeName _).clear, clear_differentiationName, true_and]
    decide

theorem parse_convert (rule : HousekeepingRule) :
    PaioInterface.parseRule rule.convert = rule.tokens.filter (· ≠ "") := by
  rw [convert_eq]
  exact parseRule_terminated '|' "|" rfl _ fun t ht => (rule.clear_tokens t ht).1

def ruleId : HousekeepingRule → ℤ
  | createChannel raw => raw.ruleId.toNat
  | createObject raw => raw.ruleId

theorem exists_tokens (rule : HousekeepingRule) : ∃ rest, rule.tokens.filter (· ≠ "") =
    toString (4 : ℤ) :: toString rule.ruleId :: (match rule with
      | createChannel _ => "create_channel"
      | createObject _ => "create_object") :: rest := by
  cases rule with
  | createChannel raw =>
    exact ⟨_, by
      simp only [tokens, channelTokens, List.filter_cons, ne_eq, toString_ne_empty, not_false_eq_true,
        decide_true, if_true, String.reduceEq]
      rfl⟩
  | createObject raw =>
    exact ⟨_, by
      simp only [tokens, objectTokens, List.filter_cons, ne_eq, toString_ne_empty, not_false_eq_true,
        decide_true, if_true, String.reduceEq]
      rfl⟩

theorem plain_convert (rule : HousekeepingRule) : Plain ':' rule.convert := by
  constructor
  · rw [convert_eq]
    exact notMem_terminated ':' "|" (by decide) fun t ht => (rule.clear_tokens t ht).2
  · intro hempty
    obtain ⟨rest, htokens⟩ := rule.exists_tokens
    rw [← parse_convert, hempty, PaioInterface.parseRule, parseRule_nil] at htokens
    cases htokens

theorem createHousekeepingRule_convert (io : Exchange) (rule : HousekeepingRule) :
    createHousekeepingRule io rule.convert = rule.atStage.map fun raw => (some raw, acknowledged io) := by
  obtain ⟨rest, htokens⟩ := rule.exists_tokens
  have hparse := rule.parse_convert
  rw [htokens] at hparse
  cases rule with
  | createChannel raw =>
    have hfill : channelAtStage raw = fillCreateChannelRule
        (toString (4 : ℤ) :: toString (createChannel raw).ruleId :: "create_channel" :: rest) :=
      congrArg fillCreateChannelRule hparse
    have hkind : convertHousekeepingOperation "create_channel" = .createChannel := by decide
    simp only [createHousekeepingRule, hparse, token, List.getElem?_cons_succ, List.getElem?_cons_zero,
      Fault.ok_bind, hkind, atStage, hfill]
    cases fillCreateChannelRule _ <;> rfl
  | createObject raw =>
    have hfill : objectAtStage raw = fillCreateObjectRule
        (toString (4 : ℤ) :: toString (createObject raw).ruleId :: "create_object" :: rest) :=
      congrArg fillCreateObjectRule hparse
    have hkind : convertHousekeepingOperation "create_object" = .createObject := by decide
    simp only [createHousekeepingRule, hparse, token, List.getElem?_cons_succ, List.getElem?_cons_zero,
      Fault.ok_bind, hkind, atStage, hfill]
    cases fillCreateObjectRule _ <;> rfl

theorem ruleIdFits_of_channelAtStage {stagedRule : List String} {x y : HousekeepingCreateChannelRaw}
    (h : createChannelRule stagedRule = .ok (some x)) (hstage : channelAtStage x = .ok y) :
    RuleIdFits stagedRule := by
  obtain ⟨ruleId, _, _, hid, _, _, rfl⟩ := createChannelRule_eq_some h
  obtain ⟨rest, htokens⟩ := (createChannel _).exists_tokens
  rw [← parse_convert] at htokens
  unfold channelAtStage at hstage
  change PaioInterface.parseRule (convertHousekeepingCreateChannelString _) = _ at htokens
  rw [htokens] at hstage
  obtain ⟨t, ht, hstage⟩ := Fault.bind_eq_ok.mp hstage
  obtain ⟨v, hv, _⟩ := Fault.bind_eq_ok.mp hstage
  cases ht
  have hrange := (number_toString_eq_ok.mp hv).1
  have hread := number_inRange hid
  intro w hw
  cases hid.symm.trans hw
  by_contra hneg
  unfold Decimal.InRange at hrange hread
  simp only [HousekeepingRule.ruleId, UInt64.ofInt, UInt64.toNat_ofNat'] at hrange
  omega

theorem channel_arrives_iff {lines : List String} {totalRules : ℤ}
    {channels : List HousekeepingCreateChannelRaw}
    (hchannels : getCreateChannelRules totalRules (readRules lines) = .ok channels)
    {x y : HousekeepingCreateChannelRaw} (hx : x ∈ channels) (hstage : channelAtStage x = .ok y) :
    channelAtStage x = .ok x ↔ ∀ stagedRule ∈ readRules lines, createChannelRule stagedRule = .ok (some x) →
      Translatable (stagedRule.getD 3 "") (stagedRule.getD 5 "") (stagedRule.getD 6 "") := by
  constructor
  · intro hsame stagedRule _ hread
    exact (channel_round_trip_iff hread (ruleIdFits_of_channelAtStage hread hstage)).mp hsame
  · intro hlines
    obtain ⟨stagedRule, hline, hread⟩ := getRules_mem hchannels hx
    exact (channel_round_trip_iff hread (ruleIdFits_of_channelAtStage hread hstage)).mpr
      (hlines stagedRule hline hread)

theorem object_arrives_iff {lines : List String} {totalRules : ℤ} {objects : List HousekeepingCreateObjectRaw}
    (hobjects : getCreateObjectRules totalRules (readRules lines) = .ok objects)
    {x : HousekeepingCreateObjectRaw}
    (hx : x ∈ objects) :
    objectAtStage x = .ok x ↔ ∀ stagedRule ∈ readRules lines, createObjectRule stagedRule = .ok (some x) →
      Translatable (stagedRule.getD 4 "") (stagedRule.getD 5 "") (stagedRule.getD 6 "") := by
  constructor
  · intro hsame stagedRule _ hread
    exact (object_round_trip_iff hread).mp hsame
  · intro hlines
    obtain ⟨stagedRule, hline, hread⟩ := getRules_mem hobjects hx
    exact (object_round_trip_iff hread).mpr (hlines stagedRule hline hread)

end HousekeepingRule

namespace LocalFeedbackLoop

def Point.sending : Point → Option String
  | .submitted _ _ (rule :: _) => some rule
  | _ => none

def Point.acknowledged : Point → List String
  | .idle | .handshaken _ => []
  | .submitted _ acknowledged _ | .rejected _ acknowledged | .readying _ acknowledged
  | .connecting _ acknowledged _ => acknowledged

def Exchanged (s : Controller) : Move → Prop
  | .stage (.acknowledge value) => ∀ rule ∈ s.process.point.sending,
    ∃ io written, createHousekeepingRule io rule = .ok (written, value)
  | _ => True

def Delivers (s : Controller) (move : Move) : Prop := Counted s move ∧ Exchanged s move

def Taken (rule : String) (raw : HousekeepingCreateChannelRaw ⊕ HousekeepingCreateObjectRaw) : Prop :=
  ∃ io, createHousekeepingRule io rule = .ok (some raw, 1)

structure Received (s : Controller) : Prop where
  point : ∀ rule ∈ s.process.point.acknowledged, ∃ raw, Taken rule raw
  announced : ∀ a ∈ s.process.announced, ∀ rule ∈ a.acknowledged, ∃ raw, Taken rule raw

theorem exists_taken {io : Exchange} {rule : String}
    {written : Option (HousekeepingCreateChannelRaw ⊕ HousekeepingCreateObjectRaw)}
    (h : createHousekeepingRule io rule = .ok (written, 1)) : ∃ raw, Taken rule raw := by
  cases written with
  | some raw => exact ⟨raw, io, h⟩
  | none =>
    unfold createHousekeepingRule at h
    split at h
    · cases h
    · obtain ⟨kind, _, h⟩ := Fault.bind_eq_ok.mp h
      split at h
      · obtain ⟨raw, _, h⟩ := Fault.bind_eq_ok.mp h
        cases h
      · obtain ⟨raw, _, h⟩ := Fault.bind_eq_ok.mp h
        cases h
      · cases h

theorem Received.compare {s : Controller} (hs : Received s) {info : StageInfo} {acknowledged : List String}
    (hpoint : s.process.point.acknowledged = acknowledged) (installedRules : ℕ) :
    Received { s with process := s.process.compare info acknowledged installedRules } := by
  unfold LocalProcess.compare
  split
  · exact ⟨fun rule hr => hs.point rule (hpoint ▸ hr), hs.announced⟩
  · exact ⟨fun rule hr => absurd hr List.not_mem_nil, hs.announced⟩

theorem Received.stage {s : Controller} {action : Action} {process : LocalProcess}
    (h : s.process.step action = some process) (hexchanged : Exchanged s (.stage action)) (hs : Received s) :
    Received { s with process := process } := by
  have hnone : ∀ rule ∈ ([] : List String), ∃ raw, Taken rule raw := fun rule hr => absurd hr List.not_mem_nil
  have hpoint := hs.point
  unfold LocalProcess.step at h
  split at h
  case h_1 info hidle =>
    split at h <;> cases h
    refine ⟨?_, hs.announced⟩
    dsimp only
    split <;> exact hnone
  case h_2 info hp =>
    split at h <;> cases h
    exact ⟨hnone, hs.announced⟩
  case h_3 info acknowledged rule pending value hp =>
    split at h <;> cases h
    rw [hp] at hpoint
    refine ⟨?_, hs.announced⟩
    dsimp only
    split
    case isTrue hok =>
      intro other ho
      rcases List.mem_append.mp ho with ho | ho
      · exact hpoint other ho
      · obtain ⟨io, written, hwritten⟩ := hexchanged rule (by rw [hp]; rfl)
        rw [List.mem_singleton.mp ho]
        rw [hok] at hwritten
        exact exists_taken hwritten
    case isFalse => exact hpoint
  case h_4 info acknowledged hp =>
    split at h <;> cases h
    exact hs.compare (by rw [hp]; rfl) _
  case h_5 info acknowledged hp =>
    split at h <;> cases h
    exact hs.compare (by rw [hp]; rfl) _
  case h_6 info acknowledged value hp =>
    split at h <;> cases h
    rw [hp] at hpoint
    rw [markStageReady_submitted, if_pos rfl]
    exact ⟨hpoint, hs.announced⟩
  case h_7 info acknowledged ready hp =>
    cases h
    rw [hp] at hpoint
    refine ⟨hnone, fun a ha => ?_⟩
    rcases List.mem_cons.mp ha with rfl | ha
    · exact hpoint
    · exact hs.announced a ha
  case h_8 => cases h

theorem Received.step {s t : Controller} {move : Move} (h : s.step move = some t)
    (hexchanged : Exchanged s move)
    (hs : Received s) : Received t := by
  cases move with
  | stage action =>
    obtain ⟨process, hstep, rfl⟩ := Option.map_eq_some_iff.mp h
    exact hs.stage hstep hexchanged
  | push =>
    unfold Controller.step at h
    dsimp only at h
    split at h
    · cases h
    · split at h <;> cases h
      exact ⟨hs.point, hs.announced⟩

theorem received_reach {own rules : List String} {s : Controller} (h : (machine own rules).Reach Delivers s) :
    Received s :=
  h.invariant
    (fun s hs => by
      cases hs
      exact ⟨fun rule hr => absurd hr List.not_mem_nil, fun a ha => absurd ha List.not_mem_nil⟩)
    fun s t move hs hdelivers hstep => hs.step hstep hdelivers.2

theorem Taken.atStage {rule : HousekeepingRule}
    {raw : HousekeepingCreateChannelRaw ⊕ HousekeepingCreateObjectRaw}
    (h : Taken rule.convert raw) : rule.atStage = .ok raw := by
  obtain ⟨io, hio⟩ := h
  rw [HousekeepingRule.createHousekeepingRule_convert] at hio
  cases hstage : rule.atStage with
  | error e =>
    rw [hstage] at hio
    cases hio
  | ok other =>
    rw [hstage] at hio
    obtain ⟨hsame, _⟩ := Prod.mk.inj (Except.ok.inj hio)
    rw [Option.some.inj hsame]

theorem housekeeping_delivered {controlType : ControlType} {systemLimit : ℤ} {hash : HashOrder}
    {core : CoreControlApplication} {lines rules : List String} {s : Controller} {a : Announcement}
    (hfile : Cheferd.Controller.registerHousekeepingRules lines [] = .ok rules)
    (hcore : (CoreControlApplication.new controlType rules systemLimit hash).initializeOps = .ok core)
    (h : (machine [] (LocalInterface.fillHousekeepingRules core.localHandshakeRule)).Reach Delivers s)
    (ha : a ∈ s.process.announced) :
    ∃ channels objects received, getCreateChannelRules (-1) (readRules lines) = .ok channels ∧
      getCreateObjectRules (-1) (readRules lines) = .ok objects ∧ List.Forall₂ Taken a.acknowledged received ∧
      received.length = channels.length + objects.length ∧
      (received = channels.map .inl ++ objects.map .inr ↔
        (∀ x ∈ channels, ∀ stagedRule ∈ readRules lines, createChannelRule stagedRule = .ok (some x) →
          Translatable (stagedRule.getD 3 "") (stagedRule.getD 5 "") (stagedRule.getD 6 "")) ∧
        ∀ x ∈ objects, ∀ stagedRule ∈ readRules lines, createObjectRule stagedRule = .ok (some x) →
          Translatable (stagedRule.getD 4 "") (stagedRule.getD 5 "") (stagedRule.getD 6 "")) := by
  obtain ⟨channels, objects, hchannels, hobjects, hrules⟩ := Controller.registerHousekeepingRules_ok hfile
  rw [List.nil_append] at hrules
  have hsent : core.housekeepingRules = rules := by
    obtain ⟨_, _, rfl⟩ := FeedbackLoop.initializeOps_ok hcore
    rfl
  have hplain : ∀ rule ∈ core.housekeepingRules, Plain ':' rule := by
    rw [hsent, hrules, List.forall_mem_map]
    exact fun rule _ => rule.plain_convert
  rw [LocalInterface.fillHousekeepingRules_frame hplain, hsent] at h
  have hacknowledged : a.acknowledged = rules := (installed_reach (fun _ _ => And.left) h).announced a ha
  obtain ⟨received, hreceived⟩ := Lists.exists_forall₂ ((received_reach h).announced a ha)
  have hstage := hreceived
  rw [hacknowledged, hrules, List.forall₂_map_left_iff] at hstage
  have hread := hstage.imp fun rule raw htaken => Taken.atStage htaken
  have hlength := hread.length_eq
  simp only [List.length_append, List.length_map] at hlength
  refine ⟨channels, objects, received, hchannels, hobjects, hreceived, hlength.symm, ?_⟩
  have hraws : channels.map .inl ++ objects.map .inr =
      (channels.map HousekeepingRule.createChannel ++ objects.map HousekeepingRule.createObject).map
        HousekeepingRule.raw := by
    rw [List.map_append, List.map_map, List.map_map]
    rfl
  rw [hraws, Lists.eq_map_iff_of_forall₂ hread, List.forall_mem_append, List.forall_mem_map,
    List.forall_mem_map]
  refine and_congr (forall₂_congr fun x hx => ?_) (forall₂_congr fun x hx => ?_)
  · have hsubmitted : (HousekeepingRule.createChannel x).convert ∈ a.acknowledged := by
      rw [hacknowledged, hrules]
      exact List.mem_map_of_mem (List.mem_append_left _ (List.mem_map_of_mem hx))
    obtain ⟨raw, htaken⟩ := (received_reach h).announced a ha _ hsubmitted
    have hraw := htaken.atStage
    rw [HousekeepingRule.atStage, HousekeepingRule.map_eq_ok] at hraw
    obtain ⟨y, hy, -⟩ := hraw
    rw [← HousekeepingRule.channel_arrives_iff hchannels hx hy, HousekeepingRule.atStage, HousekeepingRule.raw,
      HousekeepingRule.map_eq_ok_apply Sum.inl_injective]
  · rw [← HousekeepingRule.object_arrives_iff hobjects hx, HousekeepingRule.atStage, HousekeepingRule.raw,
      HousekeepingRule.map_eq_ok_apply Sum.inr_injective]

def connected (acknowledgement : ℤ) : Exchange where
  operationWritten := true
  ruleWritten := true
  acknowledgement := some acknowledgement
  removal := none
  identity := ⟨"", "", 0, 0⟩
  totalRate := none

def Undamaged (s : Controller) (move : Move) : Prop :=
  Counted s move ∧ match move with
    | .stage (.acknowledge value) => ∀ rule ∈ s.process.point.sending,
      (createHousekeepingRule (connected value) rule).toOption.any (·.2 = value) = true
    | _ => True

instance : ∀ s move, Decidable (Undamaged s move)
  | _, .stage (.acknowledge _) => inferInstanceAs (Decidable (_ ∧ ∀ rule ∈ _, _))
  | _, .stage .count | _, .stage (.ready _) | _, .stage (.handshake _) | _, .stage .submit | _, .stage .connect
  | _, .push => inferInstanceAs (Decidable (_ ∧ True))

theorem Undamaged.delivers {s : Controller} {move : Move} (h : Undamaged s move) : Delivers s move := by
  refine ⟨h.1, ?_⟩
  unfold Exchanged
  split
  case h_1 value =>
    intro rule hr
    have hvalue : (createHousekeepingRule (connected value) rule).toOption.any (·.2 = value) = true :=
      h.2 rule hr
    cases hx : createHousekeepingRule (connected value) rule with
    | error e =>
      rw [hx] at hvalue
      cases hvalue
    | ok x =>
      rw [hx] at hvalue
      obtain rfl : x.2 = value := of_decide_eq_true hvalue
      exact ⟨connected x.2, x.1, hx⟩
  case h_2 => trivial

def channelAndObject : List String :=
  ["1 create_channel 1000 posix 1000 read no_op", "1 create_object 1000 1 posix read no_op drl 100 10"]

def deliveredRules : List String :=
  ["4|1|create_channel|1000|posix|1000|read|no_op|", "4|1|create_object|1000|1|posix|read|no_op|drl|100|10|"]

def deliveringCore : CoreControlApplication :=
  { CoreControlApplication.new .static deliveredRules 100 .id with
    activeOps := ["read"]
    activeOp := "read" }

theorem housekeeping_delivered_two_rules :
    ∃ s a, (machine [] deliveredRules).Reach Delivers s ∧ a ∈ s.process.announced ∧
      List.Forall₂ Taken a.acknowledged
        [.inl ⟨1, 1, 1000, 1, 1000, 1, 0⟩, .inr ⟨1, 2, 1000, 1, 1, 1, 0, 1, 100, 10⟩] := by
  have hfile : Cheferd.Controller.registerHousekeepingRules channelAndObject [] = .ok deliveredRules := by
    decide +kernel
  have hcore : (CoreControlApplication.new .static deliveredRules 100 .id).initializeOps = .ok deliveringCore :=
    rfl
  have hsent : LocalInterface.fillHousekeepingRules deliveringCore.localHandshakeRule = deliveredRules := by
    decide +kernel
  obtain ⟨s, hs, hannounced⟩ : ∃ s, (machine [] deliveredRules).Reach Undamaged s ∧
      s.process.announced.length = 1 :=
    (Machine.Reach.start (rfl : (machine [] deliveredRules).start _)).of_exec (connection [.push, .push] 1)
      (by decide +kernel)
  have hreach := hs.mono fun s move => Undamaged.delivers
  obtain ⟨a, ha⟩ := List.exists_mem_of_length_pos (by omega : 0 < s.process.announced.length)
  obtain ⟨channels, objects, received, hchannels, hobjects, hreceived, -, hsame⟩ :=
    housekeeping_delivered hfile hcore (hsent.symm ▸ hreach) ha
  have hc : getCreateChannelRules (-1) (readRules channelAndObject) =
      .ok [⟨1, 1, 1000, 1, 1000, 1, 0⟩] := by decide +kernel
  have ho : getCreateObjectRules (-1) (readRules channelAndObject) =
      .ok [⟨1, 2, 1000, 1, 1, 1, 0, 1, 100, 10⟩] := by decide +kernel
  cases hc.symm.trans hchannels
  cases ho.symm.trans hobjects
  refine ⟨s, a, hreach, ha, ?_⟩
  rw [show ([.inl ⟨1, 1, 1000, 1, 1000, 1, 0⟩, .inr ⟨1, 2, 1000, 1, 1, 1, 0, 1, 100, 10⟩] : List _) =
    received from
    (hsame.mpr ⟨?_, ?_⟩).symm]
  · exact hreceived
  · unfold Translatable KnownContext OneWay
    decide +kernel
  · unfold Translatable KnownContext OneWay
    decide +kernel

end LocalFeedbackLoop

end Cheferd
