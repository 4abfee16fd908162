import Cheferd.PolicyGenerator

namespace Cheferd.RulesFileParser

open Library Strings PaioInterface PolicyGenerator

def posixOneWay : List String :=
  ["fread", "fwrite", "open64", "creat", "creat64", "openat", "fsync", "fdatasync", "syncfs",
   "truncate", "ftruncate", "truncate64", "ftruncate64", "xstat", "lxstat", "fxstat", "xstat64",
   "lxstat64", "fxstat64", "fxstatat", "fxstatat64", "fstatfs", "statfs64", "fstatfs64", "link",
   "linkat", "unlinkat", "renameat", "symlink", "symlinkat", "readlink", "readlinkat", "fopen",
   "fopen64", "freopen", "freopen64", "fclose", "fflush", "access", "faccessat", "lseek",
   "lseek64", "fseek", "fseek64", "ftell", "fseeko", "fseeko64", "ftello", "ftello64", "mkdirat",
   "opendir", "readdir", "readdir64", "fdopendir", "closedir", "dirfd", "lgetxattr", "fgetxattr",
   "lsetxattr", "fsetxattr", "removexattr", "lremovexattr", "fremovexattr", "listxattr",
   "llistxattr", "flistxattr", "chmod", "fchmod", "fchmodat", "chown", "fchown", "fchownat",
   "lchown"]

def kvsOneWay : List String := ["delete"]

/-- The POSIX labels without a name of their own and `delete`, whose name is not its label. -/
def OneWay (context definition : String) : Prop :=
  (hash context = hash "posix" ∧ ∃ t ∈ posixOneWay, hash t = hash definition) ∨
    (hash context = hash "kvs" ∧ ∃ t ∈ kvsOneWay, hash t = hash definition)

def KnownContext (context : String) : Prop := ∃ e ∈ contextTypeLabels, hash e.1 = hash context

def reread (labels : List (String × ℤ)) (names : List (ℤ × String)) (v : ℤ) : UInt32 :=
  UInt32.ofInt (switchHash labels 0 (switchValue names "no_op" (UInt32.ofInt v).toInt32.toInt))

theorem reread_iff {labels : List (String × ℤ)} {names : List (ℤ × String)} {oneWay : List String}
    (hlabels : ∀ e ∈ labels,
      (reread labels names e.2 = UInt32.ofInt e.2 ↔ ∀ t ∈ oneWay, hash t ≠ hash e.1))
    (hdefault : reread labels names 0 = UInt32.ofInt 0)
    (hone : ∀ t ∈ oneWay, t ∈ labels.map Prod.fst) (s : String) :
    reread labels names (switchHash labels 0 s) = UInt32.ofInt (switchHash labels 0 s) ↔
      ∀ t ∈ oneWay, hash t ≠ hash s := by
  rcases switchHash_mem labels 0 s with ⟨e, he, hs, hv⟩ | ⟨hne, hv⟩
  · rw [hv, hlabels e he, hs]
  · rw [hv]
    refine ⟨fun _ t ht => ?_, fun _ => hdefault⟩
    obtain ⟨e, he, rfl⟩ := List.mem_map.mp (hone t ht)
    exact hne e he

theorem posix_reread_iff (s : String) :
    reread posixLabels posixNames (convertPosixDefinitions s) =
      UInt32.ofInt (convertPosixDefinitions s) ↔ ∀ t ∈ posixOneWay, hash t ≠ hash s :=
  reread_iff (by decide +kernel) (by decide +kernel) (by decide +kernel) s

theorem kvs_reread_iff (s : String) :
    reread kvsLabels kvsNames (convertKvsDefinitions s) = UInt32.ofInt (convertKvsDefinitions s) ↔
      ∀ t ∈ kvsOneWay, hash t ≠ hash s :=
  reread_iff (by decide +kernel) (by decide +kernel) (by decide +kernel) s

theorem reread_eq (labels : List (String × ℤ)) (names : List (ℤ × String))
    (hlabels : ∀ e ∈ labels, reread labels names e.2 = UInt32.ofInt e.2)
    (hdefault : reread labels names 0 = UInt32.ofInt 0) (s : String) :
    reread labels names (switchHash labels 0 s) = UInt32.ofInt (switchHash labels 0 s) :=
  (reread_iff (fun e he => iff_of_true (hlabels e he) (List.forall_mem_nil _)) hdefault
    (List.forall_mem_nil _) s).mpr (List.forall_mem_nil _)

theorem convert_congr {context label : String} (h : hash context = hash label) :
    convertContextTypeDefinition context = convertContextTypeDefinition label ∧
      convertDifferentiationDefinitions context = convertDifferentiationDefinitions label :=
  ⟨switchHash_congr _ _ h, switchHash_congr _ _ h⟩

def definitionAtStage (context definition : String) : UInt32 :=
  UInt32.ofInt <|
    convertDifferentiationDefinitions (contextTypeName (convertContextTypeDefinition context)) <|
      differentiationName (convertContextTypeDefinition context)
        (UInt32.ofInt (convertDifferentiationDefinitions context definition)).toInt32.toInt

theorem oneWay_other {context label : String} (h : hash label = hash context)
    (hp : hash label ≠ hash "posix") (hk : hash label ≠ hash "kvs") (definition : String) :
    ¬ OneWay context definition := by
  rintro (⟨hc, _⟩ | ⟨hc, _⟩)
  · exact hp (h.trans hc)
  · exact hk (h.trans hc)

theorem definitionAtStage_label (label : String) (convert : String → ℤ) (i : ℤ) (name : ℤ → String)
    (hconvert : (label, convert) ∈ definitionConversions)
    (htype : convertContextTypeDefinition label = i) (hlabel : contextTypeName i = label)
    (hname : differentiationName i = name) (definition : String) :
    (definitionAtStage label definition =
        UInt32.ofInt (convertDifferentiationDefinitions label definition)) =
      (UInt32.ofInt (convert (name (UInt32.ofInt (convert definition)).toInt32.toInt)) =
        UInt32.ofInt (convert definition)) := by
  have hc : convertDifferentiationDefinitions label = convert :=
    switchHash_label (e := (label, convert)) _ (by decide) hconvert
  rw [definitionAtStage, htype, hlabel, hname, hc]

theorem definitionAtStage_iff {context : String} (hk : KnownContext context) (definition : String) :
    definitionAtStage context definition =
        UInt32.ofInt (convertDifferentiationDefinitions context definition) ↔
      ¬ OneWay context definition := by
  obtain ⟨e, he, hc⟩ := hk
  obtain ⟨htype, hdiff⟩ := convert_congr hc.symm
  have hcong : definitionAtStage context definition = definitionAtStage e.1 definition := by
    rw [definitionAtStage, definitionAtStage, htype, hdiff]
  rw [hcong, hdiff]
  simp only [contextTypeLabels, List.mem_cons, List.not_mem_nil, or_false] at he
  rcases he with rfl | rfl | rfl | rfl | rfl | rfl
  · rw [definitionAtStage_label "general" convertPaioGeneralDefinitions 0 paioGeneralName
      (by simp [definitionConversions]) (by decide) (by decide) rfl]
    exact iff_of_true (reread_eq paioGeneralLabels paioGeneralNames (by decide) (by decide) definition)
      (oneWay_other hc (by decide) (by decide) definition)
  · rw [definitionAtStage_label "posix" convertPosixDefinitions 1 posixName
      (by simp [definitionConversions]) (by decide) (by decide) rfl]
    refine (posix_reread_iff definition).trans ?_
    have hne : hash "posix" ≠ hash "kvs" := by decide
    simp [OneWay, ← hc, hne]
  · rw [definitionAtStage_label "posix_meta" convertPosixMetaDefinitions 2 posixMetaName
      (by simp [definitionConversions]) (by decide) (by decide) rfl]
    exact iff_of_true (reread_eq posixMetaLabels posixMetaNames (by decide) (by decide) definition)
      (oneWay_other hc (by decide) (by decide) definition)
  · rw [definitionAtStage_label "lsm_kvs_simple" convertPosixLsmSimpleDefinitions 3 posixLsmSimpleName
      (by simp [definitionConversions]) (by decide) (by decide) rfl]
    exact iff_of_true (reread_eq lsmKvsSimpleLabels lsmKvsSimpleNames (by decide) (by decide) definition)
      (oneWay_other hc (by decide) (by decide) definition)
  · rw [definitionAtStage_label "lsm_kvs_detailed" convertPosixLsmDetailedDefinitions 4
      posixLsmDetailedName (by simp [definitionConversions]) (by decide) (by decide) rfl]
    exact iff_of_true
      (reread_eq lsmKvsDetailedLabels lsmKvsDetailedNames (by decide) (by decide) definition)
      (oneWay_other hc (by decide) (by decide) definition)
  · rw [definitionAtStage_label "kvs" convertKvsDefinitions 5 kvsName
      (by simp [definitionConversions]) (by decide) (by decide) rfl]
    refine (kvs_reread_iff definition).trans ?_
    have hne : hash "kvs" ≠ hash "posix" := by decide
    simp [OneWay, ← hc, hne]

theorem switchValue_mem (names : List (ℤ × String)) (default : String) (v : ℤ) :
    switchValue names default v ∈ default :: names.map Prod.snd := by
  unfold switchValue
  cases hl : names.lookup v with
  | none => exact List.mem_cons_self
  | some t =>
    obtain ⟨pre, post, rfl, _⟩ := List.lookup_eq_some_iff.mp hl
    simp

theorem createChannelRule_eq_some {stagedRule : List String} {x : HousekeepingCreateChannelRaw}
    (h : createChannelRule stagedRule = .ok (some x)) :
    ∃ ruleId channelId workflowId, stoll (stagedRule.getD 0 "") = .ok ruleId ∧
      stol (stagedRule.getD 2 "") = .ok channelId ∧ stol (stagedRule.getD 4 "") = .ok workflowId ∧
      x = { ruleId := UInt64.ofInt ruleId
            ruleType := 1
            channelId := channelId
            contextDefinition := convertContextTypeDefinition (stagedRule.getD 3 "")
            workflowId := UInt32.ofInt workflowId
            operationType := UInt32.ofInt
              (convertDifferentiationDefinitions (stagedRule.getD 3 "") (stagedRule.getD 5 ""))
            operationContext := UInt32.ofInt
              (convertDifferentiationDefinitions (stagedRule.getD 3 "") (stagedRule.getD 6 "")) } := by
  unfold createChannelRule at h
  obtain ⟨o, _, h⟩ := Fault.bind_eq_ok.mp h
  dsimp only at h
  split at h
  · cases h
  · simp only [Fault.bind_eq_ok] at h
    obtain ⟨c, hc, t0, h0, ruleId, hid, t2, h2, channelId, hch, t4, h4, workflowId, hw, t5, h5,
      t6, h6, h⟩ := h
    cases h
    refine ⟨ruleId, channelId, workflowId, ?_, ?_, ?_, ?_⟩
    · rw [token_getD h0, hid]
    · rw [token_getD h2, hch]
    · rw [token_getD h4, hw]
    · rw [token_getD hc, token_getD h5, token_getD h6]
      rfl

theorem contextTypeName_mem (v : ℤ) : contextTypeName v ∈ "noop" :: contextTypeNames.map Prod.snd :=
  switchValue_mem contextTypeNames "noop" v

theorem contextTypeName_plain (v : ℤ) : Plain '|' (contextTypeName v) := by
  have hall : ∀ t ∈ "noop" :: contextTypeNames.map Prod.snd, Plain '|' t := by decide
  exact hall _ (contextTypeName_mem v)

def writtenNames : List String :=
  "no_op" :: (paioGeneralNames ++ posixNames ++ posixMetaNames ++ lsmKvsSimpleNames ++
    lsmKvsDetailedNames ++ kvsNames).map Prod.snd

theorem differentiationName_mem {context : String} (hk : KnownContext context) (v : ℤ) :
    differentiationName (convertContextTypeDefinition context) v ∈ writtenNames := by
  have hwritten : ∀ names : List (ℤ × String), (∀ e ∈ names, e.2 ∈ writtenNames) →
      switchValue names "no_op" v ∈ writtenNames := by
    intro names hnames
    rcases List.mem_cons.mp (switchValue_mem names "no_op" v) with h | h
    · rw [h]
      exact List.mem_cons_self
    · obtain ⟨e, he, hv⟩ := List.mem_map.mp h
      rw [← hv]
      exact hnames e he
  obtain ⟨e, he, hc⟩ := hk
  rw [(convert_congr hc.symm).1]
  simp only [contextTypeLabels, List.mem_cons, List.not_mem_nil, or_false] at he
  rcases he with rfl | rfl | rfl | rfl | rfl | rfl
  · exact hwritten paioGeneralNames (by decide)
  · exact hwritten posixNames (by decide)
  · exact hwritten posixMetaNames (by decide)
  · exact hwritten lsmKvsSimpleNames (by decide)
  · exact hwritten lsmKvsDetailedNames (by decide)
  · exact hwritten kvsNames (by decide)

theorem differentiationName_plain {context : String} (hk : KnownContext context) (v : ℤ) :
    Plain '|' (differentiationName (convertContextTypeDefinition context) v) := by
  have hall : ∀ t ∈ writtenNames, Plain '|' t := by decide
  exact hall _ (differentiationName_mem hk v)

theorem unknownContext {context : String} (hk : ¬ KnownContext context) :
    convertContextTypeDefinition context = -1 := by
  rcases switchHash_mem contextTypeLabels (-1) context with ⟨e, he, hs, _⟩ | ⟨_, hv⟩
  · exact absurd ⟨e, he, hs⟩ hk
  · exact hv

theorem contextType_reread {context : String} (hk : KnownContext context) :
    convertContextTypeDefinition (contextTypeName (convertContextTypeDefinition context)) =
      convertContextTypeDefinition context := by
  obtain ⟨e, he, hc⟩ := hk
  have hall : ∀ e ∈ contextTypeLabels, convertContextTypeDefinition
      (contextTypeName (convertContextTypeDefinition e.1)) = convertContextTypeDefinition e.1 := by
    decide
  rw [(convert_congr hc.symm).1, hall e he]

theorem toString_plain (v : ℤ) : Plain '|' (toString v) := plain_toString '|' v (by decide) (by decide)

theorem stol_toString {v : ℤ} (h : Decimal.InRange 64 v) : stol (toString v) = .ok v :=
  number_toString 64 v h

theorem ruleId_toNat {v : ℤ} (h : Decimal.InRange 64 v) (hv : 0 ≤ v) :
    ((UInt64.ofInt v).toNat : ℤ) = v := by
  unfold Decimal.InRange at h
  simp only [UInt64.ofInt, UInt64.toNat_ofNat']
  omega

theorem workflowId_ofInt (w : UInt32) : UInt32.ofInt (w.toNat : ℤ) = w := by
  have := w.toNat_lt
  rw [← UInt32.toNat_inj]
  simp only [UInt32.ofInt, UInt32.toNat_ofNat']
  omega

theorem workflowId_inRange (w : UInt32) : Decimal.InRange 64 (w.toNat : ℤ) := by
  have := w.toNat_lt
  unfold Decimal.InRange
  omega

def channelTokens (x : HousekeepingCreateChannelRaw) : List String :=
  [toString (4 : ℤ), toString (x.ruleId.toNat : ℤ), "create_channel", toString x.channelId,
    contextTypeName x.contextDefinition, toString (x.workflowId.toNat : ℤ),
    differentiationName x.contextDefinition x.operationType.toInt32.toInt,
    differentiationName x.contextDefinition x.operationContext.toInt32.toInt]

theorem channelString_eq (x : HousekeepingCreateChannelRaw) :
    convertHousekeepingCreateChannelString x = terminated "|" (channelTokens x) := by
  unfold convertHousekeepingCreateChannelString channelTokens terminated
  simp only [List.foldr_cons, List.foldr_nil, String.append_empty]
  simp only [String.append_assoc]

theorem channelAtStage_known {context : String} (hk : KnownContext context) (ruleId channelId : ℤ)
    (hid : Decimal.InRange 64 ruleId) (hpos : 0 ≤ ruleId) (hch : Decimal.InRange 64 channelId)
    (workflowId : UInt32) (d₁ d₂ : String) :
    channelAtStage
        { ruleId := UInt64.ofInt ruleId
          ruleType := 1
          channelId := channelId
          contextDefinition := convertContextTypeDefinition context
          workflowId := workflowId
          operationType := UInt32.ofInt (convertDifferentiationDefinitions context d₁)
          operationContext := UInt32.ofInt (convertDifferentiationDefinitions context d₂) } =
      .ok
        { ruleId := UInt64.ofInt ruleId
          ruleType := 1
          channelId := channelId
          contextDefinition := convertContextTypeDefinition context
          workflowId := workflowId
          operationType := definitionAtStage context d₁
          operationContext := definitionAtStage context d₂ } := by
  rw [channelAtStage, channelString_eq, PaioInterface.parseRule, parseRule_plain '|' "|" (by decide)]
  · simp only [channelTokens, fillCreateChannelRule, token, List.getElem?_cons_succ,
      List.getElem?_cons_zero, ruleId_toNat hid hpos, Fault.ok_bind, stol_toString hid,
      stol_toString hch, stol_toString (workflowId_inRange workflowId), workflowId_ofInt,
      contextType_reread hk, pure, Except.pure, definitionAtStage, HousekeepingOperation.toInt]
  · simp only [channelTokens, List.forall_mem_cons, toString_plain, contextTypeName_plain,
      differentiationName_plain hk, true_and]
    decide

theorem channelAtStage_unknown {x : HousekeepingCreateChannelRaw} (hx : x.contextDefinition = -1)
    (y : HousekeepingCreateChannelRaw) : channelAtStage x ≠ .ok y := by
  have hnone : ∀ v : ℤ, differentiationName (-1) v = "" := fun _ => rfl
  have hchars : ∀ t ∈ channelTokens x, '|' ∉ t.toList := by
    simp only [channelTokens, hx, hnone, List.forall_mem_cons, (toString_plain _).1,
      (contextTypeName_plain _).1, not_false_eq_true, true_and]
    decide
  have htokens : (channelTokens x).filter (· ≠ "") =
      [toString (4 : ℤ), toString (x.ruleId.toNat : ℤ), "create_channel", toString x.channelId,
        contextTypeName (-1), toString (x.workflowId.toNat : ℤ)] := by
    simp only [channelTokens, hx, hnone, List.filter_cons, List.filter_nil, ne_eq, toString_ne_empty,
      (contextTypeName_plain _).2, String.reduceEq, not_false_eq_true, not_true_eq_false, decide_true,
      decide_false, if_true, Bool.false_eq_true, if_false]
  intro h
  rw [channelAtStage, channelString_eq, PaioInterface.parseRule,
    parseRule_terminated '|' "|" (by decide) _ hchars, htokens] at h
  simp [fillCreateChannelRule, Fault.bind_eq_ok, token_eq_ok] at h

def Translatable (context operationType operationContext : String) : Prop :=
  KnownContext context ∧ ¬ OneWay context operationType ∧ ¬ OneWay context operationContext

/-- The field is unsigned, and what `stoll` returns is below `2 ^ 63`. -/
def RuleIdFits (stagedRule : List String) : Prop := ∀ v, stoll (stagedRule.getD 0 "") = .ok v → 0 ≤ v

theorem channel_round_trip_iff {stagedRule : List String} {x : HousekeepingCreateChannelRaw}
    (h : createChannelRule stagedRule = .ok (some x))
    (hid : RuleIdFits stagedRule) :
    channelAtStage x = .ok x ↔
      Translatable (stagedRule.getD 3 "") (stagedRule.getD 5 "") (stagedRule.getD 6 "") := by
  obtain ⟨ruleId, channelId, workflowId, hr, hc, _, rfl⟩ := createChannelRule_eq_some h
  by_cases hk : KnownContext (stagedRule.getD 3 "")
  · rw [channelAtStage_known hk ruleId channelId (number_inRange hr) (hid _ hr) (number_inRange hc),
      Translatable, ← definitionAtStage_iff hk, ← definitionAtStage_iff hk]
    simp only [Except.ok.injEq, HousekeepingCreateChannelRaw.mk.injEq, true_and, hk]
  · exact iff_of_false (channelAtStage_unknown (unknownContext hk) _) fun ht => hk ht.1

theorem createObjectRule_eq_some {stagedRule : List String} {x : HousekeepingCreateObjectRaw}
    (h : createObjectRule stagedRule = .ok (some x)) :
    ∃ ruleId channelId enforcementObjectId propertyFirst propertySecond,
      stoll (stagedRule.getD 0 "") = .ok ruleId ∧ stol (stagedRule.getD 2 "") = .ok channelId ∧
      stol (stagedRule.getD 3 "") = .ok enforcementObjectId ∧
      stol (stagedRule.getD 8 "") = .ok propertyFirst ∧
      stol (stagedRule.getD 9 "") = .ok propertySecond ∧
      x = { ruleId := ruleId
            ruleType := 2
            channelId := channelId
            enforcementObjectId := enforcementObjectId
            contextDefinition := convertContextTypeDefinition (stagedRule.getD 4 "")
            operationType := UInt32.ofInt
              (convertDifferentiationDefinitions (stagedRule.getD 4 "") (stagedRule.getD 5 ""))
            operationContext := UInt32.ofInt
              (convertDifferentiationDefinitions (stagedRule.getD 4 "") (stagedRule.getD 6 ""))
            enforcementObjectType := (convertObjectType (stagedRule.getD 7 "")).toInt
            propertyFirst := propertyFirst
            propertySecond := propertySecond } := by
  unfold createObjectRule at h
  obtain ⟨o, _, h⟩ := Fault.bind_eq_ok.mp h
  dsimp only at h
  split at h
  · cases h
  · simp only [Fault.bind_eq_ok] at h
    obtain ⟨c, hc, t0, h0, ruleId, hid, t2, h2, channelId, hch, t3, h3, objectId, hob, t5, h5, t6, h6,
      t7, h7, t8, h8, first, hf, t9, h9, second, hs, h⟩ := h
    cases h
    refine ⟨ruleId, channelId, objectId, first, second, ?_, ?_, ?_, ?_, ?_, ?_⟩
    · rw [token_getD h0, hid]
    · rw [token_getD h2, hch]
    · rw [token_getD h3, hob]
    · rw [token_getD h8, hf]
    · rw [token_getD h9, hs]
    · rw [token_getD hc, token_getD h5, token_getD h6, token_getD h7]
      rfl

def objectTokens (x : HousekeepingCreateObjectRaw) : List String :=
  [toString (4 : ℤ), toString x.ruleId, "create_object", toString x.channelId,
    toString x.enforcementObjectId, contextTypeName x.contextDefinition,
    differentiationName x.contextDefinition x.operationType.toInt32.toInt,
    differentiationName x.contextDefinition x.operationContext.toInt32.toInt,
    objectTypeName x.enforcementObjectType, toString x.propertyFirst, toString x.propertySecond]

theorem objectString_eq (x : HousekeepingCreateObjectRaw) :
    convertHousekeepingCreateObjectString x = terminated "|" (objectTokens x) := by
  unfold convertHousekeepingCreateObjectString objectTokens terminated
  simp only [List.foldr_cons, List.foldr_nil, String.append_empty]
  simp only [String.append_assoc]

theorem objectTypeName_plain (v : ℤ) : Plain '|' (objectTypeName v) := by
  unfold objectTypeName
  split <;> decide

theorem objectType_reread (objectType : EnforcementObjectType) :
    convertObjectType (objectTypeName objectType.toInt) = objectType := by
  cases objectType <;> decide

theorem objectAtStage_known {context : String} (hk : KnownContext context)
    {ruleId channelId objectId first second : ℤ} (hid : Decimal.InRange 64 ruleId)
    (hch : Decimal.InRange 64 channelId) (hob : Decimal.InRange 64 objectId)
    (hf : Decimal.InRange 64 first) (hs : Decimal.InRange 64 second)
    (objectType : EnforcementObjectType) (d₁ d₂ : String) :
    objectAtStage
        { ruleId := ruleId
          ruleType := 2
          channelId := channelId
          enforcementObjectId := objectId
          contextDefinition := convertContextTypeDefinition context
          operationType := UInt32.ofInt (convertDifferentiationDefinitions context d₁)
          operationContext := UInt32.ofInt (convertDifferentiationDefinitions context d₂)
          enforcementObjectType := objectType.toInt
          propertyFirst := first
          propertySecond := second } =
      .ok
        { ruleId := ruleId
          ruleType := 2
          channelId := channelId
          enforcementObjectId := objectId
          contextDefinition := convertContextTypeDefinition context
          operationType := definitionAtStage context d₁
          operationContext := definitionAtStage context d₂
          enforcementObjectType := objectType.toInt
          propertyFirst := first
          propertySecond := second } := by
  have hplain : ∀ x : HousekeepingCreateObjectRaw,
      x.contextDefinition = convertContextTypeDefinition context →
        PaioInterface.parseRule (convertHousekeepingCreateObjectString x) = objectTokens x := by
    intro x hx
    rw [objectString_eq]
    refine parseRule_plain '|' "|" (by decide) _ ?_
    simp only [objectTokens, hx, List.forall_mem_cons, toString_plain, contextTypeName_plain,
      differentiationName_plain hk, objectTypeName_plain, true_and]
    decide
  simp only [objectAtStage, hplain, objectTokens, fillCreateObjectRule, token,
    List.getElem?_cons_succ, List.getElem?_cons_zero, Fault.ok_bind, stol_toString hid,
    stol_toString hch, stol_toString hob, stol_toString hf, stol_toString hs, contextType_reread hk,
    objectType_reread, pure, Except.pure, definitionAtStage, HousekeepingOperation.toInt]

theorem objectAtStage_unknown {x : HousekeepingCreateObjectRaw} (hx : x.contextDefinition = -1)
    (y : HousekeepingCreateObjectRaw) : objectAtStage x ≠ .ok y := by
  have hnone : ∀ v : ℤ, differentiationName (-1) v = "" := fun _ => rfl
  have hchars : ∀ t ∈ objectTokens x, '|' ∉ t.toList := by
    simp only [objectTokens, hx, hnone, List.forall_mem_cons, (toString_plain _).1,
      (contextTypeName_plain _).1, (objectTypeName_plain _).1, not_false_eq_true, true_and]
    decide
  have htokens : (objectTokens x).filter (· ≠ "") =
      [toString (4 : ℤ), toString x.ruleId, "create_object", toString x.channelId,
        toString x.enforcementObjectId, contextTypeName (-1), objectTypeName x.enforcementObjectType,
        toString x.propertyFirst, toString x.propertySecond] := by
    simp only [objectTokens, hx, hnone, List.filter_cons, List.filter_nil, ne_eq, toString_ne_empty,
      (contextTypeName_plain _).2, (objectTypeName_plain _).2, String.reduceEq, not_false_eq_true,
      not_true_eq_false, decide_true, decide_false, if_true, Bool.false_eq_true, if_false]
  intro h
  rw [objectAtStage, objectString_eq, PaioInterface.parseRule,
    parseRule_terminated '|' "|" (by decide) _ hchars, htokens] at h
  simp [fillCreateObjectRule, Fault.bind_eq_ok, token_eq_ok] at h

theorem object_round_trip_iff {stagedRule : List String} {x : HousekeepingCreateObjectRaw}
    (h : createObjectRule stagedRule = .ok (some x)) :
    objectAtStage x = .ok x ↔
      Translatable (stagedRule.getD 4 "") (stagedRule.getD 5 "") (stagedRule.getD 6 "") := by
  obtain ⟨ruleId, channelId, objectId, first, second, hr, hc, ho, hf, hs, rfl⟩ :=
    createObjectRule_eq_some h
  by_cases hk : KnownContext (stagedRule.getD 4 "")
  · rw [objectAtStage_known hk (number_inRange hr) (number_inRange hc) (number_inRange ho)
      (number_inRange hf) (number_inRange hs), Translatable, ← definitionAtStage_iff hk,
      ← definitionAtStage_iff hk]
    simp only [Except.ok.injEq, HousekeepingCreateObjectRaw.mk.injEq, true_and, and_true, hk]
  · exact iff_of_false (objectAtStage_unknown (unknownContext hk) _) fun ht => hk ht.1

end Cheferd.RulesFileParser
