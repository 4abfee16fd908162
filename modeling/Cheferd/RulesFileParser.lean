import Cheferd.Strings
import Mathlib.Data.List.Nodup

namespace Cheferd.RulesFileParser

open Strings

/-- A `char` is signed where the program runs, so a byte from 128 on is sign-extended. -/
def hashBytes : List UInt8 → UInt32
  | [] => 10242048
  | b :: bs => if b = 0 then 10242048 else (hashBytes bs * 33) ^^^ b.toInt8.toInt32.toUInt32

def hash (s : String) : UInt32 := hashBytes (s.toList.flatMap String.utf8EncodeChar)

def switchHash {α : Type} (labels : List (String × α)) (default : α) (s : String) : α :=
  ((labels.find? fun e => hash e.1 == hash s).map Prod.snd).getD default

def switchValue {α : Type} (names : List (ℤ × α)) (default : α) (v : ℤ) : α :=
  (names.lookup v).getD default

inductive HousekeepingOperation | noOp | createChannel | createObject
deriving DecidableEq, Repr

def HousekeepingOperation.toInt : HousekeepingOperation → ℤ
  | .noOp => 0
  | .createChannel => 1
  | .createObject => 2

inductive EnforcementObjectType | drl | noop
deriving DecidableEq, Repr

def EnforcementObjectType.toInt : EnforcementObjectType → ℤ
  | .drl => 1
  | .noop => 0

def contextTypeLabels : List (String × ℤ) :=
  [("general", 0), ("posix", 1), ("posix_meta", 2), ("lsm_kvs_simple", 3),
   ("lsm_kvs_detailed", 4), ("kvs", 5)]

def contextTypeNames : List (ℤ × String) :=
  [(0, "general"), (1, "posix"), (2, "posix_meta"), (3, "lsm_kvs_simple"),
   (4, "lsm_kvs_detailed"), (5, "kvs")]

def paioGeneralLabels : List (String × ℤ) :=
  [("foreground", 1), ("background", 2), ("high_priority", 3), ("low_priority", 4)]

def paioGeneralNames : List (ℤ × String) :=
  [(1, "foreground"), (2, "background"), (3, "high_priority"), (4, "low_priority")]

def lsmKvsSimpleLabels : List (String × ℤ) :=
  [("bg_flush", 1), ("bg_compaction_high_priority", 2), ("bg_compaction_low_priority", 3),
   ("foreground", 4)]

def lsmKvsSimpleNames : List (ℤ × String) :=
  [(1, "bg_flush"), (2, "bg_compaction_high_priority"), (3, "bg_compaction_low_priority"),
   (4, "foreground")]

def lsmKvsDetailedLabels : List (String × ℤ) :=
  [("bg_flush", 1), ("bg_compaction", 2), ("bg_compaction_L0_L0", 3), ("bg_compaction_L0_L1", 4),
   ("bg_compaction_L1_L2", 5), ("bg_compaction_L2_L3", 6), ("bg_compaction_LN", 7),
   ("foreground", 8)]

def lsmKvsDetailedNames : List (ℤ × String) :=
  [(1, "bg_flush"), (2, "bg_compaction"), (3, "bg_compaction_L0_L0"), (4, "bg_compaction_L0_L1"),
   (5, "bg_compaction_L1_L2"), (6, "bg_compaction_L2_L3"), (7, "bg_compaction_LN"),
   (8, "foreground")]

def posixLabels : List (String × ℤ) :=
  [("read", 1), ("write", 2), ("pread", 3), ("pwrite", 4), ("pread64", 5), ("pwrite64", 6),
   ("fread", 7), ("fwrite", 8), ("open", 9), ("open64", 10), ("creat", 11), ("creat64", 12),
   ("openat", 13), ("close", 14), ("fsync", 15), ("fdatasync", 16), ("sync", 17), ("syncfs", 18),
   ("truncate", 19), ("ftruncate", 21), ("truncate64", 20), ("ftruncate64", 22), ("xstat", 23),
   ("lxstat", 25), ("fxstat", 27), ("xstat64", 24), ("lxstat64", 26), ("fxstat64", 28),
   ("fxstatat", 29), ("fxstatat64", 30), ("statfs", 31), ("fstatfs", 33), ("statfs64", 32),
   ("fstatfs64", 34), ("link", 35), ("linkat", 36), ("unlink", 37), ("unlinkat", 38),
   ("rename", 39), ("renameat", 40), ("symlink", 41), ("symlinkat", 42), ("readlink", 43),
   ("readlinkat", 44), ("fopen", 45), ("fopen64", 46), ("freopen", 48), ("freopen64", 49),
   ("fclose", 50), ("fflush", 51), ("access", 52), ("faccessat", 53), ("lseek", 54),
   ("lseek64", 55), ("fseek", 56), ("fseek64", 57), ("ftell", 58), ("fseeko", 59),
   ("fseeko64", 60), ("ftello", 61), ("ftello64", 62), ("mkdir", 63), ("mkdirat", 64),
   ("rmdir", 70), ("opendir", 67), ("readdir", 65), ("readdir64", 66), ("fdopendir", 68),
   ("closedir", 69), ("dirfd", 71), ("getxattr", 72), ("lgetxattr", 73), ("fgetxattr", 74),
   ("setxattr", 75), ("lsetxattr", 76), ("fsetxattr", 77), ("removexattr", 81),
   ("lremovexattr", 82), ("fremovexattr", 83), ("listxattr", 78), ("llistxattr", 79),
   ("flistxattr", 80), ("chmod", 84), ("fchmod", 85), ("fchmodat", 86), ("chown", 87),
   ("fchown", 89), ("fchownat", 90), ("lchown", 88), ("data", 95), ("metadata", 96),
   ("total", 97)]

def posixNames : List (ℤ × String) :=
  [(1, "read"), (2, "write"), (3, "pread"), (4, "pwrite"), (5, "pread64"), (6, "pwrite64"),
   (9, "open"), (14, "close"), (72, "getxattr"), (39, "rename"), (75, "setxattr"), (63, "mkdir"),
   (91, "mknod"), (70, "rmdir"), (31, "statfs"), (17, "sync"), (37, "unlink"), (95, "data"),
   (96, "metadata"), (97, "total")]

def posixMetaLabels : List (String × ℤ) :=
  [("foreground", 1), ("background", 2), ("high_priority", 3), ("med_priority", 4),
   ("low_priority", 5), ("data_op", 6), ("meta_op", 7), ("dir_op", 8), ("ext_attr_op", 9),
   ("file_mod_op", 10)]

def posixMetaNames : List (ℤ × String) :=
  [(1, "foreground"), (2, "background"), (3, "high_priority"), (4, "med_priority"),
   (5, "low_priority"), (6, "data_op"), (7, "meta_op"), (8, "dir_op"), (9, "ext_attr_op"),
   (10, "file_mod_op")]

def kvsLabels : List (String × ℤ) :=
  [("put", 1), ("get", 2), ("new_iterator", 3), ("delete", 4), ("write", 5), ("get_snapshot", 6),
   ("get_property", 7), ("get_approximate_size", 8), ("compact_range", 9)]

def kvsNames : List (ℤ × String) :=
  [(1, "put"), (2, "get"), (3, "new_iterator"), (4, "delete_"), (5, "write"), (6, "get_snapshot"),
   (7, "get_property"), (8, "get_approximate_size"), (9, "compact_range")]

def convertHousekeepingOperation : String → HousekeepingOperation :=
  switchHash [("create_channel", .createChannel), ("create_object", .createObject)] .noOp

def convertObjectType (objectType : String) : EnforcementObjectType :=
  if objectType = "drl" then .drl else .noop

def objectTypeName (objectType : ℤ) : String :=
  if objectType = EnforcementObjectType.drl.toInt then "drl" else "noop"

def convertEnforcementOperation (objectType : EnforcementObjectType) (operation : String) : ℤ :=
  match objectType with
  | .drl => switchHash [("init", 1), ("rate", 2), ("refill", 4)] 0 operation
  | .noop => 0

def convertContextTypeDefinition : String → ℤ := switchHash contextTypeLabels (-1)

def contextTypeName : ℤ → String := switchValue contextTypeNames "noop"

def convertPaioGeneralDefinitions : String → ℤ := switchHash paioGeneralLabels 0

def paioGeneralName : ℤ → String := switchValue paioGeneralNames "no_op"

def convertPosixLsmSimpleDefinitions : String → ℤ := switchHash lsmKvsSimpleLabels 0

def posixLsmSimpleName : ℤ → String := switchValue lsmKvsSimpleNames "no_op"

def convertPosixLsmDetailedDefinitions : String → ℤ := switchHash lsmKvsDetailedLabels 0

def posixLsmDetailedName : ℤ → String := switchValue lsmKvsDetailedNames "no_op"

def convertPosixDefinitions : String → ℤ := switchHash posixLabels 0

def posixName : ℤ → String := switchValue posixNames "no_op"

def convertPosixMetaDefinitions : String → ℤ := switchHash posixMetaLabels 0

def posixMetaName : ℤ → String := switchValue posixMetaNames "no_op"

def convertKvsDefinitions : String → ℤ := switchHash kvsLabels 0

def kvsName : ℤ → String := switchValue kvsNames "no_op"

def definitionConversions : List (String × (String → ℤ)) :=
  [("general", convertPaioGeneralDefinitions), ("posix", convertPosixDefinitions),
   ("posix_meta", convertPosixMetaDefinitions), ("lsm_kvs_simple", convertPosixLsmSimpleDefinitions),
   ("lsm_kvs_detailed", convertPosixLsmDetailedDefinitions), ("kvs", convertKvsDefinitions)]

def definitionNames : List (ℤ × (ℤ → String)) :=
  [(0, paioGeneralName), (1, posixName), (2, posixMetaName), (3, posixLsmSimpleName),
   (4, posixLsmDetailedName), (5, kvsName)]

def convertDifferentiationDefinitions : String → String → ℤ :=
  switchHash definitionConversions fun _ => -1

def differentiationName : ℤ → ℤ → String := switchValue definitionNames fun _ => ""

structure HousekeepingCreateChannelRaw where
  ruleId : UInt64
  ruleType : ℤ
  channelId : ℤ
  contextDefinition : ℤ
  workflowId : UInt32
  operationType : UInt32
  operationContext : UInt32
deriving DecidableEq, Repr

structure HousekeepingCreateObjectRaw where
  ruleId : ℤ
  ruleType : ℤ
  channelId : ℤ
  enforcementObjectId : ℤ
  contextDefinition : ℤ
  operationType : UInt32
  operationContext : UInt32
  enforcementObjectType : ℤ
  propertyFirst : ℤ
  propertySecond : ℤ
deriving DecidableEq, Repr

def readRules (lines : List String) : List (List String) := lines.map (parseRule ' ')

def createChannelRule (stagedRule : List String) : Except Fault (Option HousekeepingCreateChannelRaw) := do
  let operation := convertHousekeepingOperation (← token stagedRule 1)
  if operation ≠ .createChannel ∨ stagedRule.length < 7 then return none
  let context ← token stagedRule 3
  return some
    { ruleId := UInt64.ofInt (← stoll (← token stagedRule 0))
      ruleType := HousekeepingOperation.createChannel.toInt
      channelId := ← stol (← token stagedRule 2)
      contextDefinition := convertContextTypeDefinition context
      workflowId := UInt32.ofInt (← stol (← token stagedRule 4))
      operationType := UInt32.ofInt (convertDifferentiationDefinitions context (← token stagedRule 5))
      operationContext :=
        UInt32.ofInt (convertDifferentiationDefinitions context (← token stagedRule 6)) }

/-- The line is taken for complete from eight elements on, but the ninth and tenth are read too. -/
def createObjectRule (stagedRule : List String) : Except Fault (Option HousekeepingCreateObjectRaw) := do
  let operation := convertHousekeepingOperation (← token stagedRule 1)
  if operation ≠ .createObject ∨ stagedRule.length < 8 then return none
  let context ← token stagedRule 4
  return some
    { ruleId := ← stoll (← token stagedRule 0)
      ruleType := HousekeepingOperation.createObject.toInt
      channelId := ← stol (← token stagedRule 2)
      enforcementObjectId := ← stol (← token stagedRule 3)
      contextDefinition := convertContextTypeDefinition context
      operationType := UInt32.ofInt (convertDifferentiationDefinitions context (← token stagedRule 5))
      operationContext :=
        UInt32.ofInt (convertDifferentiationDefinitions context (← token stagedRule 6))
      enforcementObjectType := (convertObjectType (← token stagedRule 7)).toInt
      propertyFirst := ← stol (← token stagedRule 8)
      propertySecond := ← stol (← token stagedRule 9) }

def getRules {α : Type} (rule : List String → Except Fault (Option α)) (totalRules : ℤ) :
    List (List String) → ℤ → Except Fault (List α)
  | [], _ => .ok []
  | stagedRule :: rest, passed => do
    match ← rule stagedRule with
    | none => getRules rule totalRules rest passed
    | some x =>
      if passed + 1 = totalRules then return [x]
      return x :: (← getRules rule totalRules rest (passed + 1))

def getCreateChannelRules (totalRules : ℤ) (stagedRules : List (List String)) :
    Except Fault (List HousekeepingCreateChannelRaw) :=
  getRules createChannelRule (if totalRules = -1 then 2147483647 else totalRules) stagedRules 0

def getCreateObjectRules (totalRules : ℤ) (stagedRules : List (List String)) :
    Except Fault (List HousekeepingCreateObjectRaw) :=
  getRules createObjectRule (if totalRules = -1 then 2147483647 else totalRules) stagedRules 0

theorem switchHash_mem {α : Type} (labels : List (String × α)) (default : α) (s : String) :
    (∃ e ∈ labels, hash e.1 = hash s ∧ switchHash labels default s = e.2) ∨
      (∀ e ∈ labels, hash e.1 ≠ hash s) ∧ switchHash labels default s = default := by
  unfold switchHash
  cases hf : labels.find? fun e => hash e.1 == hash s with
  | some e =>
    refine .inl ⟨e, List.mem_of_find?_eq_some hf, ?_, rfl⟩
    simpa using List.find?_some hf
  | none =>
    refine .inr ⟨fun e he => ?_, rfl⟩
    simpa using List.find?_eq_none.mp hf e he

theorem switchHash_congr {α : Type} (labels : List (String × α)) (default : α) {s t : String}
    (h : hash s = hash t) : switchHash labels default s = switchHash labels default t := by
  rw [switchHash, switchHash, h]

theorem switchHash_label {α : Type} {labels : List (String × α)} (default : α)
    (hl : (labels.map fun e => hash e.1).Nodup) {e : String × α} (he : e ∈ labels) :
    switchHash labels default e.1 = e.2 := by
  rcases switchHash_mem labels default e.1 with ⟨f, hf, hh, hv⟩ | ⟨hne, _⟩
  · rw [hv, List.inj_on_of_nodup_map hl hf he hh]
  · exact absurd rfl (hne e he)

theorem getRules_mem {α : Type} {rule : List String → Except Fault (Option α)} {totalRules : ℤ}
    {stagedRules : List (List String)} {passed : ℤ} {xs : List α}
    (h : getRules rule totalRules stagedRules passed = .ok xs) {x : α} (hx : x ∈ xs) :
    ∃ stagedRule ∈ stagedRules, rule stagedRule = .ok (some x) := by
  induction stagedRules generalizing passed xs with
  | nil =>
    cases h
    exact absurd hx List.not_mem_nil
  | cons stagedRule rest ih =>
    simp only [getRules, Fault.bind_eq_ok] at h
    obtain ⟨r, hr, h⟩ := h
    cases r with
    | none =>
      obtain ⟨l, hl, hlx⟩ := ih h hx
      exact ⟨l, List.mem_cons_of_mem _ hl, hlx⟩
    | some y =>
      have hcases : x = y ∨ ∃ ys, getRules rule totalRules rest (passed + 1) = .ok ys ∧ x ∈ ys := by
        simp only at h
        split at h
        · cases h
          exact .inl (List.mem_singleton.mp hx)
        · obtain ⟨ys, hys, h⟩ := Fault.bind_eq_ok.mp h
          cases h
          exact (List.mem_cons.mp hx).imp_right fun hm => ⟨ys, hys, hm⟩
      rcases hcases with rfl | ⟨ys, hys, hm⟩
      · exact ⟨stagedRule, List.mem_cons_self, hr⟩
      · obtain ⟨l, hl, hlx⟩ := ih hys hm
        exact ⟨l, List.mem_cons_of_mem _ hl, hlx⟩

end Cheferd.RulesFileParser
