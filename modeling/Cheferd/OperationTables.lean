import Cheferd.RulesFileParser

namespace Cheferd.RulesFileParser

section Tables

variable {α : Type} (labels : List (String × α)) {default : α} {s : String}

def Exact (labels : List (String × α)) (default : α) (s : String) : Prop :=
  switchHash labels default s ≠ default → s ∈ labels.map Prod.fst

def Apart (names : List String) (s : String) : Prop := s ∈ names ∨ ∀ name ∈ names, hash name ≠ hash s

instance (names : List String) (s : String) : Decidable (Apart names s) := inferInstanceAs (Decidable (_ ∨ _))

theorem switchHash_ne_default_iff (hdefault : ∀ e ∈ labels, e.2 ≠ default) :
    switchHash labels default s ≠ default ↔ ∃ name ∈ labels.map Prod.fst, hash name = hash s := by
  rcases switchHash_mem labels default s with ⟨e, he, hs, hv⟩ | ⟨hne, hv⟩
  · rw [hv]
    exact iff_of_true (hdefault e he) ⟨e.1, List.mem_map_of_mem he, hs⟩
  · rw [hv]
    refine iff_of_false (fun h => h rfl) ?_
    rintro ⟨name, hname, hs⟩
    obtain ⟨e, he, rfl⟩ := List.mem_map.mp hname
    exact hne e he hs

theorem exact_iff (hdefault : ∀ e ∈ labels, e.2 ≠ default) :
    Exact labels default s ↔ Apart (labels.map Prod.fst) s := by
  unfold Exact Apart
  rw [switchHash_ne_default_iff labels hdefault]
  constructor
  · intro h
    by_cases hs : s ∈ labels.map Prod.fst
    · exact .inl hs
    · exact .inr fun name hname he => hs (h ⟨name, hname, he⟩)
  · rintro (hs | hne) ⟨name, hname, he⟩
    · exact hs
    · exact absurd he (hne name hname)

theorem tables_exact_iff (s : String) :
    ((convertPosixDefinitions s ≠ 0 → s ∈ posixLabels.map Prod.fst) ↔ Apart (posixLabels.map Prod.fst) s) ∧
    ((convertHousekeepingOperation s ≠ .noOp → s ∈ ["create_channel", "create_object"]) ↔
      Apart ["create_channel", "create_object"] s) ∧
    ((convertContextTypeDefinition s ≠ -1 → s ∈ contextTypeLabels.map Prod.fst) ↔
      Apart (contextTypeLabels.map Prod.fst) s) := by
  refine ⟨?_, ?_, ?_⟩
  · exact exact_iff posixLabels (by decide)
  · exact exact_iff [("create_channel", HousekeepingOperation.createChannel),
      ("create_object", .createObject)] (by decide)
  · exact exact_iff contextTypeLabels (by decide)

theorem tables_not_exact :
    convertPosixDefinitions "wri6g" = 2 ∧ "wri6g" ∉ posixLabels.map Prod.fst ∧
      convertHousekeepingOperation "crea6g_object" = .createObject ∧
      "crea6g_object" ∉ ["create_channel", "create_object"] ∧
      convertContextTypeDefinition "po1kx" = 1 ∧ "po1kx" ∉ contextTypeLabels.map Prod.fst := by
  decide +kernel

end Tables

end Cheferd.RulesFileParser
