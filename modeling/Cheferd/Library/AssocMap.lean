import Mathlib.Data.List.AList
import Mathlib.Data.List.Sort

namespace Cheferd.Library

abbrev Assoc (κ υ : Type) := AList fun _ : κ => υ

namespace Assoc

variable {κ υ : Type} [DecidableEq κ]

-- The general instance goes through a rewrite, which no evaluation gets past.
instance [DecidableEq υ] : DecidableEq (Assoc κ υ) := fun m m' =>
  decidable_of_iff (m.entries = m'.entries) AList.ext_iff.symm

def emplace (k : κ) (v : υ) (m : Assoc κ υ) : Assoc κ υ := if k ∈ m then m else m.insert k v

/-- Reading a counter with `operator[]`: an absent key counts as 0. -/
def read (k : κ) (m : Assoc κ ℤ) : ℤ := (m.lookup k).getD 0

def insertSorted [LE κ] [DecidableLE κ] (k : κ) (v : υ) (m : Assoc κ υ) : Assoc κ υ where
  entries := (m.erase k).entries.orderedInsert (fun x y => x.1 ≤ y.1) ⟨k, v⟩
  nodupKeys := by
    have hp := List.perm_orderedInsert (fun x y : (_ : κ) × υ => x.1 ≤ y.1) ⟨k, v⟩ (m.erase k).entries
    exact (List.perm_nodupKeys hp).mpr (m.insert k v).nodupKeys

def ofKeys (f : κ → υ) (keys : List κ) : Assoc κ υ := keys.foldr (fun k m => m.insert k (f k)) ∅

theorem lookup_insert_eq (k k' : κ) (v : υ) (m : Assoc κ υ) :
    (m.insert k v).lookup k' = if k' = k then some v else m.lookup k' := by
  split
  case isTrue h => subst h; exact AList.lookup_insert m
  case isFalse h => exact AList.lookup_insert_ne h

theorem lookup_erase_eq (k k' : κ) (m : Assoc κ υ) :
    (m.erase k).lookup k' = if k' = k then none else m.lookup k' := by
  split
  case isTrue h => subst h; exact AList.lookup_erase k' m
  case isFalse h => exact AList.lookup_erase_ne h

theorem lookup_ofKeys (f : κ → υ) (keys : List κ) (k : κ) :
    (ofKeys f keys).lookup k = if k ∈ keys then some (f k) else none := by
  induction keys with
  | nil => rfl
  | cons k' keys ih =>
    rw [ofKeys] at ih
    rw [ofKeys, List.foldr_cons, lookup_insert_eq, ih]
    by_cases h : k = k' <;> simp [h]

theorem mem_eraseKeys (keys : List κ) (m : Assoc κ υ) (k : κ) :
    k ∈ keys.foldr AList.erase m ↔ k ∈ m ∧ k ∉ keys := by
  induction keys with
  | nil => simp
  | cons k' keys ih =>
    rw [List.foldr_cons, AList.mem_erase, ih, List.mem_cons, not_or]
    tauto

theorem lookup_eraseKeys (keys : List κ) (m : Assoc κ υ) (k : κ) :
    (keys.foldr AList.erase m).lookup k = if k ∈ keys then none else m.lookup k := by
  induction keys with
  | nil => rfl
  | cons k' keys ih =>
    rw [List.foldr_cons, lookup_erase_eq, ih]
    by_cases h : k = k' <;> simp [h]

theorem eraseKeys_erase (keys : List κ) (k : κ) (m : Assoc κ υ) :
    keys.foldr AList.erase (m.erase k) = (keys.foldr AList.erase m).erase k := by
  induction keys with
  | nil => rfl
  | cons k' keys ih => rw [List.foldr_cons, ih, AList.erase_erase, List.foldr_cons]

theorem lookup_insertKeys (f : κ → υ) (keys : List κ) (m : Assoc κ υ) (k : κ) :
    (keys.foldl (fun m k => m.insert k (f k)) m).lookup k = if k ∈ keys then some (f k) else m.lookup k := by
  induction keys generalizing m with
  | nil => rfl
  | cons k' keys ih =>
    rw [List.foldl_cons, ih, lookup_insert_eq]
    by_cases h : k = k' <;> simp [h]

omit [DecidableEq κ] in
theorem length_keys_congr {m m' : Assoc κ υ} (h : ∀ k, k ∈ m ↔ k ∈ m') : m.keys.length = m'.keys.length :=
  ((List.perm_ext_iff_of_nodup m.keys_nodup m'.keys_nodup).mpr h).length_eq

theorem lookup_emplace (k k' : κ) (v : υ) (m : Assoc κ υ) :
    (m.emplace k v).lookup k' = if k' = k then some ((m.lookup k).getD v) else m.lookup k' := by
  unfold emplace
  by_cases hm : k ∈ m
  · obtain ⟨w, hw⟩ := Option.isSome_iff_exists.mp (AList.lookup_isSome.mpr hm)
    rw [if_pos hm, hw]
    split
    case isTrue h => rw [h, hw, Option.getD_some]
    case isFalse => rfl
  · rw [if_neg hm, lookup_insert_eq, AList.lookup_eq_none.mpr hm, Option.getD_none]

theorem read_insert (k k' : κ) (v : ℤ) (m : Assoc κ ℤ) :
    Assoc.read k' (m.insert k v) = if k' = k then v else m.read k' := by
  unfold read
  rw [lookup_insert_eq]
  split <;> rfl

section Sorted

variable [LE κ] [DecidableLE κ]

theorem insertSorted_perm (k : κ) (v : υ) (m : Assoc κ υ) :
    (m.insertSorted k v).entries.Perm (m.insert k v).entries :=
  List.perm_orderedInsert _ _ _

theorem lookup_insertSorted (k k' : κ) (v : υ) (m : Assoc κ υ) :
    (m.insertSorted k v).lookup k' = if k' = k then some v else m.lookup k' := by
  rw [AList.perm_lookup (insertSorted_perm k v m), lookup_insert_eq]

theorem mem_insertSorted (k k' : κ) (v : υ) (m : Assoc κ υ) :
    k' ∈ m.insertSorted k v ↔ k' = k ∨ k' ∈ m := by
  rw [AList.mem_of_perm (insertSorted_perm k v m), AList.mem_insert]

end Sorted

theorem lookup_of_entries_nil {m : Assoc κ υ} (h : m.entries = []) (k : κ) : m.lookup k = none := by
  rw [AList.lookup_eq_none, AList.mem_keys, AList.keys, h]
  exact List.not_mem_nil

theorem lookup_of_mem_entries {m : Assoc κ υ} {k : κ} {v : υ} (h : ⟨k, v⟩ ∈ m.entries) :
    m.lookup k = some v :=
  AList.mem_lookup_iff.mpr h

end Assoc

end Cheferd.Library
