import Mathlib.Data.Nat.Notation
import Mathlib.Data.List.TakeWhile

namespace Cheferd.Library.CString

def octets (s : String) : List UInt8 := s.toList.map fun c => UInt8.ofNat c.toNat

def text (bytes : List UInt8) : String := String.ofList (bytes.map fun b => Char.ofNat b.toNat)

def read (array : List UInt8) : List UInt8 := array.takeWhile (· ≠ 0)

/-- The terminating NUL is copied too; the language gives no meaning to a copy that goes beyond the array. -/
def strcpy (array s : List UInt8) : Option (List UInt8) :=
  if s.length + 1 ≤ array.length then some (s ++ 0 :: array.drop (s.length + 1)) else none

/-- At most `n` bytes are copied, and NULs up to `n`; the rest of the array stays as it is. -/
def strncpy (array s : List UInt8) (n : ℕ) : List UInt8 :=
  s.take n ++ List.replicate (n - s.length) 0 ++ array.drop n

variable {array s t : List UInt8} {n : ℕ}

theorem length_octets (s : String) : (octets s).length = s.length := by
  rw [octets, List.length_map, String.length_toList]

theorem text_octets {s : String} (h : ∀ c ∈ s.toList, c.toNat < 256) : text (octets s) = s := by
  have hchar : ∀ c ∈ s.toList, Char.ofNat (UInt8.ofNat c.toNat).toNat = c := by
    intro c hc
    rw [UInt8.toNat_ofNat', Nat.mod_eq_of_lt (h c hc), Char.ofNat_toNat]
  rw [text, octets, List.map_map, Function.comp_def, List.map_congr_left hchar, List.map_id',
    String.ofList_toList]

theorem mem_octets {s : String} {c : Char} (h : ∀ d ∈ s.toList, d.toNat < 256) (hc : c.toNat < 256)
    (hmem : UInt8.ofNat c.toNat ∈ octets s) : c ∈ s.toList := by
  obtain ⟨d, hd, heq⟩ := List.mem_map.mp hmem
  have hnat := congrArg UInt8.toNat heq
  rw [UInt8.toNat_ofNat', UInt8.toNat_ofNat', Nat.mod_eq_of_lt (h d hd), Nat.mod_eq_of_lt hc] at hnat
  rwa [← Char.ofNat_toNat c, ← hnat, Char.ofNat_toNat]

theorem read_append (h : 0 ∉ s) (t : List UInt8) : read (s ++ t) = s ++ read t := by
  apply List.takeWhile_append_of_pos
  intro b hb
  rw [decide_eq_true_eq]
  rintro rfl
  exact h hb

theorem read_eq_self (h : 0 ∉ s) : read s = s := by
  have hread := read_append h []
  rwa [List.append_nil, show read [] = [] from rfl, List.append_nil] at hread

theorem read_append_nul (h : 0 ∉ s) (t : List UInt8) : read (s ++ 0 :: t) = s := by
  rw [read_append h, read, List.takeWhile_cons_of_neg (by simp), List.append_nil]

theorem notMem_read (array : List UInt8) : 0 ∉ read array := by
  intro h
  simpa using List.mem_takeWhile_imp h

theorem read_strncpy (hs : 0 ∉ s) (h : s.length < n) : read (strncpy array s n) = s := by
  obtain ⟨k, hk⟩ : ∃ k, n - s.length = k + 1 := ⟨n - s.length - 1, by omega⟩
  rw [strncpy, List.take_of_length_le h.le, hk, List.replicate_succ, List.append_assoc, List.cons_append]
  exact read_append_nul hs _

theorem read_strncpy_of_le (hs : 0 ∉ s) (h : n ≤ s.length) :
    read (strncpy array s n) = s.take n ++ read (array.drop n) := by
  have htake : 0 ∉ s.take n := fun hmem => hs (List.mem_of_mem_take hmem)
  rw [strncpy, Nat.sub_eq_zero_of_le h, List.replicate_zero, List.append_nil, read_append htake]

end Cheferd.Library.CString
