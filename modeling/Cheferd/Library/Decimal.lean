import Mathlib.Data.List.TakeWhile
import Mathlib.Tactic.NormNum

namespace Cheferd.Library.Decimal

def isSpace (c : Char) : Bool := c ∈ [' ', '\t', '\n', '\x0b', '\x0c', '\r']

def natural (s : List Char) : Option ℕ :=
  match s.takeWhile Char.isDigit with
  | [] => none
  | ds => some (Nat.ofDigitChars 10 ds 0)

/-- The prefix that `strtoll` accepts: blanks, an optional sign and at least one digit. -/
def integer (s : List Char) : Option ℤ :=
  match s.dropWhile isSpace with
  | '-' :: t => (natural t).map fun n => -(n : ℤ)
  | '+' :: t => (natural t).map fun n => (n : ℤ)
  | t => (natural t).map fun n => (n : ℤ)

/-- `none` stands for `std::invalid_argument` and `std::out_of_range`. -/
def signed (bits : ℕ) (s : String) : Option ℤ :=
  (integer s.toList).filter fun v => -2 ^ (bits - 1) ≤ v ∧ v < 2 ^ (bits - 1)

def InRange (bits : ℕ) (v : ℤ) : Prop := -2 ^ (bits - 1) ≤ v ∧ v < 2 ^ (bits - 1)

instance (bits : ℕ) (v : ℤ) : Decidable (InRange bits v) := inferInstanceAs (Decidable (_ ∧ _))

theorem InRange.widen {v : ℤ} (h : InRange 32 v) : InRange 64 v := by
  unfold InRange at h ⊢
  norm_num at h ⊢
  omega

theorem natural_toDigits (n : ℕ) : natural (Nat.toDigits 10 n) = some n := by
  have he : (Nat.toDigits 10 n).takeWhile Char.isDigit = Nat.toDigits 10 n :=
    List.takeWhile_eq_self_iff.mpr fun c hc => Nat.isDigit_of_mem_toDigits (by decide) (by decide) hc
  unfold natural
  rw [he]
  split
  case h_1 h => exact absurd h Nat.toDigits_ne_nil
  case h_2 => rw [Nat.ofDigitChars_ten_toDigits]

theorem isDigit_plain {c : Char} (h : c.isDigit = true) : isSpace c = false ∧ c ≠ '-' ∧ c ≠ '+' := by
  refine ⟨?_, by rintro rfl; simp at h, by rintro rfl; simp at h⟩
  simp only [isSpace, decide_eq_false_iff_not]
  intro hm
  simp only [List.mem_cons, List.not_mem_nil, or_false] at hm
  rcases hm with rfl | rfl | rfl | rfl | rfl | rfl <;> simp at h

theorem toList_toString (v : ℤ) :
    (toString v).toList =
      if 0 ≤ v then Nat.toDigits 10 v.toNat else '-' :: Nat.toDigits 10 (-v).toNat := by
  rw [Int.toString_eq_repr, Int.repr_eq_if]
  split <;> simp

theorem isDigit_or_minus (v : ℤ) : ∀ c ∈ (toString v).toList, c.isDigit = true ∨ c = '-' := by
  intro c hc
  rw [toList_toString] at hc
  split at hc
  · exact .inl (Nat.isDigit_of_mem_toDigits (by decide) (by decide) hc)
  · rcases List.mem_cons.mp hc with h | h
    · exact .inr h
    · exact .inl (Nat.isDigit_of_mem_toDigits (by decide) (by decide) h)

theorem notMem_toString (v : ℤ) (c : Char) (hd : c.isDigit = false) (hm : c ≠ '-') :
    c ∉ (toString v).toList := by
  intro hc
  rcases isDigit_or_minus v c hc with h | h
  · rw [hd] at h; exact Bool.noConfusion h
  · exact hm h

theorem toString_ne_nil (v : ℤ) : (toString v).toList ≠ [] := by
  rw [toList_toString]
  split
  · exact Nat.toDigits_ne_nil
  · exact List.cons_ne_nil _ _

theorem integer_toDigits (n : ℕ) : integer (Nat.toDigits 10 n) = some (n : ℤ) := by
  have hn := natural_toDigits n
  cases hd : Nat.toDigits 10 n with
  | nil => exact absurd hd Nat.toDigits_ne_nil
  | cons c ds =>
    have hc : c.isDigit = true :=
      Nat.isDigit_of_mem_toDigits (b := 10) (n := n) (by decide) (by decide) (by rw [hd]; simp)
    obtain ⟨hs, hm, hp⟩ := isDigit_plain hc
    rw [hd] at hn
    simp [integer, hs, hm, hp, hn]

theorem integer_toString (v : ℤ) : integer (toString v).toList = some v := by
  rw [toList_toString]
  split
  case isTrue h => rw [integer_toDigits, Int.toNat_of_nonneg h]
  case isFalse h =>
    have hv : ((-v).toNat : ℤ) = -v := Int.toNat_of_nonneg (by omega)
    simp [integer, isSpace, natural_toDigits, hv]

theorem signed_toString (bits : ℕ) (v : ℤ) (h : InRange bits v) : signed bits (toString v) = some v := by
  simp only [signed, integer_toString, Option.filter_some]
  simp [h.1, h.2]

theorem signed_inRange {bits : ℕ} {s : String} {v : ℤ} (h : signed bits s = some v) : InRange bits v := by
  simpa [InRange] using (Option.filter_eq_some_iff.mp h).2

end Cheferd.Library.Decimal
