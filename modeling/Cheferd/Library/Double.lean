import Mathlib.Algebra.Order.Floor.Ring
import Mathlib.Data.Rat.Floor

namespace Cheferd.Library.Double

/-- Rounding of a magnitude to 53 significant bits, ties to even. -/
def roundNat (n : ℕ) : ℕ :=
  let unit := 2 ^ (Nat.log2 n + 1 - 53)
  let q := n / unit
  let r := n % unit
  if 2 * r < unit ∨ (2 * r = unit ∧ q % 2 = 0) then q * unit else (q + 1) * unit

def ofInt (v : ℤ) : ℤ := v.sign * (roundNat v.natAbs : ℤ)

theorem roundNat_eq {n : ℕ} (h : n ≤ 2 ^ 53) : roundNat n = n := by
  by_cases hn : n = 2 ^ 53
  · subst hn
    decide
  · have hlog : Nat.log2 n < 53 := by
      by_cases h0 : n = 0
      · subst h0; decide
      · exact (Nat.log2_lt h0).mpr (by omega)
    have hunit : Nat.log2 n + 1 - 53 = 0 := by omega
    simp [roundNat, hunit, Nat.mod_one]

theorem ofInt_eq {v : ℤ} (h : v.natAbs ≤ 2 ^ 53) : ofInt v = v := by
  rw [ofInt, roundNat_eq h, Int.sign_mul_natAbs]

def truncate (q : ℚ) : ℤ := if 0 ≤ q then ⌊q⌋ else ⌈q⌉

theorem truncate_of_nonneg {q : ℚ} (h : 0 ≤ q) : truncate q = ⌊q⌋ := if_pos h

theorem truncate_intCast (v : ℤ) : truncate v = v := by
  unfold truncate
  split <;> simp

end Cheferd.Library.Double
