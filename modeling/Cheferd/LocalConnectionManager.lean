import Cheferd.Library.Decimal
import Cheferd.Library.Lists

namespace Cheferd.LocalConnectionManager

open Library

def initialConnectionDelay : ℤ := 500000

def maxConnectionDelay : ℤ := 2 ^ 31 - 1

structure Accepting where
  delay : ℤ
  registered : List ℤ
deriving DecidableEq

/-- The language gives no value to a product of two `int` that does not fit. -/
def times (a b : ℤ) : Option ℤ := if Decimal.InRange 32 (a * b) then some (a * b) else none

def accepted (s : Accepting) (socket : ℤ) : Option Accepting :=
  if socket ≠ -1 then some { delay := initialConnectionDelay, registered := s.registered ++ [socket] }
  else if s.delay < maxConnectionDelay then (times s.delay 2).map fun delay => { s with delay := delay }
  else some s

def start (sockets : List ℤ) : Option Accepting := sockets.foldlM accepted ⟨initialConnectionDelay, []⟩

structure BacksOff (sockets : List ℤ) : Prop where
  fits : ∀ taken, taken <+: sockets → (start taken).isSome
  bounded : ∀ taken s, taken <+: sockets → start taken = some s →
    initialConnectionDelay ≤ s.delay ∧ s.delay ≤ maxConnectionDelay
  failure : ∀ taken s t, taken ++ [-1] <+: sockets → start taken = some s → start (taken ++ [-1]) = some t →
    s.delay ≤ t.delay
  success : ∀ taken socket t, socket ≠ -1 → taken ++ [socket] <+: sockets → start (taken ++ [socket]) = some t →
    t.delay = initialConnectionDelay

variable {sockets taken : List ℤ} {socket : ℤ} {s t : Accepting}

theorem start_concat (sockets : List ℤ) (socket : ℤ) :
    start (sockets ++ [socket]) = (start sockets).bind fun s => accepted s socket := by
  unfold start
  rw [List.foldlM_append]
  simp

theorem accepted_failure {failures : ℕ} (hdelay : s.delay = initialConnectionDelay * 2 ^ failures)
    (hfailures : failures ≤ 12) :
    accepted s (-1) =
      if failures < 12 then some { s with delay := initialConnectionDelay * 2 ^ (failures + 1) } else none := by
  have hpow : (2 : ℤ) ^ failures ≤ 2 ^ 12 := pow_le_pow_right₀ (by norm_num) hfailures
  have hpos : (0 : ℤ) < 2 ^ failures := by positivity
  have hlt : s.delay < maxConnectionDelay := by
    rw [hdelay, initialConnectionDelay, maxConnectionDelay]
    linarith
  have hdouble : s.delay * 2 = initialConnectionDelay * 2 ^ (failures + 1) := by
    rw [hdelay, pow_succ, mul_assoc]
  have hfits : Decimal.InRange 32 (s.delay * 2) ↔ failures < 12 := by
    rw [hdouble, initialConnectionDelay]
    constructor
    · rintro ⟨-, hmax⟩
      by_contra hge
      obtain rfl : failures = 12 := by omega
      norm_num at hmax
    · intro hless
      have hnext : (2 : ℤ) ^ (failures + 1) ≤ 2 ^ 12 := pow_le_pow_right₀ (by norm_num) hless
      have hnextpos : (0 : ℤ) < 2 ^ (failures + 1) := by positivity
      generalize (2 : ℤ) ^ (failures + 1) = factor at hnext hnextpos
      constructor <;> omega
  rw [accepted, if_neg (not_not.mpr rfl), if_pos hlt, times]
  simp only [hfits]
  split
  · rw [Option.map_some, hdouble]
  · rfl

theorem start_cases (sockets : List ℤ) :
    (∃ s, start sockets = some s ∧ s.delay = initialConnectionDelay * 2 ^ Lists.streak (-1) sockets ∧
      Lists.streak (-1) sockets ≤ 12 ∧ ¬ List.replicate 13 (-1) <:+: sockets) ∨
    start sockets = none ∧ List.replicate 13 (-1) <:+: sockets := by
  induction sockets using List.reverseRecOn with
  | nil => exact .inl ⟨_, rfl, by simp [Lists.streak_nil], by simp [Lists.streak_nil], by simp⟩
  | append_singleton sockets socket ih =>
    rw [start_concat, Lists.replicate_infix_concat_iff, Lists.streak_concat]
    rcases ih with ⟨s, hs, hdelay, hstreak, hthirteen⟩ | ⟨hs, hthirteen⟩
    · rw [hs, Option.bind_some]
      by_cases hsocket : socket = -1
      · subst hsocket
        rw [accepted_failure hdelay hstreak, if_pos rfl]
        by_cases hlt : Lists.streak (-1) sockets < 12
        · rw [if_pos hlt]
          exact .inl ⟨_, rfl, rfl, hlt, not_or.mpr ⟨by omega, hthirteen⟩⟩
        · rw [if_neg hlt]
          exact .inr ⟨rfl, .inl (by omega)⟩
      · rw [accepted, if_pos hsocket, if_neg hsocket]
        exact .inl ⟨_, rfl, by simp, by omega, not_or.mpr ⟨by omega, hthirteen⟩⟩
    · exact .inr ⟨by rw [hs]; rfl, .inr hthirteen⟩

theorem start_isSome_iff : (start sockets).isSome ↔ ¬ List.replicate 13 (-1) <:+: sockets := by
  rcases start_cases sockets with ⟨s, hs, -, -, hnot⟩ | ⟨hnone, hthirteen⟩
  · exact iff_of_true (by rw [hs]; rfl) hnot
  · exact iff_of_false (by simp [hnone]) (not_not.mpr hthirteen)

theorem delay_eq (hs : start sockets = some s) :
    s.delay = initialConnectionDelay * 2 ^ Lists.streak (-1) sockets ∧ Lists.streak (-1) sockets ≤ 12 := by
  rcases start_cases sockets with ⟨s', hs', hdelay, hstreak, -⟩ | ⟨hnone, -⟩
  · obtain rfl : s' = s := Option.some.inj (hs'.symm.trans hs)
    exact ⟨hdelay, hstreak⟩
  · rw [hnone] at hs
    cases hs

theorem delay_bounded (hs : start sockets = some s) :
    initialConnectionDelay ≤ s.delay ∧ s.delay ≤ maxConnectionDelay := by
  obtain ⟨hdelay, hstreak⟩ := delay_eq hs
  have hpow : (2 : ℤ) ^ Lists.streak (-1) sockets ≤ 2 ^ 12 := pow_le_pow_right₀ (by norm_num) hstreak
  have hone : (1 : ℤ) ≤ 2 ^ Lists.streak (-1) sockets := one_le_pow₀ (by norm_num)
  rw [hdelay, initialConnectionDelay, maxConnectionDelay]
  constructor <;> linarith

theorem delay_failure (hs : start taken = some s) (ht : start (taken ++ [-1]) = some t) :
    s.delay ≤ t.delay := by
  have hpos : (0 : ℤ) < 2 ^ Lists.streak (-1) taken := by positivity
  rw [(delay_eq hs).1, (delay_eq ht).1, Lists.streak_concat, if_pos rfl, pow_succ, initialConnectionDelay]
  linarith

theorem delay_success (hsocket : socket ≠ -1) (ht : start (taken ++ [socket]) = some t) :
    t.delay = initialConnectionDelay := by
  rw [(delay_eq ht).1, Lists.streak_concat, if_neg hsocket, pow_zero, mul_one]

theorem delay_bounded_iff (sockets : List ℤ) : BacksOff sockets ↔ ¬ List.replicate 13 (-1) <:+: sockets := by
  constructor
  · intro h
    exact start_isSome_iff.mp (h.fits sockets List.prefix_rfl)
  · intro h
    constructor
    · intro taken htaken
      exact start_isSome_iff.mpr fun hthirteen => h (hthirteen.trans htaken.isInfix)
    · intro taken s _ hs
      exact delay_bounded hs
    · intro taken s t _ hs ht
      exact delay_failure hs ht
    · intro taken socket t hsocket _ ht
      exact delay_success hsocket ht

theorem delay_overflows :
    start (List.replicate 12 (-1)) = some ⟨2048000000, []⟩ ∧ (2048000000 : ℤ) < maxConnectionDelay ∧
      start (List.replicate 13 (-1)) = none ∧ ¬ BacksOff (List.replicate 13 (-1)) := by
  refine ⟨by decide, by decide, by decide, fun h => ?_⟩
  have hsome := h.fits _ List.prefix_rfl
  exact absurd hsome (by decide)

end Cheferd.LocalConnectionManager
