import Mathlib.Algebra.Order.Group.Unbundled.Int
import Mathlib.Data.List.Nodup
import Mathlib.Tactic.Linarith

namespace Cheferd.Library.FairShare

variable {ι : Type}

def spare (part : ι → ℤ → ℕ → ℤ) : List ι → ℤ → ℤ
  | [], left => left
  | i :: l, left => spare part l (left - part i left (l.length + 1))

def greedy (want : ι → ℤ) (i : ι) (left : ℤ) (n : ℕ) : ℤ := min (want i) (left / n)

def settled (want : ι → ℤ) (even : ι → Bool) (i : ι) (left : ℤ) (n : ℕ) : ℤ :=
  if even i then left / n else want i

variable {part part' : ι → ℤ → ℕ → ℤ} {want want' : ι → ℤ} {even : ι → Bool} {l : List ι} {left left' : ℤ}

theorem ediv_le_ediv_add {n : ℕ} (hn : 0 < n) (h : left ≤ left') : left' / n ≤ left / n + (left' - left) := by
  have hpos : (0 : ℤ) < n := by exact_mod_cast hn
  rw [← Int.add_mul_ediv_right _ _ hpos.ne']
  apply Int.ediv_le_ediv hpos
  have hmul : (left' - left) * 1 ≤ (left' - left) * n := mul_le_mul_of_nonneg_left (by omega) (by omega)
  omega

theorem greedy_le (i : ι) (left : ℤ) (n : ℕ) : greedy want i left n ≤ left / n := min_le_right _ _

theorem spare_congr (h : ∀ i ∈ l, part i = part' i) : spare part l left = spare part' l left := by
  induction l generalizing left with
  | nil => rfl
  | cons i l ih =>
    rw [spare, spare, h i List.mem_cons_self]
    exact ih fun j hj => h j (List.mem_cons_of_mem _ hj)

theorem sub_greedy_le {i : ι} {a b : ℤ} {n : ℕ} (hn : 0 < n) (hab : a ≤ b) (hwant : want i ≤ want' i) :
    a - greedy want' i a n ≤ b - greedy want i b n := by
  have hquotient := ediv_le_ediv_add hn hab
  unfold greedy
  omega

theorem sub_settled_le {i : ι} {a b : ℤ} {n : ℕ} (hn : 0 < n) (hab : a ≤ b) :
    a - settled want even i a n ≤ b - greedy want i b n := by
  have hquotient := ediv_le_ediv_add hn hab
  unfold greedy settled
  split <;> omega

theorem one_le_ediv {n : ℕ} (hn : 0 < n) (h : n ≤ left) : 1 ≤ left / n :=
  (Int.le_ediv_iff_mul_le (by exact_mod_cast hn)).mpr (by omega)

theorem le_sub_greedy {i : ι} {n : ℕ} (h : (n + 1 : ℕ) ≤ left) : n ≤ left - greedy want i left (n + 1) := by
  have hone := one_le_ediv (by omega : 0 < n + 1) h
  have hmul : left / (n + 1 : ℕ) * (n + 1 : ℕ) ≤ left := Int.ediv_mul_le _ (by positivity)
  have hrest : 0 ≤ (left / (n + 1 : ℕ) - 1) * (n : ℤ) := mul_nonneg (by omega) (by positivity)
  have hgreedy : greedy want i left (n + 1) ≤ left / (n + 1 : ℕ) := greedy_le i left (n + 1)
  push_cast at *
  linarith

theorem spare_nonneg (hpart : ∀ i left n, part i left n ≤ left / n) (hleft : 0 ≤ left) :
    0 ≤ spare part l left := by
  induction l generalizing left with
  | nil => exact hleft
  | cons i l ih =>
    apply ih
    have hle := hpart i left (l.length + 1)
    have hself := Int.ediv_le_self ((l.length + 1 : ℕ) : ℤ) hleft
    omega

theorem spare_greedy_le_add (h : left ≤ left') :
    spare (greedy want) l left' ≤ spare (greedy want) l left + (left' - left) := by
  induction l generalizing left left' with
  | nil =>
    rw [spare, spare]
    omega
  | cons i l ih =>
    have hnext : left - greedy want i left (l.length + 1) ≤ left' - greedy want i left' (l.length + 1) :=
      sub_greedy_le l.length.succ_pos h le_rfl
    have hmono : greedy want i left (l.length + 1) ≤ greedy want i left' (l.length + 1) :=
      min_le_min_left _ (Int.ediv_le_ediv (by positivity) h)
    have hrest := ih hnext
    rw [spare, spare]
    omega

variable [DecidableEq ι]

def offer (part : ι → ℤ → ℕ → ℤ) : List ι → ℤ → ι → ℤ
  | [], _, _ => 0
  | i :: l, left, j =>
    if j = i then left / (l.length + 1 : ℕ) else offer part l (left - part i left (l.length + 1)) j

def rate (want : ι → ℤ) (l : List ι) (whole : ℤ) (j : ι) : ℤ :=
  min (want j) (offer (greedy want) l whole j) + spare (greedy want) l whole / l.length

theorem offer_congr (h : ∀ i ∈ l, part i = part' i) (j : ι) : offer part l left j = offer part' l left j := by
  induction l generalizing left with
  | nil => rfl
  | cons i l ih =>
    rw [offer, offer, h i List.mem_cons_self]
    split
    · rfl
    · exact ih fun k hk => h k (List.mem_cons_of_mem _ hk)

theorem rate_congr (h : ∀ i ∈ l, want i = want' i) {whole : ℤ} {j : ι} (hj : j ∈ l) :
    rate want l whole j = rate want' l whole j := by
  have hgreedy : ∀ i ∈ l, greedy want i = greedy want' i := by
    intro i hi
    funext left n
    rw [greedy, greedy, h i hi]
  rw [rate, rate, offer_congr hgreedy, spare_congr hgreedy, h j hj]

theorem spare_le_and_offer_le
    (h : ∀ i ∈ l, ∀ a b n, a ≤ b → 0 < n → a - part i a n ≤ b - part' i b n) (hleft : left ≤ left') :
    spare part l left ≤ spare part' l left' ∧ ∀ j, offer part l left j ≤ offer part' l left' j := by
  induction l generalizing left left' with
  | nil => exact ⟨hleft, fun _ => le_rfl⟩
  | cons i l ih =>
    have hnext := h i List.mem_cons_self left left' (l.length + 1) hleft l.length.succ_pos
    obtain ⟨hspare, hoffer⟩ := ih (fun j hj => h j (List.mem_cons_of_mem _ hj)) hnext
    constructor
    · exact hspare
    · intro j
      rw [offer, offer]
      split
      · exact Int.ediv_le_ediv (by positivity) hleft
      · exact hoffer j

theorem settled_le_greedy (want : ι → ℤ) (even : ι → Bool) (l : List ι) (left : ℤ) :
    spare (settled want even) l left ≤ spare (greedy want) l left ∧
      ∀ j, offer (settled want even) l left j ≤ offer (greedy want) l left j :=
  spare_le_and_offer_le (fun _ _ _ _ _ hab hn => sub_settled_le hn hab) le_rfl

theorem ediv_le_offer_next {n : ℕ} (hn : 0 < n) {taken : ℤ} (h : taken ≤ left / (n + 1 : ℕ)) :
    left / (n + 1 : ℕ) ≤ (left - taken) / n := by
  apply (Int.le_ediv_iff_mul_le (by exact_mod_cast hn)).mpr
  have hmul : left / (n + 1 : ℕ) * (n + 1 : ℕ) ≤ left := Int.ediv_mul_le _ (by positivity)
  push_cast at hmul h ⊢
  linarith

theorem le_offer (hpart : ∀ i left n, part i left n ≤ left / n) {j : ι} (hj : j ∈ l) :
    left / l.length ≤ offer part l left j := by
  induction l generalizing left with
  | nil => cases hj
  | cons i l ih =>
    rw [offer]
    split
    case isTrue => exact le_rfl
    case isFalse hne =>
      have hmem := (List.mem_cons.mp hj).resolve_left hne
      exact (ediv_le_offer_next (List.length_pos_of_mem hmem) (hpart i left _)).trans (ih hmem)

theorem le_rate {whole : ℤ} (hwhole : 0 ≤ whole) {j : ι} (hj : j ∈ l) :
    min (want j) (whole / l.length) ≤ rate want l whole j := by
  have hoffer : whole / l.length ≤ offer (greedy want) l whole j := le_offer greedy_le hj
  have hspare : 0 ≤ spare (greedy want) l whole / l.length :=
    Int.ediv_nonneg (spare_nonneg greedy_le hwhole) (Int.natCast_nonneg _)
  unfold rate
  omega

section Raise

variable {k : ι} (hraise : want k ≤ want' k) (hsame : ∀ i ∈ l, i ≠ k → want' i = want i)

include hraise hsame in
theorem want_le : ∀ i ∈ l, want i ≤ want' i := by
  intro i hi
  by_cases he : i = k
  · exact he ▸ hraise
  · exact (hsame i hi he).ge

include hraise hsame in
theorem spare_le_add_raised (hnodup : l.Nodup) (hk : k ∈ l) :
    offer (greedy want') l left k = offer (greedy want) l left k ∧
      spare (greedy want) l left + min (want k) (offer (greedy want) l left k) ≤
        spare (greedy want') l left + min (want' k) (offer (greedy want) l left k) := by
  induction l generalizing left with
  | nil => cases hk
  | cons i l ih =>
    obtain ⟨hnotin, hnodup⟩ := List.nodup_cons.mp hnodup
    by_cases he : k = i
    · subst he
      have hrest : spare (greedy want') l = spare (greedy want) l := by
        funext left
        apply spare_congr
        intro j hj
        have hne : j ≠ k := fun he => hnotin (he ▸ hj)
        funext left n
        rw [greedy, greedy, hsame j (List.mem_cons_of_mem _ hj) hne]
      have hle : left - greedy want' k left (l.length + 1) ≤ left - greedy want k left (l.length + 1) :=
        sub_greedy_le l.length.succ_pos le_rfl hraise
      have hadd : spare (greedy want) l _ ≤ _ := spare_greedy_le_add hle
      rw [offer, if_pos rfl, offer, if_pos rfl, spare, spare, hrest]
      constructor
      · rfl
      · simp only [greedy] at hadd ⊢
        omega
    · have hi : want' i = want i := hsame i List.mem_cons_self (Ne.symm he)
      have hgreedy : greedy want' i = greedy want i := by
        funext left n
        rw [greedy, greedy, hi]
      rw [offer, if_neg he, offer, if_neg he, spare, spare, hgreedy]
      exact ih (fun j hj => hsame j (List.mem_cons_of_mem _ hj)) hnodup ((List.mem_cons.mp hk).resolve_left he)

include hraise hsame in
theorem rate_raised (hnodup : l.Nodup) (hk : k ∈ l) (whole : ℤ) :
    rate want l whole k ≤ rate want' l whole k ∧
      ∀ j ∈ l, j ≠ k → rate want' l whole j ≤ rate want l whole j := by
  have hpos : 0 < l.length := List.length_pos_of_mem hk
  have hwant := want_le hraise hsame
  obtain ⟨hless, hoffers⟩ : spare (greedy want') l whole ≤ spare (greedy want) l whole ∧
      ∀ j, offer (greedy want') l whole j ≤ offer (greedy want) l whole j :=
    spare_le_and_offer_le (fun i hi a b n hab hn => sub_greedy_le hn hab (hwant i hi)) le_rfl
  obtain ⟨hoffer, hmore⟩ := @spare_le_add_raised ι want want' l whole _ k hraise hsame hnodup hk
  constructor
  · have hquotient := ediv_le_ediv_add hpos hless
    unfold rate
    rw [hoffer]
    omega
  · intro j hj hne
    have hquotient : spare (greedy want') l whole / l.length ≤ spare (greedy want) l whole / l.length :=
      Int.ediv_le_ediv (by exact_mod_cast hpos) hless
    unfold rate
    rw [hsame j hj hne]
    have hoffer' := hoffers j
    omega

end Raise

section Fairness

theorem exists_filled (hnodup : l.Nodup) (hl : l ≠ []) (h : 0 < spare (greedy want) l left) :
    ∃ j ∈ l, want j ≤ offer (greedy want) l left j := by
  induction l generalizing left with
  | nil => exact absurd rfl hl
  | cons i l ih =>
    obtain ⟨hnotin, hnodup⟩ := List.nodup_cons.mp hnodup
    rw [spare] at h
    by_cases hnil : l = []
    · refine ⟨i, List.mem_cons_self, ?_⟩
      rw [offer, if_pos rfl]
      subst hnil
      simp only [spare, greedy] at h
      simp only [List.length_nil, zero_add, Nat.cast_one, Int.ediv_one] at h ⊢
      omega
    · obtain ⟨j, hj, hwant⟩ := ih hnodup hnil h
      have hne : j ≠ i := fun he => hnotin (he ▸ hj)
      refine ⟨j, List.mem_cons_of_mem _ hj, ?_⟩
      rw [offer, if_neg hne]
      exact hwant

theorem exists_settled (want : ι → ℤ) (hnodup : l.Nodup) (left : ℤ) :
    ∃ even, spare (settled want even) l left = spare (greedy want) l left ∧
      ∀ j ∈ l, offer (settled want even) l left j = offer (greedy want) l left j := by
  induction l generalizing left with
  | nil => exact ⟨fun _ => true, rfl, by simp⟩
  | cons i l ih =>
    obtain ⟨hnotin, hnodup⟩ := List.nodup_cons.mp hnodup
    obtain ⟨even, hspare, hoffer⟩ := ih hnodup (left - greedy want i left (l.length + 1))
    let even' := Function.update even i (decide (left / (l.length + 1 : ℕ) < want i))
    have hfirst : settled want even' i left (l.length + 1) = greedy want i left (l.length + 1) := by
      simp only [settled, greedy, even', Function.update_self, decide_eq_true_eq]
      split <;> omega
    have hrest : ∀ j ∈ l, settled want even' j = settled want even j := by
      intro j hj
      have hne : j ≠ i := fun he => hnotin (he ▸ hj)
      funext left n
      simp only [settled, even', Function.update_of_ne hne]
    refine ⟨even', ?_, fun j hj => ?_⟩
    · rw [spare, spare, hfirst, spare_congr hrest, hspare]
    · rw [offer, offer, hfirst]
      split
      case isTrue => rfl
      case isFalse hne =>
        rw [offer_congr hrest]
        exact hoffer j ((List.mem_cons.mp hj).resolve_left hne)

theorem fair_iff (hnodup : l.Nodup) {whole : ℤ} (hwhole : 0 ≤ whole) :
    ((∃ i ∈ l, rate want l whole i < want i) → ∀ j ∈ l, rate want l whole j ≤ want j) ↔
      (∀ even, spare (settled want even) l whole < l.length) ∨
        ∃ even, ∀ i ∈ l, want i ≤ offer (settled want even) l whole i +
          spare (settled want even) l whole / l.length := by
  by_cases hl : l = []
  · subst hl
    simp
  have hpos : (0 : ℤ) < l.length := by exact_mod_cast List.length_pos_iff.mpr hl
  obtain ⟨even, hspare, hoffer⟩ := exists_settled want hnodup whole
  have hnonneg : 0 ≤ spare (greedy want) l whole := spare_nonneg greedy_le hwhole
  constructor
  · intro hfair
    by_cases hsmall : spare (greedy want) l whole < l.length
    · exact .inl fun even => (settled_le_greedy want even l whole).1.trans_lt hsmall
    · right
      have hextra : 1 ≤ spare (greedy want) l whole / l.length :=
        (Int.le_ediv_iff_mul_le hpos).mpr (by omega)
      obtain ⟨j, hj, hfilled⟩ := exists_filled hnodup hl (by omega : 0 < spare (greedy want) l whole)
      refine ⟨even, fun i hi => ?_⟩
      rw [hspare, hoffer i hi]
      by_contra hlack
      have hexceeds := hfair ⟨i, hi, by unfold rate; omega⟩ j hj
      unfold rate at hexceeds
      omega
  · rintro (hsmall | ⟨even', hserved⟩)
    · intro _ j _
      have hzero : spare (greedy want) l whole / l.length = 0 :=
        Int.ediv_eq_zero_of_lt hnonneg (hspare ▸ hsmall even)
      unfold rate
      omega
    · rintro ⟨i, hi, hlack⟩
      have hbetter := Int.ediv_le_ediv hpos (settled_le_greedy want even' l whole).1
      have hmore := (settled_le_greedy want even' l whole).2 i
      have hnow := hserved i hi
      have hextra := Int.ediv_nonneg hnonneg hpos.le
      unfold rate at hlack
      omega

end Fairness

end Cheferd.Library.FairShare
