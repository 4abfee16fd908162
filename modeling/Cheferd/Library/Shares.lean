import Mathlib.Algebra.BigOperators.Ring.List
import Mathlib.Algebra.Order.BigOperators.Group.List
import Mathlib.Algebra.Order.Floor.Ring
import Mathlib.Data.Rat.Floor
import Mathlib.Tactic.Linarith

namespace Cheferd.Library.Shares

variable {ι : Type} {l : List ι}

theorem sum_floor_mul_le (weight : ι → ℤ) (perc : ℚ) :
    ((l.map fun i => ⌊weight i * perc⌋).sum : ℚ) ≤ (l.map weight).sum * perc := by
  induction l with
  | nil => simp
  | cons i l ih =>
    rw [List.map_cons, List.map_cons, List.sum_cons, List.sum_cons, Int.cast_add, Int.cast_add, add_mul]
    exact add_le_add (Int.floor_le _) ih

theorem sum_floor_share_le (weight : ι → ℤ) {whole : ℤ} (h : 0 ≤ whole) :
    (l.map fun i => ⌊(weight i : ℚ) * (whole / (l.map weight).sum)⌋).sum ≤ whole := by
  have hle := sum_floor_mul_le (l := l) weight (whole / (l.map weight).sum)
  have hwhole : ((l.map weight).sum : ℚ) * (whole / (l.map weight).sum) ≤ whole := by
    by_cases hzero : ((l.map weight).sum : ℚ) = 0
    · rw [hzero, zero_mul]
      exact_mod_cast h
    · rw [mul_div_cancel₀ _ hzero]
  exact_mod_cast hle.trans hwhole

theorem sub_le_sum_floor_mul (l : List ι) (weight : ι → ℤ) (perc : ℚ) :
    ((l.map weight).sum : ℚ) * perc - l.length ≤ ((l.map fun i => ⌊weight i * perc⌋).sum : ℤ) := by
  induction l with
  | nil => simp
  | cons i l ih =>
    have hfloor := Int.sub_one_lt_floor ((weight i : ℚ) * perc)
    rw [List.map_cons, List.map_cons, List.sum_cons, List.sum_cons, Int.cast_add, Int.cast_add, add_mul,
      List.length_cons, Nat.cast_add, Nat.cast_one]
    linarith

theorem lt_sum_floor_share (weight : ι → ℤ) (whole : ℤ) (hl : l ≠ []) (htotal : (l.map weight).sum ≠ 0) :
    whole - l.length < (l.map fun i => ⌊(weight i : ℚ) * (whole / (l.map weight).sum)⌋).sum := by
  have hwhole : ((l.map weight).sum : ℚ) * (whole / (l.map weight).sum) = whole :=
    mul_div_cancel₀ _ (by exact_mod_cast htotal)
  generalize hperc : (whole : ℚ) / (l.map weight).sum = perc at hwhole
  cases l with
  | nil => exact absurd rfl hl
  | cons i l =>
    have hfloor := Int.sub_one_lt_floor ((weight i : ℚ) * perc)
    have hrest := sub_le_sum_floor_mul l weight perc
    rw [List.map_cons, List.sum_cons, Int.cast_add, add_mul] at hwhole
    rw [List.map_cons, List.sum_cons, List.length_cons]
    have hlt : (whole : ℚ) - (l.length + 1) <
        ⌊(weight i : ℚ) * perc⌋ + ((l.map fun i => ⌊weight i * perc⌋).sum : ℤ) := by
      linarith
    exact_mod_cast hlt

theorem one_le_floor_share_iff {weight whole total : ℤ} (htotal : 0 < total) :
    1 ≤ ⌊(weight : ℚ) * (whole / total)⌋ ↔ total ≤ weight * whole := by
  have hpos : (0 : ℚ) < total := by exact_mod_cast htotal
  rw [Int.le_floor, ← mul_div_assoc, le_div_iff₀ hpos]
  norm_cast
  rw [one_mul]

theorem floor_share_mono {weight whole whole' total : ℤ} (hweight : 0 ≤ weight) (htotal : 0 ≤ total)
    (h : whole ≤ whole') : ⌊(weight : ℚ) * (whole / total)⌋ ≤ ⌊(weight : ℚ) * (whole' / total)⌋ := by
  apply Int.floor_le_floor
  apply mul_le_mul_of_nonneg_left
  · exact div_le_div_of_nonneg_right (by exact_mod_cast h) (by exact_mod_cast htotal)
  · exact_mod_cast hweight

section Mixed

variable (kept : ι → Bool) (old new : ι → ℤ)

def mixed (perc : ℚ) (i : ι) : ℤ := if kept i then old i else ⌊new i * perc⌋

variable {kept old new}

theorem mixed_one (i : ι) : mixed kept old new 1 i = if kept i then old i else new i := by
  simp [mixed]

theorem sum_kept_add_changed (kept : ι → Bool) (l : List ι) (f g : ι → ℤ) :
    (l.map fun i => if kept i then f i else g i).sum =
      ((l.filter kept).map f).sum + ((l.filter (! kept ·)).map g).sum := by
  rw [List.sum_map_ite]
  simp

theorem sum_kept_le {a b : ℤ} (h : ∀ i ∈ l, kept i → b * old i ≤ a * new i) :
    b * ((l.filter kept).map old).sum ≤ a * ((l.filter kept).map new).sum := by
  rw [← List.sum_map_mul_left, ← List.sum_map_mul_left]
  refine List.sum_le_sum fun i hi => ?_
  obtain ⟨hi, hk⟩ := List.mem_filter.mp hi
  exact h i hi hk

theorem sum_filter_nonneg {p : ι → Bool} {f : ι → ℤ} (h : ∀ i ∈ l, p i → 0 ≤ f i) :
    0 ≤ ((l.filter p).map f).sum :=
  List.sum_nonneg fun v hv => by
    obtain ⟨i, hi, rfl⟩ := List.mem_map.mp hv
    exact h i (List.mem_filter.mp hi).1 (List.mem_filter.mp hi).2

theorem sum_kept_le_max (kept : ι → Bool) (f : ι → ℤ) :
    ((l.filter kept).map f).sum ≤ (l.map fun i => max (f i) 0).sum := by
  have hsplit := sum_kept_add_changed kept l (fun i => max (f i) 0) fun i => max (f i) 0
  simp only [ite_self] at hsplit
  rw [hsplit]
  have hkept : ((l.filter kept).map f).sum ≤ ((l.filter kept).map fun i => max (f i) 0).sum :=
    List.sum_le_sum fun _ _ => le_max_left _ _
  have hchanged : 0 ≤ ((l.filter (! kept ·)).map fun i => max (f i) 0).sum :=
    sum_filter_nonneg fun _ _ _ => le_max_right _ _
  linarith

theorem sum_mixed_one_le {a b limit : ℤ} (hb : b ≤ a) (ha : 0 ≤ a) (hnew : ∀ i ∈ l, 0 ≤ new i)
    (hkept : ∀ i ∈ l, kept i → b * old i ≤ a * new i) (hsum : (l.map new).sum ≤ limit) :
    b * (l.map (mixed kept old new 1)).sum ≤ a * limit := by
  have hle : (l.map fun i => b * mixed kept old new 1 i).sum ≤ (l.map fun i => a * new i).sum := by
    refine List.sum_le_sum fun i hi => ?_
    rw [mixed_one]
    split
    case isTrue hk => exact hkept i hi hk
    case isFalse => exact mul_le_mul_of_nonneg_right hb (hnew i hi)
  rw [List.sum_map_mul_left, List.sum_map_mul_left] at hle
  exact hle.trans (mul_le_mul_of_nonneg_left hsum ha)

theorem sum_mixed_scaled_le (limit : ℤ) (hnew : ∀ i ∈ l, 0 ≤ new i)
    (hkept : ∀ i ∈ l, kept i → 0 ≤ old i) {perc : ℚ}
    (hperc : perc = (limit - ((l.filter kept).map old).sum : ℤ) / ((l.filter (! kept ·)).map new).sum) :
    (l.map fun i => max (mixed kept old new perc i) 0).sum ≤ max limit ((l.filter kept).map old).sum := by
  have hsplit : (l.map fun i => max (mixed kept old new perc i) 0).sum =
      ((l.filter kept).map old).sum + ((l.filter (! kept ·)).map fun i => max ⌊new i * perc⌋ 0).sum := by
    rw [← sum_kept_add_changed]
    congr 1
    refine List.map_congr_left fun i hi => ?_
    unfold mixed
    split
    case isTrue hk => exact max_eq_left (hkept i hi hk)
    case isFalse => rfl
  have hnonneg : 0 ≤ ((l.filter (! kept ·)).map new).sum := sum_filter_nonneg fun i hi _ => hnew i hi
  rw [hsplit]
  by_cases hroom : 0 ≤ limit - ((l.filter kept).map old).sum
  · have hpos : 0 ≤ perc := by
      rw [hperc]
      exact div_nonneg (by exact_mod_cast hroom) (by exact_mod_cast hnonneg)
    have hfloor : ((l.filter (! kept ·)).map fun i => max ⌊new i * perc⌋ 0).sum =
        ((l.filter (! kept ·)).map fun i => ⌊new i * perc⌋).sum := by
      congr 1
      refine List.map_congr_left fun i hi => max_eq_left (Int.floor_nonneg.mpr ?_)
      exact mul_nonneg (by exact_mod_cast hnew i (List.mem_filter.mp hi).1) hpos
    have hshare := sum_floor_share_le (l := l.filter (! kept ·)) new hroom
    rw [← hperc] at hshare
    rw [hfloor]
    exact le_max_of_le_left (by linarith)
  · have hneg : perc ≤ 0 := by
      rw [hperc]
      exact div_nonpos_of_nonpos_of_nonneg (by exact_mod_cast (not_le.mp hroom).le) (by exact_mod_cast hnonneg)
    have hnone : ((l.filter (! kept ·)).map fun i => max ⌊new i * perc⌋ 0).sum = 0 := by
      refine List.sum_eq_zero fun v hv => ?_
      obtain ⟨i, hi, rfl⟩ := List.mem_map.mp hv
      refine max_eq_right (Int.floor_le_iff.mpr ?_)
      have := mul_nonpos_of_nonneg_of_nonpos
        (by exact_mod_cast hnew i (List.mem_filter.mp hi).1 : (0 : ℚ) ≤ new i) hneg
      push_cast
      linarith
    rw [hnone, add_zero]
    exact le_max_right _ _

end Mixed

end Cheferd.Library.Shares
