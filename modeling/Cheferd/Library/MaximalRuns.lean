import Cheferd.Library.Tokens
import Mathlib.Order.Interval.Basic
import Mathlib.Order.Minimal

namespace Cheferd.Library.Tokens

variable {α : Type}

def Free (c : α) (s : List α) (I : NonemptyInterval ℕ) : Prop := ∀ i ∈ I, ∃ x, s[i]? = some x ∧ x ≠ c

def text (s : List α) (I : NonemptyInterval ℕ) : List α := (s.drop I.fst).take (I.snd + 1 - I.fst)

def shift (n : ℕ) (I : NonemptyInterval ℕ) : NonemptyInterval ℕ :=
  ⟨(I.fst + n, I.snd + n), Nat.add_le_add_right I.fst_le_snd n⟩

structure Runs (c : α) (s : List α) (runs : List (NonemptyInterval ℕ)) : Prop where
  ordered : runs.Pairwise fun I J => I.snd < J.fst
  maximal : ∀ I, I ∈ runs ↔ Maximal (Free c s) I

variable {c : α} {s t : List α} {I J : NonemptyInterval ℕ} {n : ℕ}

theorem mem_iff {i : ℕ} : i ∈ I ↔ I.fst ≤ i ∧ i ≤ I.snd := NonemptyInterval.mem_def

theorem shift_le_shift : shift n I ≤ shift n J ↔ I ≤ J := by
  simp only [NonemptyInterval.le_def, shift]
  omega

theorem exists_shift (h : n ≤ I.fst) : ∃ J, I = shift n J := by
  have hle := I.fst_le_snd
  refine ⟨⟨(I.fst - n, I.snd - n), by dsimp only; omega⟩, ?_⟩
  apply NonemptyInterval.ext
  apply Prod.ext
  · exact (Nat.sub_add_cancel h).symm
  · exact (Nat.sub_add_cancel (h.trans hle)).symm

theorem Free.snd_lt (h : Free c s I) : I.snd < s.length := by
  obtain ⟨x, hx, -⟩ := h I.snd (mem_iff.mpr ⟨I.fst_le_snd, le_rfl⟩)
  exact (List.getElem?_eq_some_iff.mp hx).1

theorem free_append_left (h : I.snd < s.length) : Free c (s ++ t) I ↔ Free c s I := by
  refine forall₂_congr fun i hi => ?_
  rw [List.getElem?_append_left ((mem_iff.mp hi).2.trans_lt h)]

theorem free_shift : Free c (s ++ t) (shift s.length I) ↔ Free c t I := by
  constructor
  · intro h i hi
    obtain ⟨hfst, hsnd⟩ := mem_iff.mp hi
    have hx := h (i + s.length) (mem_iff.mpr ⟨Nat.add_le_add_right hfst _, Nat.add_le_add_right hsnd _⟩)
    rwa [List.getElem?_append_right (Nat.le_add_left _ _), Nat.add_sub_cancel] at hx
  · intro h i hi
    obtain ⟨hfst, hsnd⟩ := mem_iff.mp hi
    simp only [shift] at hfst hsnd
    rw [List.getElem?_append_right (by omega)]
    exact h (i - s.length) (mem_iff.mpr ⟨by omega, by omega⟩)

theorem free_append : Free c (s ++ c :: t) I ↔ Free c s I ∨ ∃ J, I = shift (s.length + 1) J ∧ Free c t J := by
  have hlength : s.length + 1 = (s ++ [c]).length := by rw [List.length_append, List.length_singleton]
  constructor
  · intro h
    by_cases hleft : I.snd < s.length
    · exact .inl ((free_append_left hleft).mp h)
    · have hright : s.length + 1 ≤ I.fst := by
        by_contra hlt
        obtain ⟨x, hx, hne⟩ := h s.length (mem_iff.mpr ⟨by omega, by omega⟩)
        rw [List.getElem?_append_right le_rfl, Nat.sub_self, List.getElem?_cons_zero] at hx
        exact hne (Option.some.inj hx).symm
      obtain ⟨J, rfl⟩ := exists_shift hright
      refine .inr ⟨J, rfl, ?_⟩
      rw [List.append_cons, hlength] at h
      exact free_shift.mp h
  · rintro (h | ⟨J, rfl, h⟩)
    · exact (free_append_left h.snd_lt).mpr h
    · rw [List.append_cons, hlength]
      exact free_shift.mpr h

theorem maximal_append :
    Maximal (Free c (s ++ c :: t)) I ↔
      Maximal (Free c s) I ∨ ∃ J, I = shift (s.length + 1) J ∧ Maximal (Free c t) J := by
  constructor
  · rintro ⟨h, hmax⟩
    rcases free_append.mp h with hleft | ⟨J, rfl, hright⟩
    · exact .inl ⟨hleft, fun K hK => hmax (free_append.mpr (.inl hK))⟩
    · refine .inr ⟨J, rfl, hright, fun K hK hle => ?_⟩
      exact shift_le_shift.mp (hmax (free_append.mpr (.inr ⟨K, rfl, hK⟩)) (shift_le_shift.mpr hle))
  · rintro (⟨h, hmax⟩ | ⟨J, rfl, h, hmax⟩)
    · refine ⟨free_append.mpr (.inl h), fun K hK hle => ?_⟩
      rcases free_append.mp hK with hleft | ⟨K, rfl, -⟩
      · exact hmax hleft hle
      · have hfst := (NonemptyInterval.le_def.mp hle).1
        have hsnd := h.snd_lt
        have hle := I.fst_le_snd
        simp only [shift] at hfst
        omega
    · refine ⟨free_append.mpr (.inr ⟨J, rfl, h⟩), fun K hK hle => ?_⟩
      rcases free_append.mp hK with hleft | ⟨K, rfl, hright⟩
      · have hsnd := (NonemptyInterval.le_def.mp hle).2
        have hlt := hleft.snd_lt
        simp only [shift] at hsnd
        omega
      · exact shift_le_shift.mpr (hmax hright (shift_le_shift.mp hle))

theorem runs_nil (c : α) : Runs c [] [] := by
  refine ⟨.nil, fun I => ⟨fun h => absurd h List.not_mem_nil, fun h => ?_⟩⟩
  exact absurd h.prop.snd_lt (Nat.not_lt_zero _)

theorem runs_single (hc : c ∉ s) (hs : s ≠ []) :
    ∃ I, Runs c s [I] ∧ text s I = s := by
  have hlength : 0 < s.length := List.length_pos_iff.mpr hs
  let whole : NonemptyInterval ℕ := ⟨(0, s.length - 1), Nat.zero_le _⟩
  have hfree : Free c s whole := by
    intro i hi
    have hlt : i < s.length := by
      have := (mem_iff.mp hi).2
      dsimp only [whole] at this
      omega
    exact ⟨s[i], List.getElem?_eq_getElem hlt, fun he => hc (he ▸ List.getElem_mem hlt)⟩
  have hle : ∀ J, Free c s J → J ≤ whole := by
    intro J hJ
    have hlt := hJ.snd_lt
    exact NonemptyInterval.le_def.mpr ⟨Nat.zero_le _, by dsimp only [whole]; omega⟩
  refine ⟨whole, ⟨List.pairwise_singleton _ _, fun J => ?_⟩, ?_⟩
  · rw [List.mem_singleton]
    constructor
    · rintro rfl
      exact ⟨hfree, fun K hK _ => hle K hK⟩
    · intro h
      exact (h.eq_of_ge hfree (hle J h.prop)).symm
  · simp only [text, whole, List.drop_zero]
    exact List.take_of_length_le (by omega)

theorem Runs.append {runs runs' : List (NonemptyInterval ℕ)} (h : Runs c s runs) (h' : Runs c t runs') :
    Runs c (s ++ c :: t) (runs ++ runs'.map (shift (s.length + 1))) := by
  constructor
  · refine List.pairwise_append.mpr ⟨h.ordered, ?_, ?_⟩
    · refine List.pairwise_map.mpr (h'.ordered.imp fun hlt => ?_)
      exact Nat.add_lt_add_right hlt _
    · intro I hI J hJ
      obtain ⟨K, -, rfl⟩ := List.mem_map.mp hJ
      have hlt := ((h.maximal I).mp hI).prop.snd_lt
      simp only [shift]
      omega
  · intro I
    rw [List.mem_append, h.maximal, List.mem_map, maximal_append]
    refine or_congr_right ⟨?_, ?_⟩
    · rintro ⟨J, hJ, rfl⟩
      exact ⟨J, rfl, (h'.maximal J).mp hJ⟩
    · rintro ⟨J, rfl, hJ⟩
      exact ⟨J, (h'.maximal J).mpr hJ, rfl⟩

theorem text_append_left (h : I.snd < s.length) : text (s ++ t) I = text s I := by
  have hle := I.fst_le_snd
  simp only [text]
  rw [List.drop_append_of_le_length (by omega), List.take_append_of_le_length]
  rw [List.length_drop]
  omega

theorem text_shift (c : α) : text (s ++ c :: t) (shift (s.length + 1) I) = text t I := by
  have hdrop : (s ++ c :: t).drop (I.fst + (s.length + 1)) = t.drop I.fst := by
    have hlength : s.length + 1 = (s ++ [c]).length := by rw [List.length_append, List.length_singleton]
    rw [List.append_cons, hlength, Nat.add_comm, ← List.drop_drop, List.drop_left]
  have hcount : I.snd + (s.length + 1) + 1 - (I.fst + (s.length + 1)) = I.snd + 1 - I.fst := by omega
  simp only [text, shift, hdrop, hcount]

theorem exists_runs [DecidableEq α] (c : α) (s : List α) :
    ∃ runs, Runs c s runs ∧ tokens c s = runs.map (text s) := by
  by_cases hc : c ∈ s
  · obtain ⟨u, v, hs, -⟩ := List.eq_append_cons_of_mem hc
    have hu : u.length < s.length := by simp [hs]
    have hv : v.length < s.length := by
      simp only [hs, List.length_append, List.length_cons]
      omega
    obtain ⟨runs, hruns, htexts⟩ := exists_runs c u
    obtain ⟨runs', hruns', htexts'⟩ := exists_runs c v
    refine ⟨_, hs ▸ hruns.append hruns', ?_⟩
    rw [hs, tokens_append, htexts, htexts', List.map_append, List.map_map]
    congr 1
    · apply List.map_congr_left
      intro I hI
      exact (text_append_left ((hruns.maximal I).mp hI).prop.snd_lt).symm
    · apply List.map_congr_left
      intro I _
      exact (text_shift c).symm
  · by_cases hs : s = []
    · subst hs
      exact ⟨[], runs_nil c, tokens_nil c⟩
    · obtain ⟨I, hI, htext⟩ := runs_single hc hs
      exact ⟨[I], hI, by rw [tokens_single c s hc hs, List.map_singleton, htext]⟩
termination_by s.length

section Joined

def joined (c : α) (leading : ℕ) (parts : List (List α × ℕ)) : List α :=
  List.replicate leading c ++ parts.flatMap fun part => part.1 ++ List.replicate part.2 c

variable [DecidableEq α]

theorem tokens_replicate_append (c : α) (n : ℕ) (s : List α) :
    tokens c (List.replicate n c ++ s) = tokens c s := by
  induction n with
  | zero => rfl
  | succ n ih => rw [List.replicate_succ, List.cons_append, tokens_cons, ih]

theorem tokens_joined {parts : List (List α × ℕ)} (hparts : ∀ part ∈ parts, c ∉ part.1 ∧ part.1 ≠ [])
    (hgaps : ∀ part ∈ parts.dropLast, 0 < part.2) (leading : ℕ) :
    tokens c (joined c leading parts) = parts.map Prod.fst := by
  -- The induction is on the parts; only behind the last one there may be no delimiter
  rw [joined, tokens_replicate_append]
  induction parts with
  | nil => exact tokens_nil c
  | cons part rest ih =>
    obtain ⟨⟨hc, hne⟩, hrest⟩ := List.forall_mem_cons.mp hparts
    rw [List.flatMap_cons, List.append_assoc, List.map_cons]
    cases hgap : part.2 with
    | zero =>
      have hlast : rest = [] := by
        by_contra hcons
        have := hgaps part (by rw [List.dropLast_cons_of_ne_nil hcons]; exact List.mem_cons_self)
        omega
      subst hlast
      simp [tokens_single c _ hc hne]
    | succ gap =>
      rw [List.replicate_succ, List.cons_append, tokens_head c _ _ hc hne, tokens_replicate_append]
      congr 1
      refine ih hrest fun part' hpart' => hgaps part' ?_
      have hcons : rest ≠ [] := by
        rintro rfl
        exact absurd hpart' List.not_mem_nil
      rw [List.dropLast_cons_of_ne_nil hcons]
      exact List.mem_cons_of_mem _ hpart'

end Joined

end Cheferd.Library.Tokens
