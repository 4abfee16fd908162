import Mathlib.Data.List.Nodup
import Mathlib.Data.List.Count
import Mathlib.Data.List.DropRight
import Mathlib.Data.List.Forall2
import Mathlib.Tactic.Linarith

namespace Cheferd.Library.Lists

variable {α β : Type}

theorem filter_eq_of_nodup [DecidableEq α] {l : List α} (h : l.Nodup) (a : α) :
    l.filter (· = a) = if a ∈ l then [a] else [] := by
  rw [List.filter_eq, h.count]
  split <;> rfl

theorem filter_mem_sublist [DecidableEq α] {l l' : List α} (h : l'.Sublist l) (hnodup : l.Nodup) :
    l.filter (· ∈ l') = l' := by
  induction h with
  | slnil => rfl
  | @cons l' l a h ih =>
    obtain ⟨hnotin, hnodup⟩ := List.nodup_cons.mp hnodup
    rw [List.filter_cons_of_neg (by simpa using fun ha => hnotin (h.subset ha)), ih hnodup]
  | @cons_cons l' l a h ih =>
    obtain ⟨hnotin, hnodup⟩ := List.nodup_cons.mp hnodup
    rw [List.filter_cons_of_pos (by simp)]
    congr 1
    refine Eq.trans (List.filter_congr fun b hb => ?_) (ih hnodup)
    have hne : b ≠ a := fun he => hnotin (he ▸ hb)
    simp [hne]

theorem exists_of_forall₂_right {R : α → β → Prop} {l : List α} {l' : List β} (h : List.Forall₂ R l l') {b : β}
    (hb : b ∈ l') : ∃ a ∈ l, R a b := by
  induction h with
  | nil => cases hb
  | cons hR _ ih =>
    rcases List.mem_cons.mp hb with rfl | hb
    · exact ⟨_, List.mem_cons_self, hR⟩
    · obtain ⟨a, ha, hR⟩ := ih hb
      exact ⟨a, List.mem_cons_of_mem _ ha, hR⟩

theorem exists_forall₂ {R : α → β → Prop} {l : List α} (h : ∀ a ∈ l, ∃ b, R a b) :
    ∃ l', List.Forall₂ R l l' := by
  induction l with
  | nil => exact ⟨[], .nil⟩
  | cons a l ih =>
    obtain ⟨⟨b, hb⟩, hl⟩ := List.forall_mem_cons.mp h
    obtain ⟨l', hl'⟩ := ih hl
    exact ⟨b :: l', .cons hb hl'⟩

theorem eq_map_iff_of_forall₂ {ε : Type} {f : α → Except ε β} {l : List α} {l' : List β}
    (h : List.Forall₂ (fun a b => f a = .ok b) l l') (g : α → β) : l' = l.map g ↔ ∀ a ∈ l, f a = .ok (g a) := by
  induction h with
  | nil => simp
  | @cons a b l l' hb _ ih => rw [List.map_cons, List.cons.injEq, ih, List.forall_mem_cons, hb, Except.ok.injEq]

theorem foldlM_range_succ (f : α → ℕ → Option α) (a : α) (n : ℕ) :
    (List.range (n + 1)).foldlM f a = ((List.range n).foldlM f a).bind fun b => f b n := by
  rw [List.range_succ, List.foldlM_append]
  simp

theorem flatMap_ite (l : List α) (p : α → Prop) [DecidablePred p] (f : α → β) :
    (l.flatMap fun a => if p a then [f a] else []) = (l.filter p).map f := by
  induction l with
  | nil => rfl
  | cons a l ih =>
    by_cases ha : p a <;> simp [ha, ih]

theorem find?_of_nodup [DecidableEq β] {l : List α} {f : α → β} (h : (l.map f).Nodup) {a : α} (ha : a ∈ l) :
    l.find? (f · = f a) = some a := by
  induction l with
  | nil => cases ha
  | cons b l ih =>
    obtain ⟨hnotin, hnodup⟩ := List.nodup_cons.mp h
    rcases List.mem_cons.mp ha with rfl | ha
    · exact List.find?_cons_of_pos (by simp)
    · have hne : f b ≠ f a := fun he => hnotin (he ▸ List.mem_map_of_mem ha)
      rw [List.find?_cons_of_neg (by simpa using hne), ih hnodup ha]

section Folds

variable {σ κ ω ε : Type} {body : σ → α → Except ε σ} {R : α → ω → ω → Prop}

theorem foldlM_pointwise (key : α → κ) (view : κ → σ → ω)
    (hbody : ∀ s a t, body s a = .ok t →
      R a (view (key a) s) (view (key a) t) ∧ ∀ k ≠ key a, view k t = view k s)
    {l : List α} (hnodup : (l.map key).Nodup) {s t : σ} (h : l.foldlM body s = .ok t) :
    (∀ a ∈ l, R a (view (key a) s) (view (key a) t)) ∧ ∀ k ∉ l.map key, view k t = view k s := by
  induction l generalizing s with
  | nil =>
    cases h
    exact ⟨by simp, fun _ _ => rfl⟩
  | cons a l ih =>
    obtain ⟨hnotin, hnodup⟩ := List.nodup_cons.mp hnodup
    rw [List.foldlM_cons] at h
    cases hs : body s a with
    | error e =>
      rw [hs] at h
      cases h
    | ok u =>
      rw [hs] at h
      obtain ⟨hown, hother⟩ := hbody s a u hs
      obtain ⟨hrest, hkept⟩ := ih hnodup h
      refine ⟨fun b hb => ?_, fun k hk => ?_⟩
      · rcases List.mem_cons.mp hb with rfl | hb
        · rw [hkept _ hnotin]
          exact hown
        · have hne : key b ≠ key a := fun he => hnotin (he ▸ List.mem_map_of_mem hb)
          rw [← hother _ hne]
          exact hrest b hb
      · obtain ⟨hne, hk⟩ := not_or.mp fun h => hk (List.mem_cons.mpr h)
        rw [hkept k hk, hother k hne]

theorem foldlM_invariant {I : σ → Prop} (hbody : ∀ s a t, I s → body s a = .ok t → I t) {l : List α} {s t : σ}
    (hs : I s) (h : l.foldlM body s = .ok t) : I t := by
  induction l generalizing s with
  | nil =>
    cases h
    exact hs
  | cons a l ih =>
    rw [List.foldlM_cons] at h
    cases hu : body s a with
    | error e =>
      rw [hu] at h
      cases h
    | ok u =>
      rw [hu] at h
      exact ih (hbody s a u hs hu) h

theorem foldlM_total {I : σ → Prop} {l : List α}
    (hbody : ∀ s, ∀ a ∈ l, I s → ∃ t, body s a = .ok t ∧ I t) {s : σ} (hs : I s) :
    ∃ t, l.foldlM body s = .ok t := by
  induction l generalizing s with
  | nil => exact ⟨s, rfl⟩
  | cons a l ih =>
    obtain ⟨u, hu, hI⟩ := hbody s a List.mem_cons_self hs
    obtain ⟨t, ht⟩ := ih (fun s b hb => hbody s b (List.mem_cons_of_mem _ hb)) hI
    refine ⟨t, ?_⟩
    rw [List.foldlM_cons, hu]
    exact ht

theorem foldlM_flatMap {ι : Type} {I : σ → Prop} {f : ι → List α} {outer : σ → ι → Except ε σ}
    (hbody : ∀ s a t, I s → body s a = .ok t → I t) (houter : ∀ s i, I s → outer s i = (f i).foldlM body s)
    {l : List ι} {s : σ} (hs : I s) : l.foldlM outer s = (l.flatMap f).foldlM body s := by
  induction l generalizing s with
  | nil => rfl
  | cons i l ih =>
    rw [List.foldlM_cons, List.flatMap_cons, List.foldlM_append, houter s i hs]
    cases hu : (f i).foldlM body s with
    | error e => rfl
    | ok u => exact ih (foldlM_invariant hbody hs hu)

theorem foldlM_congr {body' : σ → α → Except ε σ} {l : List α}
    (h : ∀ s, ∀ a ∈ l, body s a = body' s a) (s : σ) :
    l.foldlM body s = l.foldlM body' s := by
  induction l generalizing s with
  | nil => rfl
  | cons a l ih =>
    rw [List.foldlM_cons, List.foldlM_cons, h s a List.mem_cons_self]
    congr 1
    funext t
    exact ih (fun s b hb => h s b (List.mem_cons_of_mem _ hb)) t

theorem foldlM_map_state {τ : Type} {body' : τ → α → Except ε τ} (f : σ → τ)
    (hbody : ∀ s a, (body s a).map f = body' (f s) a) (l : List α) (s : σ) :
    (l.foldlM body s).map f = l.foldlM body' (f s) := by
  induction l generalizing s with
  | nil => rfl
  | cons a l ih =>
    rw [List.foldlM_cons, List.foldlM_cons, ← hbody]
    cases body s a with
    | error e => rfl
    | ok t => exact ih t

end Folds

section Sums

variable {l : List α} {f g : α → ℤ} {c : ℤ}

theorem sum_le_add_slack (h : ∀ a ∈ l, f a ≤ g a + c) :
    (l.map f).sum ≤ (l.map g).sum + c * l.length := by
  induction l with
  | nil => simp
  | cons a l ih =>
    have ha := h a List.mem_cons_self
    have hl := ih fun b hb => h b (List.mem_cons_of_mem _ hb)
    simp only [List.map_cons, List.sum_cons, List.length_cons]
    push_cast
    linarith

theorem sum_le_add_slack_of_mem (h : ∀ a ∈ l, f a ≤ g a + c) {a : α} (ha : a ∈ l)
    (hle : f a ≤ g a) : (l.map f).sum ≤ (l.map g).sum + c * (l.length - 1) := by
  induction l with
  | nil => cases ha
  | cons b l ih =>
    have hrest : ∀ b ∈ l, f b ≤ g b + c := fun b hb => h b (List.mem_cons_of_mem _ hb)
    simp only [List.map_cons, List.sum_cons, List.length_cons]
    push_cast
    rcases List.mem_cons.mp ha with rfl | ha
    · have hl := sum_le_add_slack hrest
      linarith
    · have hb := h b List.mem_cons_self
      have hl := ih hrest ha
      linarith

end Sums

section Streaks

variable [DecidableEq α] {a x : α} {l : List α} {n : ℕ}

def streak (a : α) (l : List α) : ℕ := (l.rtakeWhile (· = a)).length

theorem streak_nil (a : α) : streak a [] = 0 := by rw [streak, List.rtakeWhile_nil, List.length_nil]

theorem streak_concat (a x : α) (l : List α) : streak a (l ++ [x]) = if x = a then streak a l + 1 else 0 := by
  unfold streak
  split
  case isTrue h => rw [List.rtakeWhile_concat_pos _ _ _ (by simpa using h), List.length_append,
    List.length_singleton]
  case isFalse h => rw [List.rtakeWhile_concat_neg _ _ _ (by simpa using h), List.length_nil]

theorem replicate_suffix_iff : List.replicate n a <:+ l ↔ n ≤ streak a l := by
  induction l using List.reverseRecOn generalizing n with
  | nil => simp [streak_nil]
  | append_singleton l x ih =>
    rw [streak_concat]
    cases n with
    | zero => simp
    | succ n =>
      rw [List.replicate_succ', List.suffix_concat_iff]
      constructor
      · rintro (hnil | ⟨t, hlast, ht⟩)
        · simp at hnil
        · obtain ⟨rfl, hx⟩ := List.append_inj' hlast rfl
          rw [if_pos (List.singleton_inj.mp hx).symm]
          exact Nat.succ_le_succ (ih.mp ht)
      · intro hle
        split at hle
        case isTrue hx => exact .inr ⟨_, by rw [hx], ih.mpr (Nat.le_of_succ_le_succ hle)⟩
        case isFalse => cases hle

theorem replicate_infix_concat_iff :
    List.replicate (n + 1) a <:+: l ++ [x] ↔ n + 1 ≤ streak a (l ++ [x]) ∨ List.replicate (n + 1) a <:+: l := by
  rw [List.infix_concat_iff, replicate_suffix_iff]

end Streaks

end Cheferd.Library.Lists
