import Mathlib.Logic.Basic
import Mathlib.Data.Option.Basic

namespace Cheferd.Library

structure Machine (σ α : Type) where
  start : σ → Prop
  step : σ → α → Option σ

namespace Machine

variable {σ α : Type} (m : Machine σ α)

inductive Reach (allowed : σ → α → Prop) : σ → Prop
  | start {s : σ} : m.start s → Reach allowed s
  | step {s t : σ} {a : α} : Reach allowed s → allowed s a → m.step s a = some t → Reach allowed t

def resume (s : σ) : Machine σ α := { m with start := (· = s) }

variable {m} {allowed allowed' : σ → α → Prop}

theorem Reach.invariant {I : σ → Prop} (hstart : ∀ s, m.start s → I s)
    (hstep : ∀ s t a, I s → allowed s a → m.step s a = some t → I t) {s : σ}
    (h : m.Reach allowed s) : I s := by
  induction h with
  | start h => exact hstart _ h
  | step _ ha h ih => exact hstep _ _ _ ih ha h

theorem Reach.mono (himp : ∀ s a, allowed s a → allowed' s a) {s : σ} (h : m.Reach allowed s) :
    m.Reach allowed' s := by
  induction h with
  | start h => exact .start h
  | step _ ha h ih => exact .step ih (himp _ _ ha) h

theorem Reach.after {r s t : σ} {a : α} (h : (m.resume s).Reach allowed r) (hstep : m.step t a = some s)
    (ha : allowed t a) : (m.resume t).Reach allowed r := by
  induction h with
  | start h =>
    cases h
    exact .step (.start rfl) ha hstep
  | step _ ha h ih => exact .step ih ha h

def exec (m : Machine σ α) (allowed : σ → α → Prop) [∀ s a, Decidable (allowed s a)] :
    σ → List α → Option σ
  | s, [] => some s
  | s, a :: rest => if allowed s a then (m.step s a).bind fun t => exec m allowed t rest else none

theorem Reach.exec_mono [∀ s a, Decidable (allowed s a)] {s t : σ} {actions : List α} (h : m.Reach allowed' s)
    (himp : ∀ a ∈ actions, ∀ s, allowed s a → allowed' s a) (he : m.exec allowed s actions = some t) :
    m.Reach allowed' t := by
  induction actions generalizing s with
  | nil =>
    cases he
    exact h
  | cons a rest ih =>
    simp only [Machine.exec, Option.ite_none_right_eq_some, Option.bind_eq_some_iff] at he
    obtain ⟨ha, u, hu, he⟩ := he
    exact ih (h.step (himp a List.mem_cons_self s ha) hu) (fun b hb => himp b (List.mem_cons_of_mem _ hb)) he

theorem Reach.exec [∀ s a, Decidable (allowed s a)] {s t : σ} {actions : List α}
    (h : m.Reach allowed s) (he : m.exec allowed s actions = some t) : m.Reach allowed t :=
  h.exec_mono (fun _ _ _ ha => ha) he

theorem reach_of_exec [∀ s a, Decidable (allowed s a)] {s t : σ} {actions : List α}
    (he : m.exec allowed s actions = some t) : (m.resume s).Reach allowed t := by
  induction actions generalizing s with
  | nil =>
    cases he
    exact .start rfl
  | cons a rest ih =>
    simp only [Machine.exec, Option.ite_none_right_eq_some, Option.bind_eq_some_iff] at he
    obtain ⟨ha, u, hu, he⟩ := he
    exact (ih he).after hu ha

theorem exec_length [∀ s a, Decidable (allowed s a)] {I : σ → Prop} (measure : σ → Nat)
    (hstep : ∀ s t a, I s → allowed s a → m.step s a = some t → I t ∧ measure t < measure s) {s t : σ}
    {actions : List α} (hs : I s) (he : m.exec allowed s actions = some t) :
    actions.length + measure t ≤ measure s := by
  induction actions generalizing s with
  | nil =>
    cases he
    exact Nat.le_of_eq (Nat.zero_add _)
  | cons a rest ih =>
    simp only [Machine.exec, Option.ite_none_right_eq_some, Option.bind_eq_some_iff] at he
    obtain ⟨ha, u, hu, he⟩ := he
    obtain ⟨hu', hless⟩ := hstep s u a hs ha hu
    have hrest := ih hu' he
    rw [List.length_cons]
    omega

theorem exists_of_any {o : Option α} {P : α → Prop} [DecidablePred P]
    (h : o.any (fun a => decide (P a)) = true) :
    ∃ a, o = some a ∧ P a := by
  cases o with
  | none => cases h
  | some a => exact ⟨a, rfl, of_decide_eq_true h⟩

theorem Reach.of_exec [∀ s a, Decidable (allowed s a)] {s : σ} (l : List α) {P : σ → Prop} [DecidablePred P]
    (h : m.Reach allowed s) (he : (m.exec allowed s l).any (fun t => decide (P t)) = true) :
    ∃ t, m.Reach allowed t ∧ P t := by
  obtain ⟨t, ht, hP⟩ := exists_of_any he
  exact ⟨t, h.exec ht, hP⟩

section Observed

variable {ω : Type} {first : σ → ω} {next : σ → σ → ω → ω}

def observed (m : Machine σ α) (first : σ → ω) (next : σ → σ → ω → ω) : Machine (σ × ω) α where
  start s := m.start s.1 ∧ s.2 = first s.1
  step s a := (m.step s.1 a).map fun t => (t, next s.1 t s.2)

theorem Reach.observed_invariant {I : σ → ω → Prop} (hstart : ∀ s, m.start s → I s (first s))
    (hstep : ∀ s t a w, I s w → allowed s a → m.step s a = some t → I t (next s t w)) {s : σ × ω}
    (h : (m.observed first next).Reach (fun s => allowed s.1) s) : I s.1 s.2 := by
  refine h.invariant (I := fun s => I s.1 s.2) ?_ ?_
  · rintro ⟨s, w⟩ ⟨hs, hw⟩
    rw [hw]
    exact hstart s hs
  · rintro ⟨s, w⟩ t a hI ha hstep'
    obtain ⟨t, ht, rfl⟩ := Option.map_eq_some_iff.mp hstep'
    exact hstep s t a w hI ha ht

theorem reach_observed_iff {s : σ} :
    (∃ w, (m.observed first next).Reach (fun s => allowed s.1) (s, w)) ↔ m.Reach allowed s := by
  constructor
  · rintro ⟨w, h⟩
    exact h.observed_invariant (I := fun s _ => m.Reach allowed s) (fun s hs => .start hs)
      fun s t a _ hI ha ht => .step hI ha ht
  · intro h
    induction h with
    | @start s h => exact ⟨first s, .start ⟨h, rfl⟩⟩
    | step _ ha hstep ih =>
      obtain ⟨w, h⟩ := ih
      exact ⟨_, .step h ha (Option.map_eq_some_iff.mpr ⟨_, hstep, rfl⟩)⟩

end Observed

end Machine

end Cheferd.Library
