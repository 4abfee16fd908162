import Cheferd.Library.Runs
import Mathlib.Order.WellFounded

namespace Cheferd.Library

namespace Machine

variable {σ α : Type}

structure Execution (m : Machine σ α) (allowed : σ → α → Prop) where
  state : ℕ → σ
  event : ℕ → Option α
  start : m.start (state 0)
  rests : ∀ n, event n = none → state (n + 1) = state n
  moves : ∀ n a, event n = some a → allowed (state n) a ∧ m.step (state n) a = some (state (n + 1))

def Enabled (m : Machine σ α) (kind : α → Prop) (s : σ) : Prop := ∃ a, kind a ∧ (m.step s a).isSome

namespace Execution

variable {m : Machine σ α} {allowed : σ → α → Prop} (e : m.Execution allowed)

theorem reach (n : ℕ) : m.Reach allowed (e.state n) := by
  induction n with
  | zero => exact .start e.start
  | succ n ih =>
    cases hev : e.event n with
    | none =>
      rw [e.rests n hev]
      exact ih
    | some a =>
      obtain ⟨ha, hstep⟩ := e.moves n a hev
      exact ih.step ha hstep

def Fair (kind : α → Prop) : Prop :=
  ∀ n, (∀ k, n ≤ k → m.Enabled kind (e.state k)) → ∃ k a, n ≤ k ∧ kind a ∧ e.event k = some a

section Variant

variable {e} {κ W : Type} [Preorder W] {kind : κ → α → Prop} {helper : σ → κ} {variant : σ → W}
  {good : σ → Prop} {goal : ℕ → Prop} {start : ℕ}

structure Approaches (e : m.Execution allowed) (kind : κ → α → Prop) (helper : σ → κ) (variant : σ → W)
    (good : σ → Prop) (goal : ℕ → Prop) (start : ℕ) : Prop where
  enabled : ∀ n, start ≤ n → good (e.state n) → ¬ goal n → m.Enabled (kind (helper (e.state n))) (e.state n)
  moves : ∀ n a, start ≤ n → good (e.state n) → ¬ goal n → e.event n = some a →
    goal (n + 1) ∨ good (e.state (n + 1)) ∧ (variant (e.state (n + 1)) < variant (e.state n) ∨
      variant (e.state (n + 1)) = variant (e.state n) ∧ helper (e.state (n + 1)) = helper (e.state n) ∧
        ¬ kind (helper (e.state n)) a)

theorem Approaches.stays (h : Approaches e kind helper variant good goal start) {n k : ℕ} (hn : start ≤ n)
    (hgood : good (e.state n)) (hgoal : ∀ i, n ≤ i → ¬ goal i) (hk : n ≤ k) :
    (∃ i, n ≤ i ∧ good (e.state i) ∧ variant (e.state i) < variant (e.state n)) ∨
      good (e.state k) ∧ variant (e.state k) = variant (e.state n) ∧ helper (e.state k) = helper (e.state n) ∧
        ∀ i a, n ≤ i → i < k → e.event i = some a → ¬ kind (helper (e.state n)) a := by
  induction k, hk using Nat.le_induction with
  | base => exact .inr ⟨hgood, rfl, rfl, fun i a hi hlt => by omega⟩
  | succ k hk ih =>
    rcases ih with hfell | ⟨hgood', hvariant, hhelper, hunhelped⟩
    · exact .inl hfell
    · cases hev : e.event k with
      | none =>
        rw [e.rests k hev]
        refine .inr ⟨hgood', hvariant, hhelper, fun i a hi hlt hi' => ?_⟩
        rcases Nat.lt_succ_iff_lt_or_eq.mp hlt with hlt | rfl
        · exact hunhelped i a hi hlt hi'
        · rw [hev] at hi'
          cases hi'
      | some b =>
        obtain ⟨hgood'', hnext⟩ :=
          (h.moves k b (hn.trans hk) hgood' (hgoal k hk) hev).resolve_left (hgoal (k + 1) (by omega))
        rcases hnext with hless | ⟨hsame, hhelper', hnot⟩
        · exact .inl ⟨k + 1, by omega, hgood'', hvariant ▸ hless⟩
        · refine .inr ⟨hgood'', hsame.trans hvariant, hhelper'.trans hhelper, fun i a hi hlt hi' => ?_⟩
          rcases Nat.lt_succ_iff_lt_or_eq.mp hlt with hlt | rfl
          · exact hunhelped i a hi hlt hi'
          · rw [hev] at hi'
            cases hi'
            exact hhelper ▸ hnot

theorem Approaches.eventually [WellFoundedLT W] (h : Approaches e kind helper variant good goal start)
    (hfair : ∀ c, e.Fair (kind c)) {n : ℕ} (hn : start ≤ n) (hgood : good (e.state n)) :
    ∃ k, n ≤ k ∧ goal k := by
  induction hv : variant (e.state n) using WellFoundedLT.induction generalizing n with
  | ind v ih =>
    subst hv
    by_contra hnone
    have hgoal : ∀ i, n ≤ i → ¬ goal i := fun i hi hg => hnone ⟨i, hi, hg⟩
    have hstays := fun k (hk : n ≤ k) => h.stays hn hgood hgoal hk
    have hfalls : ∃ i, n ≤ i ∧ good (e.state i) ∧ variant (e.state i) < variant (e.state n) := by
      by_contra hnever
      have hsame := fun k (hk : n ≤ k) => (hstays k hk).resolve_left hnever
      obtain ⟨k, a, hk, ha, hev⟩ := hfair (helper (e.state n)) n fun k hk => by
        obtain ⟨hgood', -, hhelper, -⟩ := hsame k hk
        have henabled := h.enabled k (hn.trans hk) hgood' (hgoal k hk)
        rwa [hhelper] at henabled
      obtain ⟨-, -, -, hunhelped⟩ := hsame (k + 1) (by omega)
      exact hunhelped k a hk (Nat.lt_succ_self k) hev ha
    obtain ⟨i, hi, hgood', hless⟩ := hfalls
    obtain ⟨k, hk, hg⟩ := ih _ hless (hn.trans hi) hgood' rfl
    exact hgoal k (hi.trans hk) hg

end Variant

section Seen

variable {τ β : Type} {m' : Machine τ β} {allowed' : τ → β → Prop} {f : σ → τ} {g : σ → α → Option β}

structure Shows (e : m.Execution allowed) (m' : Machine τ β) (allowed' : τ → β → Prop) (f : σ → τ)
    (g : σ → α → Option β) : Prop where
  start : m'.start (f (e.state 0))
  rests : ∀ n a, e.event n = some a → g (e.state n) a = none → f (e.state (n + 1)) = f (e.state n)
  moves : ∀ n a b, e.event n = some a → g (e.state n) a = some b →
    allowed' (f (e.state n)) b ∧ m'.step (f (e.state n)) b = some (f (e.state (n + 1)))

variable {e}

def Shows.execution (h : e.Shows m' allowed' f g) : m'.Execution allowed' where
  state n := f (e.state n)
  event n := (e.event n).bind (g (e.state n))
  start := h.start
  rests n hn := by
    cases hev : e.event n with
    | none => rw [e.rests n hev]
    | some a =>
      rw [hev, Option.bind_some] at hn
      exact h.rests n a hev hn
  moves n b hn := by
    obtain ⟨a, hev, hb⟩ := Option.bind_eq_some_iff.mp hn
    exact h.moves n a b hev hb

theorem Fair.seen (h : e.Shows m' allowed' f g) {kind : α → Prop} {kind' : β → Prop} (hfair : e.Fair kind)
    (henabled : ∀ n, m'.Enabled kind' (f (e.state n)) → m.Enabled kind (e.state n))
    (hkind : ∀ n a, kind a → e.event n = some a → ∃ b, g (e.state n) a = some b ∧ kind' b) :
    h.execution.Fair kind' := by
  intro n hn
  obtain ⟨k, a, hk, ha, hev⟩ := hfair n fun k hk => henabled k (hn k hk)
  obtain ⟨b, hb, hkind'⟩ := hkind k a ha hev
  exact ⟨k, b, hk, hkind', Option.bind_eq_some_iff.mpr ⟨a, hev, hb⟩⟩

end Seen

def follow (m : Machine σ α) (s : σ) (schedule : ℕ → Option α) : ℕ → σ
  | 0 => s
  | n + 1 => ((schedule n).bind (m.step (follow m s schedule n))).getD (follow m s schedule n)

def ofSchedule (s : σ) (schedule : ℕ → Option α) (hstart : m.start s)
    (h : ∀ n a, schedule n = some a → allowed (follow m s schedule n) a ∧
    (m.step (follow m s schedule n) a).isSome) :
    m.Execution allowed where
  state := follow m s schedule
  event := schedule
  start := hstart
  rests n hn := by simp [follow, hn]
  moves n a hn := by
    obtain ⟨ha, hstep⟩ := h n a hn
    obtain ⟨t, ht⟩ := Option.isSome_iff_exists.mp hstep
    exact ⟨ha, by simp [follow, hn, ht]⟩

end Execution

end Machine

end Cheferd.Library
