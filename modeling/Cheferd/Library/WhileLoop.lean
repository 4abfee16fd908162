import Mathlib.Order.Basic

namespace Cheferd.Library.WhileLoop

variable {σ ε : Type}

def run (body : σ → Except ε (Option σ)) : ℕ → σ → Option (Except ε σ)
  | 0, _ => none
  | fuel + 1, s =>
    match body s with
    | .error e => some (.error e)
    | .ok none => some (.ok s)
    | .ok (some t) => run body fuel t

variable {body : σ → Except ε (Option σ)} {I : σ → Prop} {variant : σ → ℕ}

theorem run_total (hbody : ∀ s, I s → body s = .ok none ∨ ∃ t, body s = .ok (some t) ∧ I t ∧
    variant t < variant s)
    {fuel : ℕ} {s : σ} (hs : I s) (hfuel : variant s < fuel) :
    ∃ t, run body fuel s = some (.ok t) ∧ I t ∧ body t = .ok none := by
  induction fuel generalizing s with
  | zero => exact absurd hfuel (Nat.not_lt_zero _)
  | succ fuel ih =>
    rcases hbody s hs with hleave | ⟨t, hturn, ht, hvariant⟩
    · exact ⟨s, by simp only [run, hleave], hs, hleave⟩
    · obtain ⟨u, hrun, hu, hleave⟩ := ih ht (by omega)
      exact ⟨u, by simp only [run, hturn, hrun], hu, hleave⟩

end Cheferd.Library.WhileLoop
