import Mathlib.Data.List.Basic

namespace Cheferd.Library.Relay

variable {ι κ ν : Type}

def Follows (effect : κ → ν → ι → ν) (start : κ → ν) (log : List ι) (held : κ → Option ν) : Prop :=
  ∀ k v, held k = some v → v = log.foldl (effect k) (start k)

def Shipped (effect : κ → ν → ι → ν) (start : κ → ν) (log queue : List ι) (held : κ → Option ν) : Prop :=
  ∃ done, log = done ++ queue ∧ Follows effect start done held

variable {effect effect' : κ → ν → ι → ν} {start : κ → ν} {log queue : List ι} {held held' : κ → Option ν}

theorem Follows.kept (h : Follows effect start log held) (hheld : ∀ k v, held' k = some v → held k = some v) :
    Follows effect start log held' := fun k v hv => h k v (hheld k v hv)

theorem Follows.applied {i : ι} (h : Follows effect start log held)
    (hheld : ∀ k v', held' k = some v' → (∃ v, held k = some v ∧ v' = effect k v i) ∨ ∀ v, v' = effect k v i) :
    Follows effect start (log ++ [i]) held' := by
  intro k v' hv'
  rw [List.foldl_append, List.foldl_cons, List.foldl_nil]
  rcases hheld k v' hv' with ⟨v, hv, rfl⟩ | heffect
  · rw [h k v hv]
  · exact heffect _

namespace Shipped

theorem empty (effect : κ → ν → ι → ν) (start : κ → ν) (hheld : ∀ k, held k = none) :
    Shipped effect start [] [] held :=
  ⟨[], rfl, fun k v hv => by rw [hheld k] at hv; cases hv⟩

theorem kept (h : Shipped effect start log queue held) (hheld : ∀ k v, held' k = some v → held k = some v) :
    Shipped effect start log queue held' := by
  obtain ⟨done, hlog, hfollows⟩ := h
  exact ⟨done, hlog, hfollows.kept hheld⟩

theorem sent (h : Shipped effect start log queue held) (instructions : List ι) :
    Shipped effect start (log ++ instructions) (queue ++ instructions) held := by
  obtain ⟨done, rfl, hfollows⟩ := h
  exact ⟨done, List.append_assoc _ _ _, hfollows⟩

theorem applied {i : ι} (h : Shipped effect start log (i :: queue) held)
    (hheld : ∀ k v', held' k = some v' → (∃ v, held k = some v ∧ v' = effect k v i) ∨ ∀ v, v' = effect k v i) :
    Shipped effect start log queue held' := by
  obtain ⟨done, rfl, hfollows⟩ := h
  exact ⟨done ++ [i], by simp, hfollows.applied hheld⟩

theorem retuned (h : Shipped effect start log queue held) (hheld : ∀ k, held' k = none) :
    Shipped effect' start log queue held' := by
  obtain ⟨done, hlog, _⟩ := h
  exact ⟨done, hlog, fun k v hv => by rw [hheld k] at hv; cases hv⟩

theorem follows (h : Shipped effect start log [] held) : Follows effect start log held := by
  obtain ⟨done, rfl, hfollows⟩ := h
  rwa [List.append_nil]

end Shipped

end Cheferd.Library.Relay
