import Cheferd.Library.Runs
import Mathlib.Data.Int.Notation
import Mathlib.Data.List.Basic
import Mathlib.Data.Nat.Notation

namespace Cheferd.Library

inductive Turn (α : Type)
  | outside
  | counted
  | seen
  | taken (a : α)
  | discounted (a : α)
  | frontOfEmpty
deriving DecidableEq

namespace Turn

variable {α : Type}

def hand : Turn α → List α
  | .taken a | .discounted a => [a]
  | _ => []

def owed : Turn α → ℕ
  | .taken _ => 1
  | _ => 0

def missed : Turn α → ℤ
  | .discounted _ => 1
  | _ => 0

end Turn

/-- A queue and a counter that is raised after each push and brought down after each pop, each in a step
of its own. Beside them stand the producers between their two steps, all elements ever pushed and ever
handled, and how many were removed without being handled. -/
structure CountedQueue (α : Type) where
  queue : List α
  counter : ℤ
  entering : ℕ
  turn : Turn α
  enqueued : List α
  handled : List α
  discarded : ℕ
deriving DecidableEq

namespace CountedQueue

variable {α : Type}

inductive Move (α : Type)
  | push (a : α)
  | raise
  | consume
  | discard
deriving DecidableEq

/-- The consumer tests the counter, then the queue; it pops the front, brings the counter down and only
then handles what it has popped. -/
def consume (s : CountedQueue α) : Option (CountedQueue α) :=
  match s.turn with
  | .outside => if 0 < s.counter then some { s with turn := .counted } else none
  | .counted => some { s with turn := if s.queue = [] then .outside else .seen }
  | .seen =>
    match s.queue with
    | [] => some { s with turn := .frontOfEmpty }
    | a :: rest => some { s with queue := rest, turn := .taken a }
  | .taken a => some { s with counter := s.counter - 1, turn := .discounted a }
  | .discounted a => some { s with turn := .outside, handled := s.handled ++ [a] }
  | .frontOfEmpty => none

def handle {σ : Type} (s : CountedQueue α) (write : CountedQueue α → σ) (leave : σ)
    (proceed : α → σ) : Option σ :=
  match s.turn with
  | .outside => if s.counter > 0 then s.consume.map write else some leave
  | .discounted a => some (proceed a)
  | _ => s.consume.map write

def step (s : CountedQueue α) : Move α → Option (CountedQueue α)
  | .push a =>
    some { s with queue := s.queue ++ [a], entering := s.entering + 1, enqueued := s.enqueued ++ [a] }
  | .raise =>
    if 0 < s.entering then some { s with counter := s.counter + 1, entering := s.entering - 1 } else none
  | .consume => s.consume
  | .discard =>
    match s.queue with
    | [] => none
    | _ :: rest => some { s with queue := rest, discarded := s.discarded + 1 }

def Counted (s : CountedQueue α) : Prop :=
  s.counter + s.entering = s.queue.length + s.turn.owed + s.discarded

def Knows (s : CountedQueue α) : Prop :=
  match s.turn with
  | .outside => True
  | .counted | .seen | .taken _ => 0 < s.counter
  | .discounted _ => 0 ≤ s.counter
  | .frontOfEmpty => False

structure Balanced (s : CountedQueue α) : Prop where
  counted : s.Counted
  order : s.enqueued = s.handled ++ (s.turn.hand ++ s.queue)
  knows : s.Knows
  discarded : s.discarded = 0

variable {s t : CountedQueue α}

inductive Consumes (s : CountedQueue α) : CountedQueue α → Prop
  | found (hturn : s.turn = .outside) (hcounter : 0 < s.counter) : Consumes s { s with turn := .counted }
  | returned (hturn : s.turn = .counted) (hqueue : s.queue = []) : Consumes s { s with turn := .outside }
  | saw (hturn : s.turn = .counted) (hqueue : s.queue ≠ []) : Consumes s { s with turn := .seen }
  | missed (hturn : s.turn = .seen) (hqueue : s.queue = []) : Consumes s { s with turn := .frontOfEmpty }
  | took (a : α) (rest : List α) (hturn : s.turn = .seen) (hqueue : s.queue = a :: rest) :
      Consumes s { s with queue := rest, turn := .taken a }
  | discounted (a : α) (hturn : s.turn = .taken a) :
      Consumes s { s with counter := s.counter - 1, turn := .discounted a }
  | ended (a : α) (hturn : s.turn = .discounted a) :
      Consumes s { s with turn := .outside, handled := s.handled ++ [a] }

theorem consume_cases (h : s.consume = some t) : Consumes s t := by
  unfold consume at h
  cases hturn : s.turn with
  | outside =>
    simp only [hturn, Option.ite_none_right_eq_some] at h
    obtain ⟨hcounter, h⟩ := h
    cases h
    exact .found hturn hcounter
  | counted =>
    simp only [hturn] at h
    cases h
    by_cases hqueue : s.queue = []
    · rw [if_pos hqueue]
      exact .returned hturn hqueue
    · rw [if_neg hqueue]
      exact .saw hturn hqueue
  | seen =>
    simp only [hturn] at h
    split at h <;> cases h
    case h_1 hqueue => exact .missed hturn hqueue
    case h_2 a rest hqueue => exact .took a rest hturn hqueue
  | taken a =>
    simp only [hturn] at h
    cases h
    exact .discounted a hturn
  | discounted a =>
    simp only [hturn] at h
    cases h
    exact .ended a hturn
  | frontOfEmpty =>
    simp only [hturn] at h
    cases h

theorem handle_cases {σ : Type} {write : CountedQueue α → σ} {leave : σ} {proceed : α → σ} {r : σ}
    (h : s.handle write leave proceed = some r) :
    (∃ next, s.consume = some next ∧ (∀ a, s.turn ≠ .discounted a) ∧ r = write next) ∨
      (s.turn = .outside ∧ ¬ s.counter > 0 ∧ r = leave) ∨
      ∃ a, s.turn = .discounted a ∧ r = proceed a := by
  have hmap (hturn : ∀ a, s.turn ≠ .discounted a) (h : s.consume.map write = some r) :
      ∃ next, s.consume = some next ∧ (∀ a, s.turn ≠ .discounted a) ∧ r = write next := by
    obtain ⟨next, hnext, ht⟩ := Option.map_eq_some_iff.mp h
    exact ⟨next, hnext, hturn, ht.symm⟩
  unfold handle at h
  split at h
  case h_1 hturn =>
    split at h
    · exact .inl (hmap (by simp [hturn]) h)
    case isFalse hpending => exact .inr (.inl ⟨hturn, hpending, (Option.some.inj h).symm⟩)
  case h_2 a hturn => exact .inr (.inr ⟨a, hturn, (Option.some.inj h).symm⟩)
  case h_3 hturn => exact .inl (hmap hturn h)

theorem consume_eq (h : s.consume = some t) :
    t = { s with queue := t.queue, counter := t.counter, turn := t.turn, handled := t.handled } := by
  cases consume_cases h <;> rfl

theorem consume_unseen (h : s.consume = some t) (hturn : ∀ a, s.turn ≠ .discounted a) :
    t.turn.hand ++ t.queue = s.turn.hand ++ s.queue ∧ t.counter + t.turn.missed = s.counter + s.turn.missed ∧
      t.handled = s.handled := by
  cases consume_cases h with
  | took a rest hseen hqueue =>
    rw [hseen, hqueue]
    exact ⟨rfl, rfl, rfl⟩
  | discounted a htaken =>
    rw [htaken]
    exact ⟨rfl, by simp [Turn.missed], rfl⟩
  | ended a hdiscounted => exact absurd hdiscounted (hturn a)
  | found hs _ | returned hs _ | saw hs _ | missed hs _ =>
    rw [hs]
    exact ⟨rfl, rfl, rfl⟩

theorem Counted.consume (h : s.consume = some t) (hs : s.Counted) : t.Counted := by
  unfold Counted at hs ⊢
  cases consume_cases h with
  | took a rest hturn hqueue =>
    rw [hturn, hqueue] at hs
    simpa [Turn.owed] using hs
  | discounted a hturn =>
    rw [hturn] at hs
    simp only [Turn.owed] at hs ⊢
    omega
  | found hturn _ | returned hturn _ | saw hturn _ | missed hturn _ | ended _ hturn => rwa [hturn] at hs

theorem Counted.step {move : Move α} (h : s.step move = some t) (hs : s.Counted) : t.Counted := by
  cases move with
  | push a =>
    unfold Counted at hs ⊢
    cases h
    simp only [List.length_append, List.length_cons, List.length_nil]
    omega
  | raise =>
    unfold Counted at hs ⊢
    simp only [CountedQueue.step, Option.ite_none_right_eq_some] at h
    obtain ⟨hpos, h⟩ := h
    cases h
    dsimp only
    omega
  | consume => exact hs.consume h
  | discard =>
    unfold Counted at hs ⊢
    simp only [CountedQueue.step] at h
    split at h <;> cases h
    case h_2 a rest hqueue =>
      rw [hqueue, List.length_cons] at hs
      dsimp only
      omega

theorem Balanced.queue_ne_nil (hs : s.Balanced) (hcounter : 0 < s.counter) (howed : s.turn.owed = 0) :
    s.queue ≠ [] := by
  intro hnil
  have hcounted := hs.counted
  unfold Counted at hcounted
  rw [hnil, howed, hs.discarded, List.length_nil] at hcounted
  omega

structure Orderly (s : CountedQueue α) : Prop where
  found : s.turn = .outside → 0 < s.counter → s.queue ≠ []
  front : s.turn = .counted ∨ s.turn = .seen → s.queue ≠ []
  never : s.turn ≠ .frontOfEmpty
  handled : s.handled <+: s.enqueued
  complete : s.turn = .outside → s.enqueued = s.handled ++ s.queue

theorem Balanced.orderly (hs : s.Balanced) : s.Orderly := by
  have hknows := hs.knows
  unfold Knows at hknows
  constructor
  · intro hturn hcounter
    exact hs.queue_ne_nil hcounter (by rw [hturn]; rfl)
  · rintro (hturn | hturn)
    all_goals
      simp only [hturn] at hknows
      exact hs.queue_ne_nil hknows (by rw [hturn]; rfl)
  · intro hturn
    simp only [hturn] at hknows
  · rw [hs.order]
    exact List.prefix_append _ _
  · intro hturn
    simpa only [hturn, Turn.hand, List.nil_append] using hs.order

theorem Balanced.consume (h : s.consume = some t) (hs : s.Balanced) : t.Balanced := by
  have hcounted := hs.counted.consume h
  have hknows := hs.knows
  have horder := hs.order
  unfold Knows at hknows
  cases consume_cases h with
  | found hturn hcounter =>
    rw [hturn] at horder
    exact ⟨hcounted, horder, hcounter, hs.discarded⟩
  | returned hturn hqueue => exact absurd hqueue (hs.orderly.front (.inl hturn))
  | saw hturn _ =>
    simp only [hturn] at hknows
    rw [hturn] at horder
    exact ⟨hcounted, horder, hknows, hs.discarded⟩
  | missed hturn hqueue => exact absurd hqueue (hs.orderly.front (.inr hturn))
  | took a rest hturn hqueue =>
    simp only [hturn] at hknows
    rw [hturn, hqueue] at horder
    exact ⟨hcounted, horder, hknows, hs.discarded⟩
  | discounted a hturn =>
    simp only [hturn] at hknows
    rw [hturn] at horder
    exact ⟨hcounted, horder, Int.sub_nonneg_of_le hknows, hs.discarded⟩
  | ended a hturn =>
    refine ⟨hcounted, ?_, trivial, hs.discarded⟩
    rw [horder, hturn]
    simp only [Turn.hand, List.append_assoc, List.nil_append]

theorem Balanced.step {move : Move α} (h : s.step move = some t) (hmove : move ≠ .discard) (hs : s.Balanced) :
    t.Balanced := by
  have hcounted := hs.counted.step h
  have hknows := hs.knows
  cases move with
  | push a =>
    cases h
    refine ⟨hcounted, ?_, hknows, hs.discarded⟩
    simp only [hs.order, List.append_assoc]
  | raise =>
    simp only [CountedQueue.step, Option.ite_none_right_eq_some] at h
    obtain ⟨hpos, h⟩ := h
    cases h
    refine ⟨hcounted, hs.order, ?_, hs.discarded⟩
    unfold Knows at hknows ⊢
    cases hturn : s.turn <;> simp only [hturn] at hknows ⊢ <;> omega
  | consume => exact hs.consume h
  | discard => exact absurd rfl hmove

def Follows (discards : Prop) (s t : CountedQueue α) : Prop :=
  t = s ∨ ∃ move, (move = .discard → discards) ∧ s.step move = some t

section Follows

variable {discards : Prop}

theorem Follows.push {a : α} (h : s.step (.push a) = some t) : s.Follows discards t :=
  .inr ⟨.push a, by simp, h⟩

theorem Follows.raise (h : s.step .raise = some t) : s.Follows discards t :=
  .inr ⟨.raise, by simp, h⟩

theorem Follows.consume (h : s.consume = some t) : s.Follows discards t :=
  .inr ⟨.consume, by simp, h⟩

theorem Follows.discard (hdiscards : discards) (h : s.step .discard = some t) : s.Follows discards t :=
  .inr ⟨.discard, fun _ => hdiscards, h⟩

theorem Follows.counted (h : s.Follows discards t) (hs : s.Counted) : t.Counted := by
  rcases h with rfl | ⟨move, _, hstep⟩
  · exact hs
  · exact hs.step hstep

theorem Follows.balanced (h : s.Follows discards t) (hno : ¬ discards) (hs : s.Balanced) :
    t.Balanced := by
  rcases h with rfl | ⟨move, hmove, hstep⟩
  · exact hs
  · exact hs.step hstep fun hdiscard => hno (hmove hdiscard)

end Follows

theorem Balanced.handled_of_ends {discards : Prop} (hs : s.Balanced) (h : s.Follows discards t)
    (hturn : s.turn ≠ .outside) (hends : t.turn = .outside) : ∃ a, t.handled = s.handled ++ [a] := by
  rcases h with rfl | ⟨move, _, hstep⟩
  · exact absurd hends hturn
  · cases move with
    | push a =>
      cases hstep
      exact absurd hends hturn
    | raise =>
      obtain ⟨_, hstep⟩ := Option.ite_none_right_eq_some.mp hstep
      cases hstep
      exact absurd hends hturn
    | discard =>
      simp only [CountedQueue.step] at hstep
      split at hstep <;> cases hstep
      exact absurd hends hturn
    | consume =>
      cases consume_cases hstep with
      | returned hcounted hqueue => exact absurd hqueue (hs.orderly.front (.inl hcounted))
      | ended a _ => exact ⟨a, rfl⟩
      | _ => cases hends

end CountedQueue

end Cheferd.Library
