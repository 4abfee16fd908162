import Cheferd.Library.Runs
import Mathlib.Algebra.BigOperators.Group.Finset.Piecewise
import Mathlib.Data.Fintype.Basic

namespace Cheferd.Library

namespace Monitor

/-- Where a thread stands in the code of a queue with a lock, a condition variable and a flag: `push` to
`unlock` put an item in, `popLock` to `leave` wait for one. -/
inductive Point (α : Type)
  | out
  | pushLock (item : α)
  | push (item : α)
  | notify
  | unlock
  | popLock
  | guard
  | empty
  | asleep
  | woken
  | check
  | pop
  | leave (item : Option α)
  | got (item : Option α)
deriving DecidableEq

inductive Action (ι α : Type)
  | enqueue (i : ι) (item : α)
  | close (i : ι) (item : α)
  | raise
  | dequeue (i : ι)
  | move (i : ι)
  | notify (i : ι) (sleeper : Option ι)
  | finish (i : ι)
  | wake (i : ι)

inductive Side
  | outside
  | putting
  | taking
deriving DecidableEq

namespace Point

variable {α : Type}

def side : Point α → Side
  | .out => .outside
  | .pushLock _ | .push _ | .notify | .unlock => .putting
  | _ => .taking

def item : Point α → Option α
  | .pushLock item | .push item => some item
  | .leave item | .got item => item
  | _ => none

def holds : Point α → Bool
  | .push _ | .notify | .unlock | .guard | .empty | .check | .pop | .leave _ => true
  | _ => false

def supplies : Point α → ℕ
  | .notify | .popLock | .guard | .empty | .woken | .check | .pop => 1
  | _ => 0

def pushes : Point α → Bool
  | .pushLock _ | .push _ | .notify => true
  | _ => false

def sleeps : Point α → Bool
  | .asleep => true
  | _ => false

def weight (price : ℕ) : Point α → ℕ
  | .out | .asleep => 0
  | .unlock => 1
  | .got none => 2
  | .leave none => 3
  | .pop => 4
  | .check => 5
  | .empty => 6
  | .guard => 7
  | .popLock | .woken => 8
  | .notify => 10
  | .got (some _) => price + 2
  | .leave (some _) => price + 3
  | .push _ => price + 11
  | .pushLock _ => price + 12

end Point

end Monitor

/-- A queue under a lock, with a condition variable on which threads wait for items as long as the flag is
up. -/
structure Monitor (ι α : Type) where
  queue : List α
  owner : Option ι
  flag : Bool
  point : ι → Monitor.Point α

namespace Monitor

variable {ι α : Type} [DecidableEq ι]

def new (flag : Bool) : Monitor ι α := ⟨[], none, flag, fun _ => .out⟩

def goTo (i : ι) (point : Point α) (m : Monitor ι α) : Monitor ι α :=
  { m with point := Function.update m.point i point }

def lock (i : ι) (point : Point α) (m : Monitor ι α) : Option (Monitor ι α) :=
  if m.owner = none then some { m.goTo i point with owner := some i } else none

def release (i : ι) (point : Point α) (m : Monitor ι α) : Monitor ι α := { m.goTo i point with owner := none }

def move (i : ι) (m : Monitor ι α) : Option (Monitor ι α) :=
  match m.point i with
  | .pushLock item => m.lock i (.push item)
  | .push item => some { m.goTo i .notify with queue := m.queue ++ [item] }
  | .unlock => some (m.release i .out)
  | .popLock | .woken => m.lock i .guard
  | .guard => some (m.goTo i (if m.flag then .empty else .check))
  | .empty => some (if m.queue.isEmpty then m.release i .asleep else m.goTo i .check)
  | .check => some (m.goTo i (if m.flag then .pop else .leave none))
  | .pop =>
    match m.queue with
    | [] => none
    | item :: rest => some { m.goTo i (.leave (some item)) with queue := rest }
  | .leave item => some (m.release i (.got item))
  | .out | .notify | .asleep | .got _ => none

def notify [Fintype ι] (i : ι) (sleeper : Option ι) (m : Monitor ι α) : Option (Monitor ι α) :=
  match m.point i, sleeper with
  | .notify, none => if ∃ j, (m.point j).sleeps = true then none else some (m.goTo i .unlock)
  | .notify, some j => if (m.point j).sleeps then some ((m.goTo j .woken).goTo i .unlock) else none
  | _, _ => none

def internal {ι α : Type} : Action ι α → Bool
  | .move _ | .notify _ _ | .wake _ => true
  | _ => false

def Action.scheduled {ι α : Type} : Action ι α → Bool
  | .move _ | .notify _ _ => true
  | _ => false

def pushed (m : Monitor ι α) : Action ι α → List α
  | .move i =>
    match m.point i with
    | .push item => [item]
    | _ => []
  | _ => []

def popped (m : Monitor ι α) : Action ι α → List α
  | .move i =>
    match m.point i with
    | .pop => m.queue.head?.toList
    | _ => []
  | _ => []

def step [Fintype ι] (m : Monitor ι α) : Action ι α → Option (Monitor ι α)
  | .enqueue i item =>
    match m.point i with
    | .out => some (m.goTo i (.pushLock item))
    | _ => none
  | .close i item =>
    match m.point i with
    | .out => some { m.goTo i (.pushLock item) with flag := false }
    | _ => none
  | .raise => some { m with flag := true }
  | .dequeue i =>
    match m.point i with
    | .out => some (m.goTo i .popLock)
    | _ => none
  | .move i => m.move i
  | .notify i sleeper => m.notify i sleeper
  | .finish i =>
    match m.point i with
    | .got _ => some (m.goTo i .out)
    | _ => none
  -- a wait may also end without a notification
  | .wake i => if (m.point i).sleeps then some (m.goTo i .woken) else none

variable {m m' : Monitor ι α} {i : ι}

omit [DecidableEq ι] in
theorem Action.scheduled_cases {action : Action ι α} (h : action.scheduled = true) :
    (∃ i, action = .move i) ∨ (∃ i sleeper, action = .notify i sleeper) ∨ ∃ i, action = .finish i := by
  cases action with
  | move i => exact .inl ⟨i, rfl⟩
  | notify i sleeper => exact .inr (.inl ⟨i, sleeper, rfl⟩)
  | _ => cases h

@[simp] theorem goTo_point (i : ι) (point : Point α) (m : Monitor ι α) (k : ι) :
    (m.goTo i point).point k = if k = i then point else m.point k := Function.update_apply _ _ _ _

@[simp] theorem goTo_queue (i : ι) (point : Point α) (m : Monitor ι α) : (m.goTo i point).queue = m.queue := rfl

@[simp] theorem goTo_owner (i : ι) (point : Point α) (m : Monitor ι α) : (m.goTo i point).owner = m.owner := rfl

@[simp] theorem goTo_flag (i : ι) (point : Point α) (m : Monitor ι α) : (m.goTo i point).flag = m.flag := rfl

@[simp] theorem release_point (i : ι) (point : Point α) (m : Monitor ι α) (k : ι) :
    (m.release i point).point k = if k = i then point else m.point k := goTo_point i point m k

theorem item_goTo {point : Point α} (h : point.item = (m.point i).item) (k : ι) :
    ((m.goTo i point).point k).item = (m.point k).item := by
  rw [goTo_point]
  split
  case isTrue hk => rw [h, hk]
  case isFalse => rfl

inductive Move (i : ι) (m : Monitor ι α) : Monitor ι α → Prop
  | pushLocked (item : α) (hpoint : m.point i = .pushLock item) (howner : m.owner = none) :
      Move i m { m.goTo i (.push item) with owner := some i }
  | pushed (item : α) (hpoint : m.point i = .push item) :
      Move i m { m.goTo i .notify with queue := m.queue ++ [item] }
  | unlocked (hpoint : m.point i = .unlock) : Move i m (m.release i .out)
  | popLocked (hpoint : m.point i = .popLock ∨ m.point i = .woken) (howner : m.owner = none) :
      Move i m { m.goTo i .guard with owner := some i }
  | guarded (hpoint : m.point i = .guard) : Move i m (m.goTo i (if m.flag then .empty else .check))
  | slept (hpoint : m.point i = .empty) (hempty : m.queue = []) : Move i m (m.release i .asleep)
  | found (hpoint : m.point i = .empty) (hne : m.queue ≠ []) : Move i m (m.goTo i .check)
  | checked (hpoint : m.point i = .check) : Move i m (m.goTo i (if m.flag then .pop else .leave none))
  | popped (item : α) (rest : List α) (hpoint : m.point i = .pop) (hqueue : m.queue = item :: rest) :
      Move i m { m.goTo i (.leave (some item)) with queue := rest }
  | left (item : Option α) (hpoint : m.point i = .leave item) : Move i m (m.release i (.got item))

theorem lock_eq_some {point : Point α} (h : m.lock i point = some m') :
    m.owner = none ∧ m' = { m.goTo i point with owner := some i } := by
  simp only [lock, Option.ite_none_right_eq_some, Option.some.injEq] at h
  exact ⟨h.1, h.2.symm⟩

theorem move_cases (h : m.move i = some m') : Move i m m' := by
  unfold move at h
  split at h
  case h_1 item hpoint =>
    obtain ⟨howner, rfl⟩ := lock_eq_some h
    exact .pushLocked item hpoint howner
  case h_2 item hpoint =>
    cases h
    exact .pushed item hpoint
  case h_3 hpoint =>
    cases h
    exact .unlocked hpoint
  case h_4 hpoint =>
    obtain ⟨howner, rfl⟩ := lock_eq_some h
    exact .popLocked (.inl hpoint) howner
  case h_5 hpoint =>
    obtain ⟨howner, rfl⟩ := lock_eq_some h
    exact .popLocked (.inr hpoint) howner
  case h_6 hpoint =>
    cases h
    exact .guarded hpoint
  case h_7 hpoint =>
    cases h
    by_cases hempty : m.queue = []
    · rw [if_pos (List.isEmpty_iff.mpr hempty)]
      exact .slept hpoint hempty
    · rw [if_neg fun he => hempty (List.isEmpty_iff.mp he)]
      exact .found hpoint hempty
  case h_8 hpoint =>
    cases h
    exact .checked hpoint
  case h_9 hpoint =>
    split at h <;> cases h
    case h_2.refl item rest hqueue => exact .popped item rest hpoint hqueue
  case h_10 item hpoint =>
    cases h
    exact .left item hpoint
  all_goals cases h

def Owned (m : Monitor ι α) : Prop := ∀ k, (m.point k).holds = true ↔ m.owner = some k

omit [DecidableEq ι] in
theorem Owned.apart (h : Owned m) {j k : ι} (hj : (m.point j).holds = true)
    (hk : (m.point k).holds = true) : j = k :=
  Option.some.inj (((h j).mp hj).symm.trans ((h k).mp hk))

theorem Owned.goTo (h : Owned m) {point : Point α} (hsame : point.holds = (m.point i).holds) :
    Owned (m.goTo i point) := by
  intro k
  rw [goTo_point, goTo_owner]
  by_cases hk : k = i
  · rw [if_pos hk, hsame, hk]
    exact h i
  · rw [if_neg hk]
    exact h k

theorem Owned.release (h : Owned m) {point : Point α} (hheld : (m.point i).holds = true)
    (hfree : point.holds = false) : Owned (m.release i point) := by
  intro k
  rw [release_point]
  by_cases hk : k = i
  · simp [hk, hfree, Monitor.release]
  · rw [if_neg hk]
    have hnone : (m.point k).holds = false := by
      by_contra hholds
      exact hk (h.apart (Bool.not_eq_false _ ▸ hholds) hheld)
    simp [hnone, Monitor.release]

theorem Owned.lock (h : Owned m) (howner : m.owner = none) {point : Point α} (hheld : point.holds = true) :
    Owned { m.goTo i point with owner := some i } := by
  intro k
  simp only [goTo_point]
  by_cases hk : k = i
  · simp [hk, hheld]
  · rw [if_neg hk, h k, howner]
    simp [Ne.symm hk]

theorem Owned.move (h : Owned m) (hmove : Move i m m') : Owned m' := by
  cases hmove with
  | pushLocked item hpoint howner => exact h.lock howner rfl
  | popLocked hpoint howner => exact h.lock howner rfl
  | unlocked hpoint | slept hpoint | left item hpoint => exact h.release (by rw [hpoint]; rfl) rfl
  | guarded hpoint | checked hpoint =>
    apply h.goTo
    rw [hpoint]
    split <;> rfl
  | pushed item hpoint | found hpoint | popped item rest hpoint => exact h.goTo (by rw [hpoint]; rfl)

def Halted (m : Monitor ι α) : Prop := ∀ k, m.point k = .leave none ∨ m.point k = .got none → m.flag = false

theorem Halted.goTo (h : Halted m) (i : ι) (point : Point α)
    (hpoint : point = .leave none ∨ point = .got none → m.flag = false) : Halted (m.goTo i point) := by
  intro k hk
  rw [goTo_point] at hk
  split at hk
  · exact hpoint hk
  · exact h k hk

theorem Halted.move (h : Halted m) (hmove : Move i m m') : Halted m' := by
  cases hmove with
  | pushLocked item hpoint howner => exact h.goTo i (.push item) (by simp)
  | pushed item hpoint => exact h.goTo i .notify (by simp)
  | unlocked hpoint => exact h.goTo i .out (by simp)
  | popLocked hpoint howner => exact h.goTo i .guard (by simp)
  | guarded hpoint => exact h.goTo i _ (by split <;> simp)
  | slept hpoint hempty => exact h.goTo i .asleep (by simp)
  | found hpoint hne => exact h.goTo i .check (by simp)
  | checked hpoint => exact h.goTo i _ (by split <;> simp_all)
  | popped item rest hpoint hqueue => exact h.goTo i (.leave (some item)) (by simp)
  | left item hpoint =>
    refine h.goTo i (.got item) fun hitem => h i (.inl ?_)
    simp only [reduceCtorEq, Point.got.injEq, false_or] at hitem
    rw [hpoint, hitem]

theorem Move.side (h : Move i m m') (k : ι) :
    (m'.point k).side = (m.point k).side ∨ (m.point k).side = .putting ∧ m'.point k = .out := by
  by_cases hk : k = i
  · subst hk
    cases h with
    | unlocked hpoint => simp [hpoint, Point.side]
    | popLocked hpoint =>
      left
      rcases hpoint with hpoint | hpoint <;> simp [hpoint, Point.side]
    | guarded hpoint | checked hpoint =>
      left
      rw [goTo_point, if_pos rfl, hpoint]
      split <;> rfl
    | _ =>
      left
      simp [*, Point.side]
  · left
    cases h <;> simp [hk]

structure Closing (taker : ι) (m : Monitor ι α) : Prop where
  alone : ∀ k, (m.point k).side = .taking → k = taker
  closing : m.flag = false → m.point taker = .empty ∨ m.point taker = .asleep → ∃ k, (m.point k).pushes = true

theorem Closing.goTo {taker : ι} (h : Closing taker m) (i : ι) (point : Point α)
    (htaking : point.side = .taking → i = taker)
    (hpushes : (m.point i).pushes = true → point.pushes = true)
    (hsleeps : m.flag = false → i = taker → point ≠ .empty ∧ (point = .asleep → m.point i = .empty)) :
    Closing taker (m.goTo i point) := by
  refine ⟨fun k hk => ?_, fun hflag htaker => ?_⟩
  · rw [goTo_point] at hk
    split at hk
    case isTrue hki => exact hki.trans (htaking hk)
    case isFalse => exact h.alone k hk
  · have hbefore : m.point taker = .empty ∨ m.point taker = .asleep := by
      rw [goTo_point] at htaker
      split at htaker
      case isTrue hi =>
        obtain ⟨hempty, hslept⟩ := hsleeps hflag hi.symm
        rw [hi]
        exact .inl (hslept (htaker.resolve_left hempty))
      case isFalse => exact htaker
    obtain ⟨k, hk⟩ := h.closing hflag hbefore
    refine ⟨k, ?_⟩
    rw [goTo_point]
    split
    case isTrue hki => exact hpushes (hki ▸ hk)
    case isFalse => exact hk

theorem Closing.move {taker : ι} (h : Closing taker m) (hmove : Move i m m') : Closing taker m' := by
  have htaking : (m.point i).side = .taking → i = taker := h.alone i
  cases hmove with
  | pushLocked item hpoint howner =>
    have hq := h.goTo i (.push item) (by simp [Point.side]) (by simp [Point.pushes]) (by simp)
    exact ⟨hq.alone, hq.closing⟩
  | pushed item hpoint =>
    have hq := h.goTo i .notify (by simp [Point.side]) (by simp [Point.pushes]) (by simp)
    exact ⟨hq.alone, hq.closing⟩
  | unlocked hpoint =>
    have hq := h.goTo i .out (by simp [Point.side]) (by simp [hpoint, Point.pushes]) (by simp)
    exact ⟨hq.alone, hq.closing⟩
  | left item hpoint =>
    have hq := h.goTo i (.got item) (fun _ => htaking (by rw [hpoint]; rfl)) (by simp [hpoint, Point.pushes])
      (by simp)
    exact ⟨hq.alone, hq.closing⟩
  | popLocked hpoint howner =>
    have hq := h.goTo i .guard
      (fun _ => htaking (by rcases hpoint with hp | hp <;> rw [hp] <;> rfl))
      (by rcases hpoint with hp | hp <;> simp [hp, Point.pushes]) (by simp)
    exact ⟨hq.alone, hq.closing⟩
  | slept hpoint hempty =>
    have hq := h.goTo i .asleep (fun _ => htaking (by rw [hpoint]; rfl))
      (by simp [hpoint, Point.pushes]) (fun _ _ => ⟨by simp, fun _ => hpoint⟩)
    exact ⟨hq.alone, hq.closing⟩
  | guarded hpoint =>
    refine h.goTo i _ (fun _ => htaking (by rw [hpoint]; rfl)) (by simp [hpoint, Point.pushes])
      fun hflag _ => ?_
    simp [hflag]
  | checked hpoint =>
    refine h.goTo i _ (fun _ => htaking (by rw [hpoint]; rfl)) (by simp [hpoint, Point.pushes])
      fun hflag _ => ?_
    simp [hflag]
  | found hpoint hne =>
    exact h.goTo i _ (fun _ => htaking (by rw [hpoint]; rfl)) (by simp [hpoint, Point.pushes]) (by simp)
  | popped item rest hpoint hqueue =>
    have hq := h.goTo i (.leave (some item)) (fun _ => htaking (by rw [hpoint]; rfl))
      (by simp [hpoint, Point.pushes]) (by simp)
    exact ⟨hq.alone, hq.closing⟩

section Threads

variable [Fintype ι]

inductive Effect (m : Monitor ι α) : Action ι α → Monitor ι α → Prop
  | enqueue (i : ι) (item : α) (hpoint : m.point i = .out) :
      Effect m (.enqueue i item) (m.goTo i (.pushLock item))
  | close (i : ι) (item : α) (hpoint : m.point i = .out) :
      Effect m (.close i item) { m.goTo i (.pushLock item) with flag := false }
  | raise : Effect m .raise { m with flag := true }
  | dequeue (i : ι) (hpoint : m.point i = .out) : Effect m (.dequeue i) (m.goTo i .popLock)
  | move (i : ι) (m' : Monitor ι α) (h : Move i m m') : Effect m (.move i) m'
  | unheard (i : ι) (hpoint : m.point i = .notify) (hnone : ∀ j, ¬ (m.point j).sleeps = true) :
      Effect m (.notify i none) (m.goTo i .unlock)
  | notified (i j : ι) (hpoint : m.point i = .notify) (hsleeps : m.point j = .asleep) :
      Effect m (.notify i (some j)) ((m.goTo j .woken).goTo i .unlock)
  | finish (i : ι) (item : Option α) (hpoint : m.point i = .got item) : Effect m (.finish i) (m.goTo i .out)
  | wake (i : ι) (hpoint : m.point i = .asleep) : Effect m (.wake i) (m.goTo i .woken)

theorem Point.sleeps_iff {point : Point α} : point.sleeps = true ↔ point = .asleep := by
  cases point <;> simp [Point.sleeps]

theorem step_cases {action : Action ι α} (h : m.step action = some m') : Effect m action m' := by
  cases action with
  | enqueue i item =>
    simp only [step] at h
    split at h <;> cases h
    case h_1 hpoint => exact .enqueue i item hpoint
  | close i item =>
    simp only [step] at h
    split at h <;> cases h
    case h_1 hpoint => exact .close i item hpoint
  | raise =>
    cases h
    exact .raise
  | dequeue i =>
    simp only [step] at h
    split at h <;> cases h
    case h_1 hpoint => exact .dequeue i hpoint
  | move i => exact .move i m' (move_cases h)
  | notify i sleeper =>
    simp only [step, notify] at h
    split at h
    case h_1 hpoint =>
      simp only [Option.ite_none_left_eq_some, not_exists] at h
      obtain ⟨hnone, h⟩ := h
      cases h
      exact .unheard i hpoint hnone
    case h_2 j hpoint =>
      simp only [Option.ite_none_right_eq_some] at h
      obtain ⟨hsleeps, h⟩ := h
      cases h
      exact .notified i j hpoint (Point.sleeps_iff.mp hsleeps)
    case h_3 => cases h
  | finish i =>
    simp only [step] at h
    split at h <;> cases h
    case h_1 item hpoint => exact .finish i item hpoint
  | wake i =>
    simp only [step, Option.ite_none_right_eq_some] at h
    obtain ⟨hsleeps, h⟩ := h
    cases h
    exact .wake i (Point.sleeps_iff.mp hsleeps)

theorem Owned.step {action : Action ι α} (h : Owned m) (hstep : m.step action = some m') : Owned m' := by
  cases step_cases hstep with
  | move i m' hmove => exact h.move hmove
  | raise => exact h
  | notified i j hpoint hsleeps =>
    apply Owned.goTo
    · exact h.goTo (by rw [hsleeps]; rfl)
    · have hne : i ≠ j := by
        rintro rfl
        rw [hpoint] at hsleeps
        cases hsleeps
      rw [goTo_point, if_neg hne, hpoint]
      rfl
  | enqueue i item hpoint | close i item hpoint | dequeue i hpoint | unheard i hpoint | finish i item hpoint
  | wake i hpoint => exact h.goTo (by rw [hpoint]; rfl)

theorem sum_goTo (f : Point α → ℕ) (i : ι) (point : Point α) (m : Monitor ι α) :
    ∑ k, f ((m.goTo i point).point k) + f (m.point i) = ∑ k, f (m.point k) + f point := by
  have hrest : ∑ k ∈ Finset.univ.erase i, f ((m.goTo i point).point k) =
      ∑ k ∈ Finset.univ.erase i, f (m.point k) := by
    refine Finset.sum_congr rfl fun k hk => ?_
    rw [goTo_point, if_neg (Finset.ne_of_mem_erase hk)]
  rw [← Finset.sum_erase_add Finset.univ _ (Finset.mem_univ i),
    ← Finset.sum_erase_add Finset.univ (fun k => f (m.point k)) (Finset.mem_univ i), hrest,
    goTo_point, if_pos rfl]
  omega

def supply (m : Monitor ι α) : ℕ := ∑ k, (m.point k).supplies

theorem supply_goTo (i : ι) (point : Point α) (m : Monitor ι α) :
    (m.goTo i point).supply + (m.point i).supplies = m.supply + point.supplies :=
  sum_goTo Point.supplies i point m

structure Supplied (m : Monitor ι α) : Prop where
  supplied : m.flag = true → ∀ k, m.point k = .asleep → m.queue.length ≤ m.supply
  checked : m.flag = true → ∀ k, m.point k = .check → m.queue ≠ []
  popped : ∀ k, m.point k = .pop → m.queue ≠ []

theorem Supplied.goTo (h : Supplied m) (i : ι) (point : Point α)
    (hsupplies : m.flag = true → (m.point i).supplies ≤ point.supplies) (hsleeps : point ≠ .asleep)
    (hcheck : m.flag = true → point = .check → m.queue ≠ []) (hpop : point = .pop → m.queue ≠ []) :
    Supplied (m.goTo i point) := by
  have hsum := supply_goTo i point m
  refine ⟨fun hflag k hk => ?_, fun hflag k hk => ?_, fun k hk => ?_⟩
  all_goals rw [goTo_point] at hk
  · split at hk
    · exact absurd hk hsleeps
    · have hlength := h.supplied hflag k hk
      have hmore := hsupplies hflag
      rw [goTo_queue]
      omega
  · split at hk
    · exact hcheck hflag hk
    · exact h.checked hflag k hk
  · split at hk
    · exact hpop hk
    · exact h.popped k hk

theorem Supplied.move (h : Supplied m) (howned : Owned m) (hmove : Move i m m') : Supplied m' := by
  cases hmove with
  | pushLocked item hpoint howner =>
    have hq := h.goTo i (.push item) (fun _ => by rw [hpoint]; exact le_rfl) (by simp) (by simp) (by simp)
    exact ⟨hq.supplied, hq.checked, hq.popped⟩
  | popLocked hpoint howner =>
    have hq := h.goTo i .guard (fun _ => by rcases hpoint with hp | hp <;> rw [hp] <;> exact le_rfl)
      (by simp) (by simp) (by simp)
    exact ⟨hq.supplied, hq.checked, hq.popped⟩
  | unlocked hpoint =>
    have hq := h.goTo i .out (fun _ => by rw [hpoint]; exact le_rfl) (by simp) (by simp) (by simp)
    exact ⟨hq.supplied, hq.checked, hq.popped⟩
  | left item hpoint =>
    have hq := h.goTo i (.got item) (fun _ => by rw [hpoint]; exact le_rfl) (by simp) (by simp) (by simp)
    exact ⟨hq.supplied, hq.checked, hq.popped⟩
  | guarded hpoint =>
    apply h.goTo
    · intro hflag
      rw [hpoint, if_pos hflag]
      exact le_rfl
    · split <;> simp
    · intro hflag
      simp [hflag]
    · split <;> simp
  | checked hpoint =>
    apply h.goTo
    · intro hflag
      rw [hpoint, if_pos hflag]
      exact le_rfl
    · split <;> simp
    · split <;> simp
    · split
      case isTrue hflag => exact fun _ => h.checked hflag i hpoint
      case isFalse => simp
  | found hpoint hne =>
    exact h.goTo i _ (fun _ => by rw [hpoint]; exact le_rfl) (by simp) (fun _ _ => hne) (by simp)
  | slept hpoint hempty =>
    refine ⟨fun _ _ _ => ?_, fun hflag k hk => ?_, fun k hk => ?_⟩
    · rw [show (m.release i .asleep).queue = [] from hempty]
      exact Nat.zero_le _
    all_goals
      rw [release_point] at hk
      split at hk
      · cases hk
    · exact h.checked hflag k hk
    · exact h.popped k hk
  | pushed item hpoint =>
    have hsum := supply_goTo i .notify m
    rw [hpoint] at hsum
    refine ⟨fun hflag k hk => ?_, fun _ _ _ => by simp, fun _ _ => by simp⟩
    simp only [goTo_point] at hk
    split at hk
    · cases hk
    · have hlength := h.supplied hflag k hk
      simp only [List.length_append, List.length_singleton, supply, Point.supplies] at hsum hlength ⊢
      omega
  | popped item rest hpoint hqueue =>
    have hsum := supply_goTo i (.leave (some item)) m
    rw [hpoint] at hsum
    -- nobody else is under the lock
    have hothers : ∀ k, k ≠ i → (m.point k).holds = false := by
      intro k hk
      by_contra hholds
      exact hk (howned.apart (Bool.not_eq_false _ ▸ hholds) (by rw [hpoint]; rfl))
    refine ⟨fun hflag k hk => ?_, fun hflag k hk => ?_, fun k hk => ?_⟩
    all_goals
      simp only [goTo_point] at hk
      split at hk
      · cases hk
    · have hlength := h.supplied hflag k hk
      rw [hqueue] at hlength
      simp only [List.length_cons, supply, Point.supplies] at hsum hlength ⊢
      omega
    all_goals
      have hfree := hothers k ‹_›
      rw [hk] at hfree
      cases hfree

theorem Supplied.step {action : Action ι α} (h : Supplied m) (howned : Owned m)
    (hstep : m.step action = some m')
    (hraise : action = .raise → ∀ k, (m.point k).side ≠ .taking) : Supplied m' := by
  cases step_cases hstep with
  | move i m' hmove => exact h.move howned hmove
  | raise =>
    have hnone := hraise rfl
    refine ⟨fun _ k hk => ?_, fun _ k hk => ?_, h.popped⟩
    all_goals
      have hout := hnone k
      rw [show m.point k = _ from hk] at hout
      exact absurd rfl hout
  | enqueue i item hpoint =>
    exact h.goTo i _ (fun _ => by rw [hpoint]; exact le_rfl) (by simp) (by simp) (by simp)
  | close i item hpoint =>
    have hq := h.goTo i (.pushLock item) (fun _ => by rw [hpoint]; exact le_rfl) (by simp) (by simp)
      (by simp)
    exact ⟨(fun hflag => by cases hflag), (fun hflag => by cases hflag), hq.popped⟩
  | dequeue i hpoint =>
    exact h.goTo i _ (fun _ => by rw [hpoint]; exact Nat.zero_le _) (by simp) (by simp) (by simp)
  | finish i item hpoint =>
    exact h.goTo i _ (fun _ => by rw [hpoint]; exact Nat.zero_le _) (by simp) (by simp) (by simp)
  | wake i hpoint =>
    exact h.goTo i _ (fun _ => by rw [hpoint]; exact Nat.zero_le _) (by simp) (by simp) (by simp)
  | unheard i hpoint hnone =>
    refine ⟨fun _ k hk => ?_, fun hflag k hk => ?_, fun k hk => ?_⟩
    all_goals
      rw [goTo_point] at hk
      split at hk
      · cases hk
    · exact absurd (Point.sleeps_iff.mpr hk) (hnone k)
    · exact h.checked hflag k hk
    · exact h.popped k hk
  | notified i j hpoint hsleeps =>
    have hne : i ≠ j := by
      rintro rfl
      rw [hpoint] at hsleeps
      cases hsleeps
    have hwoken := supply_goTo j .woken m
    have hunlock := supply_goTo i .unlock (m.goTo j .woken)
    rw [hsleeps] at hwoken
    rw [goTo_point, if_neg hne, hpoint] at hunlock
    simp only [Point.supplies] at hwoken hunlock
    refine ⟨fun hflag k hk => ?_, fun hflag k hk => ?_, fun k hk => ?_⟩
    all_goals
      rw [goTo_point, goTo_point] at hk
      split at hk
      · cases hk
      split at hk
      · cases hk
    · have hlength := h.supplied hflag k hk
      simp only [goTo_queue]
      omega
    · exact h.checked hflag k hk
    · exact h.popped k hk

omit [DecidableEq ι] in
theorem Supplied.new (flag : Bool) : Supplied (Monitor.new flag : Monitor ι α) :=
  ⟨(fun _ _ hk => by cases hk), (fun _ _ hk => by cases hk), (fun _ hk => by cases hk)⟩

omit [DecidableEq ι] [Fintype ι] in
theorem Owned.new (flag : Bool) : Owned (Monitor.new flag : Monitor ι α) := fun k => by
  simp [Monitor.new, Point.holds]

structure Stuck (m : Monitor ι α) : Prop where
  move : ∀ i, m.move i = none
  notify : ∀ i sleeper, m.notify i sleeper = none

theorem Stuck.free (h : Stuck m) (howned : Owned m) (hsupplied : Supplied m) : m.owner = none := by
  by_contra howner
  obtain ⟨i, howner⟩ := Option.ne_none_iff_exists'.mp howner
  have hholds := (howned i).mpr howner
  have hmove := h.move i
  cases hpoint : m.point i with
  | notify =>
    by_cases hsleeper : ∃ j, (m.point j).sleeps = true
    · obtain ⟨j, hj⟩ := hsleeper
      have hnotify := h.notify i (some j)
      simp [Monitor.notify, hpoint, hj] at hnotify
    · have hnotify := h.notify i none
      simp only [Monitor.notify, hpoint, if_neg hsleeper] at hnotify
      cases hnotify
  | pop =>
    obtain ⟨item, rest, hqueue⟩ := List.exists_cons_of_ne_nil (hsupplied.popped i hpoint)
    simp only [Monitor.move, hpoint, hqueue] at hmove
    cases hmove
  | push | unlock | guard | empty | check | leave =>
    simp only [Monitor.move, hpoint] at hmove
    cases hmove
  | out | pushLock | popLock | asleep | woken | got =>
    rw [hpoint] at hholds
    cases hholds

theorem Stuck.settled (h : Stuck m) (howned : Owned m) (hsupplied : Supplied m) :
    (∀ k, m.point k = .out ∨ m.point k = .asleep ∨ ∃ item, m.point k = .got item) ∧
      (m.flag = true → ∀ k, m.point k = .asleep → m.queue = []) := by
  have howner := h.free howned hsupplied
  have hpoints : ∀ k, m.point k = .out ∨ m.point k = .asleep ∨ ∃ item, m.point k = .got item := by
    intro k
    have hmove := h.move k
    cases hpoint : m.point k with
    | out => exact .inl rfl
    | asleep => exact .inr (.inl rfl)
    | got item => exact .inr (.inr ⟨item, rfl⟩)
    | pushLock | popLock | woken =>
      simp only [Monitor.move, hpoint, lock, howner, if_true] at hmove
      cases hmove
    | push | notify | unlock | guard | empty | check | pop | leave =>
      have hholds : m.owner = some k := (howned k).mp (by rw [hpoint]; rfl)
      rw [howner] at hholds
      cases hholds
  refine ⟨hpoints, fun hflag k hk => ?_⟩
  have hlength := hsupplied.supplied hflag k hk
  have hsupply : m.supply = 0 := by
    refine Finset.sum_eq_zero fun j _ => ?_
    rcases hpoints j with hj | hj | ⟨item, hj⟩ <;> rw [hj] <;> rfl
  rw [hsupply] at hlength
  exact List.length_eq_zero_iff.mp (Nat.le_zero.mp hlength)

def potential (price : ℕ) (m : Monitor ι α) : ℕ := price * m.queue.length + ∑ k, (m.point k).weight price

theorem potential_goTo (price : ℕ) (i : ι) (point : Point α) (m : Monitor ι α) :
    (m.goTo i point).potential price + (m.point i).weight price = m.potential price + point.weight price := by
  have hsum := sum_goTo (Point.weight price) i point m
  simp only [potential, goTo_queue]
  omega

theorem Move.potential_lt (h : Move i m m') (price : ℕ) : m'.potential price < m.potential price := by
  cases h with
  | pushLocked item hpoint howner =>
    have hsum := potential_goTo price i (.push item) m
    rw [hpoint] at hsum
    simp only [Point.weight, potential] at hsum ⊢
    omega
  | popLocked hpoint howner =>
    have hsum := potential_goTo price i .guard m
    rcases hpoint with hpoint | hpoint <;>
    · rw [hpoint] at hsum
      simp only [Point.weight, potential] at hsum ⊢
      omega
  | unlocked hpoint =>
    have hsum := potential_goTo price i .out m
    rw [hpoint] at hsum
    simp only [Point.weight, potential, release] at hsum ⊢
    omega
  | slept hpoint =>
    have hsum := potential_goTo price i .asleep m
    rw [hpoint] at hsum
    simp only [Point.weight, potential, release] at hsum ⊢
    omega
  | left item hpoint =>
    have hsum := potential_goTo price i (.got item) m
    rw [hpoint] at hsum
    cases item <;>
    · simp only [Point.weight, potential, release] at hsum ⊢
      omega
  | guarded hpoint =>
    have hsum := potential_goTo price i (if m.flag then .empty else .check) m
    rw [hpoint] at hsum
    cases hflag : m.flag <;>
    · simp only [hflag, Bool.false_eq_true, if_true, if_false, Point.weight] at hsum ⊢
      omega
  | checked hpoint =>
    have hsum := potential_goTo price i (if m.flag then .pop else .leave none) m
    rw [hpoint] at hsum
    cases hflag : m.flag <;>
    · simp only [hflag, Bool.false_eq_true, if_true, if_false, Point.weight] at hsum ⊢
      omega
  | found hpoint hne =>
    have hsum := potential_goTo price i .check m
    rw [hpoint] at hsum
    simp only [Point.weight] at hsum
    omega
  | pushed item hpoint =>
    have hsum := potential_goTo price i .notify m
    rw [hpoint] at hsum
    simp only [Point.weight, potential, List.length_append, List.length_singleton, Nat.mul_add,
      goTo_queue] at hsum ⊢
    omega
  | popped item rest hpoint hqueue =>
    have hsum := potential_goTo price i (.leave (some item)) m
    rw [hpoint] at hsum
    simp only [Point.weight, potential, hqueue, List.length_cons, Nat.mul_add, goTo_queue] at hsum ⊢
    omega

theorem step_potential_lt {action : Action ι α} (hstep : m.step action = some m') (price : ℕ)
    (hinside : (∃ i, action = .move i) ∨ (∃ i sleeper, action = .notify i sleeper) ∨ ∃ i, action = .finish i) :
    m'.potential price < m.potential price := by
  cases step_cases hstep with
  | move i m' hmove => exact hmove.potential_lt price
  | unheard i hpoint hnone =>
    have hsum := potential_goTo price i .unlock m
    rw [hpoint] at hsum
    simp only [Point.weight] at hsum
    omega
  | notified i j hpoint hsleeps =>
    have hne : i ≠ j := by
      rintro rfl
      rw [hpoint] at hsleeps
      cases hsleeps
    have hwoken := potential_goTo price j .woken m
    have hunlock := potential_goTo price i .unlock (m.goTo j .woken)
    rw [hsleeps] at hwoken
    rw [goTo_point, if_neg hne, hpoint] at hunlock
    simp only [Point.weight] at hwoken hunlock
    omega
  | finish i item hpoint =>
    have hsum := potential_goTo price i .out m
    rw [hpoint] at hsum
    cases item <;>
    · simp only [Point.weight] at hsum
      omega
  | _ => simp at hinside

theorem Closing.step {taker : ι} {action : Action ι α} (h : Closing taker m) (howned : Owned m)
    (hstep : m.step action = some m') (hdequeue : ∀ i, action = .dequeue i → i = taker) : Closing taker m' := by
  have hlocked : ∀ i, m.point i = .notify → m.point taker ≠ .empty := by
    intro i hpoint hempty
    have hsame := howned.apart (j := i) (k := taker) (by rw [hpoint]; rfl) (by rw [hempty]; rfl)
    rw [← hsame, hpoint] at hempty
    cases hempty
  cases step_cases hstep with
  | move i m' hmove => exact h.move hmove
  | raise => exact ⟨h.alone, fun hflag => by cases hflag⟩
  | enqueue i item hpoint => exact h.goTo i _ (by simp [Point.side]) (by simp [Point.pushes]) (by simp)
  | close i item hpoint =>
    refine ⟨fun k hk => ?_, fun _ _ => ⟨i, ?_⟩⟩
    · simp only [goTo_point] at hk
      split at hk
      · cases hk
      · exact h.alone k hk
    · simp only [goTo_point, if_true]
      rfl
  | dequeue i hpoint => exact h.goTo i _ (fun _ => hdequeue i rfl) (by simp [hpoint, Point.pushes]) (by simp)
  | finish i item hpoint => exact h.goTo i _ (by simp [Point.side]) (by simp [hpoint, Point.pushes]) (by simp)
  | wake i hpoint =>
    exact h.goTo i _ (fun _ => h.alone i (by rw [hpoint]; rfl)) (by simp [hpoint, Point.pushes]) (by simp)
  | unheard i hpoint hnone =>
    refine ⟨fun k hk => ?_, fun _ htaker => ?_⟩
    · rw [goTo_point] at hk
      split at hk
      · cases hk
      · exact h.alone k hk
    · rw [goTo_point] at htaker
      split at htaker
      · simp at htaker
      · rcases htaker with hempty | hasleep
        · exact absurd hempty (hlocked i hpoint)
        · exact absurd (Point.sleeps_iff.mpr hasleep) (hnone taker)
  | notified i j hpoint hsleeps =>
    have hj : j = taker := h.alone j (by rw [hsleeps]; rfl)
    refine ⟨fun k hk => ?_, fun _ htaker => ?_⟩
    · rw [goTo_point, goTo_point] at hk
      split at hk
      · cases hk
      split at hk
      case isTrue hkj => exact hkj.trans hj
      case isFalse => exact h.alone k hk
    · rw [goTo_point, goTo_point, if_pos hj.symm] at htaker
      split at htaker <;> simp at htaker

theorem Closing.ended {taker : ι} (h : Closing taker m) (hstuck : Stuck m) (howned : Owned m)
    (hsupplied : Supplied m)
    (hflag : m.flag = false) : m.point taker ≠ .asleep := by
  intro hasleep
  obtain ⟨k, hk⟩ := h.closing hflag (.inr hasleep)
  rcases (hstuck.settled howned hsupplied).1 k with hp | hp | ⟨item, hp⟩ <;> rw [hp] at hk <;> cases hk

theorem Halted.step {action : Action ι α} (h : Halted m) (hstep : m.step action = some m')
    (hraise : action = .raise → ∀ k, (m.point k).side ≠ .taking) : Halted m' := by
  cases step_cases hstep with
  | move i m' hmove => exact h.move hmove
  | raise =>
    intro k hk
    refine absurd ?_ (hraise rfl k)
    rcases hk with hk | hk <;> rw [show m.point k = _ from hk] <;> rfl
  | close i item hpoint => exact fun _ _ => rfl
  | notified i j hpoint hsleeps => exact (h.goTo j .woken (by simp)).goTo i .unlock (by simp)
  | enqueue i item hpoint => exact h.goTo i (.pushLock item) (by simp)
  | dequeue i hpoint => exact h.goTo i .popLock (by simp)
  | unheard i hpoint hnone => exact h.goTo i .unlock (by simp)
  | finish i item hpoint => exact h.goTo i .out (by simp)
  | wake i hpoint => exact h.goTo i .woken (by simp)

theorem side_step {action : Action ι α} (hstep : m.step action = some m')
    (hinternal : internal action = true) (k : ι) :
    (m'.point k).side = (m.point k).side ∨ (m.point k).side = .putting ∧ m'.point k = .out := by
  cases step_cases hstep with
  | move i m' hmove => exact hmove.side k
  | unheard i hpoint hnone =>
    left
    rw [goTo_point]
    split
    case isTrue hk => rw [hk, hpoint]; rfl
    case isFalse => rfl
  | notified i j hpoint hsleeps =>
    left
    rw [goTo_point, goTo_point]
    split
    case isTrue hk => rw [hk, hpoint]; rfl
    case isFalse =>
      split
      case isTrue hk => rw [hk, hsleeps]; rfl
      case isFalse => rfl
  | wake i hpoint =>
    left
    rw [goTo_point]
    split
    case isTrue hk => rw [hk, hpoint]; rfl
    case isFalse => rfl
  | _ => cases hinternal

inductive Passes (m : Monitor ι α) (action : Action ι α) (m' : Monitor ι α) : Prop
  | pushed (i : ι) (item : α) (haction : action = .move i) (hpoint : m.point i = .push item)
      (h : m' = { m.goTo i .notify with queue := m.queue ++ [item] })
  | popped (i : ι) (item : α) (rest : List α) (haction : action = .move i) (hpoint : m.point i = .pop)
      (hqueue : m.queue = item :: rest) (h : m' = { m.goTo i (.leave (some item)) with queue := rest })
  | stays (hqueue : m'.queue = m.queue) (hpushed : m.pushed action = []) (hpopped : m.popped action = [])
      (hitem : ∀ k, (m'.point k).item = (m.point k).item)

theorem internal_cases {action : Action ι α} (hstep : m.step action = some m')
    (hinternal : internal action = true) :
    Passes m action m' := by
  cases step_cases hstep with
  | move i m' hmove =>
    cases hmove with
    | pushed item hpoint => exact .pushed i item rfl hpoint rfl
    | popped item rest hpoint hqueue => exact .popped i item rest rfl hpoint hqueue rfl
    | popLocked hpoint howner =>
      rcases hpoint with hpoint | hpoint <;>
        exact .stays rfl (by simp [Monitor.pushed, hpoint]) (by simp [Monitor.popped, hpoint])
          (item_goTo (by rw [hpoint]; rfl))
    | guarded hpoint | checked hpoint =>
      refine .stays rfl (by simp [Monitor.pushed, hpoint]) (by simp [Monitor.popped, hpoint]) (item_goTo ?_)
      rw [hpoint]
      split <;> rfl
    | pushLocked item hpoint | unlocked hpoint | slept hpoint | found hpoint | left item hpoint =>
      exact .stays rfl (by simp [Monitor.pushed, hpoint]) (by simp [Monitor.popped, hpoint])
        (item_goTo (by rw [hpoint]; rfl))
  | unheard i hpoint hnone => exact .stays rfl rfl rfl (item_goTo (by rw [hpoint]; rfl))
  | notified i j hpoint hsleeps =>
    have hne : i ≠ j := by
      rintro rfl
      rw [hpoint] at hsleeps
      cases hsleeps
    refine .stays rfl rfl rfl fun k => (item_goTo ?_ k).trans (item_goTo (by rw [hsleeps]; rfl) k)
    rw [goTo_point, if_neg hne, hpoint]
    rfl
  | wake i hpoint => exact .stays rfl rfl rfl (item_goTo (by rw [hpoint]; rfl))
  | _ => cases hinternal

theorem flag_internal {action : Action ι α} (hstep : m.step action = some m')
    (hinternal : internal action = true) :
    m'.flag = m.flag := by
  cases step_cases hstep with
  | move i m' hmove => cases hmove <;> rfl
  | unheard | notified | wake => rfl
  | _ => cases hinternal

structure Sound (m : Monitor ι α) : Prop where
  owned : Owned m
  supplied : Supplied m
  halted : Halted m

omit [DecidableEq ι] in
theorem Sound.new [DecidableEq ι] (flag : Bool) : Sound (Monitor.new flag : Monitor ι α) :=
  ⟨.new flag, .new flag, fun _ hk => by rcases hk with hk | hk <;> cases hk⟩

theorem Sound.step {action : Action ι α} (h : Sound m) (hstep : m.step action = some m')
    (hraise : action = .raise → ∀ k, (m.point k).side ≠ .taking) : Sound m' :=
  ⟨h.owned.step hstep, h.supplied.step h.owned hstep hraise, h.halted.step hstep hraise⟩

end Threads

end Monitor

end Cheferd.Library
