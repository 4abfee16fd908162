import Cheferd.Library.Server

namespace Cheferd.Library

namespace Worker

inductive Point (ρ : Type)
  | created
  | raise
  | loop
  | acquire
  | guard
  | empty
  | wait
  | check
  | pop
  | release (rule : Option ρ)
  | taken (rule : ρ)
  | serving (rule : ρ)
  | ended
deriving DecidableEq

inductive Caller (ρ : Type)
  | idle
  | acquire (rule : ρ) (last : Bool)
  | push (rule : ρ) (last : Bool)
  | release (last : Bool)
  | removed
deriving DecidableEq

inductive Action (ρ ω : Type)
  | start (accepted : Bool)
  | thread
  | respond (outcome : ω)
  | submit (rule : ρ)
  | remove
  | caller
  | collect

namespace Point

variable {ρ : Type}

def held : Point ρ → Option ρ
  | .release rule => rule
  | .taken rule => some rule
  | _ => none

def locks : Point ρ → Bool
  | .guard | .empty | .check | .pop | .release _ => true
  | _ => false

def past : Point ρ → Bool
  | .created | .raise => false
  | _ => true

end Point

namespace Caller

variable {ρ : Type}

def locks : Caller ρ → Bool
  | .push _ _ | .release _ => true
  | _ => false

def leaving : Caller ρ → Bool
  | .acquire _ last | .push _ last | .release last => last
  | .idle => false
  | .removed => true

def entered : Caller ρ → Bool
  | .push _ last | .release last => last
  | .idle | .acquire _ _ => false
  | .removed => true

end Caller

end Worker

/-- A server's thread with its lock and its flag, move by move. The rules dequeued, those begun to be served
and whether the flag was ever read as false are kept as a history. -/
structure Worker (ρ σ : Type) where
  point : Worker.Point ρ
  caller : Worker.Caller ρ
  working : Bool
  locked : Bool
  submission : List ρ
  completion : List (ρ × σ)
  submitted : List ρ
  popped : List (ρ × σ)
  taken : List ρ
  begun : List ρ
  stopSeen : Bool
deriving DecidableEq

namespace Worker

variable {ρ σ ω : Type}

def new (working : Bool) : Worker ρ σ := ⟨.created, .idle, working, false, [], [], [], [], [], [], false⟩

def threadStep (s : Worker ρ σ) : Option (Worker ρ σ) :=
  match s.point with
  | .raise => some { s with working := true, point := .loop }
  | .loop =>
    some (if s.working then { s with point := .acquire } else { s with point := .ended, stopSeen := true })
  -- a thread that waits may also wake up without having been notified
  | .acquire | .wait => if s.locked then none else some { s with locked := true, point := .guard }
  | .guard =>
    some (if s.working then { s with point := .empty } else { s with point := .check, stopSeen := true })
  | .empty =>
    some (if s.submission.isEmpty then { s with locked := false, point := .wait } else
      { s with point := .check })
  | .check =>
    some (if s.working then { s with point := .pop } else { s with point := .release none, stopSeen := true })
  | .pop =>
    match s.submission with
    | [] => none
    | rule :: rest =>
      some { s with submission := rest, taken := s.taken ++ [rule], point := .release (some rule) }
  | .release none => some { s with locked := false, point := .loop }
  | .release (some rule) => some { s with locked := false, point := .taken rule }
  | .taken rule => some { s with begun := s.begun ++ [rule], point := .serving rule }
  | .created | .serving _ | .ended => none

def callerStep (s : Worker ρ σ) : Option (Worker ρ σ) :=
  match s.caller with
  | .acquire rule last => if s.locked then none else some { s with locked := true, caller := .push rule last }
  | .push rule last =>
    some { s with
      submission := s.submission ++ [rule]
      submitted := s.submitted ++ [rule]
      caller := .release last }
  | .release last => some { s with locked := false, caller := if last then .removed else .idle }
  | .idle | .removed => none

def step (send : ρ → ω → Option (List σ)) (dummy : ρ) (s : Worker ρ σ) : Action ρ ω → Option (Worker ρ σ)
  | .start accepted =>
    match s.point with
    | .created => some { s with point := if accepted then .raise else .loop }
    | _ => none
  | .thread => s.threadStep
  | .respond outcome =>
    match s.point with
    | .serving rule => (send rule outcome).map fun responses =>
      { s with point := .loop, completion := s.completion ++ responses.map fun response => (rule, response) }
    | _ => none
  | .submit rule =>
    match s.caller with
    | .idle => some { s with caller := .acquire rule false }
    | _ => none
  | .remove =>
    match s.caller with
    | .idle => some { s with working := false, caller := .acquire dummy true }
    | _ => none
  | .caller => s.callerStep
  | .collect =>
    match s.completion with
    | response :: rest => some { s with completion := rest, popped := s.popped ++ [response] }
    | [] => none

def machine (send : ρ → ω → Option (List σ)) (dummy : ρ) : Machine (Worker ρ σ) (Action ρ ω) where
  start s := ∃ working, s = new working
  step := step send dummy

variable {send : ρ → ω → Option (List σ)} {dummy : ρ} {kind : ρ → Prop} {s t : Worker ρ σ} {a : Action ρ ω}

structure Halted (s : Worker ρ σ) : Prop where
  stopped : s.working = false
  past : s.point.past = true
  point : s.point ≠ .pop

inductive Move (s : Worker ρ σ) : Worker ρ σ → Prop
  | raised (hpoint : s.point = .raise) : Move s { s with working := true, point := .loop }
  | stopped (point : Point ρ) (hpoint : s.point = .loop ∧ point = .ended ∨ s.point = .guard ∧ point = .check ∨
      s.point = .check ∧ point = .release none) (hworking : s.working = false) :
      Move s { s with point := point, stopSeen := true }
  | passed (point : Point ρ) (hpoint : s.point = .loop ∧ point = .acquire ∨ s.point = .guard ∧ point = .empty ∨
      s.point = .check ∧ point = .pop) (hworking : s.working = true) : Move s { s with point := point }
  | locked (hpoint : s.point = .acquire ∨ s.point = .wait) (hlocked : s.locked = false) :
      Move s { s with locked := true, point := .guard }
  | waited (hpoint : s.point = .empty) (hempty : s.submission = []) :
      Move s { s with locked := false, point := .wait }
  | found (hpoint : s.point = .empty) (hne : s.submission ≠ []) : Move s { s with point := .check }
  | popped (rule : ρ) (rest : List ρ) (hpoint : s.point = .pop) (hqueue : s.submission = rule :: rest) :
      Move s { s with submission := rest, taken := s.taken ++ [rule], point := .release (some rule) }
  | released (hpoint : s.point = .release none) : Move s { s with locked := false, point := .loop }
  | handed (rule : ρ) (hpoint : s.point = .release (some rule)) :
      Move s { s with locked := false, point := .taken rule }
  | began (rule : ρ) (hpoint : s.point = .taken rule) :
      Move s { s with begun := s.begun ++ [rule], point := .serving rule }

theorem threadStep_cases (h : s.threadStep = some t) : s.Move t := by
  unfold threadStep at h
  split at h
  case h_1 hpoint =>
    cases h
    exact .raised hpoint
  case h_2 hpoint =>
    cases h
    by_cases hworking : s.working = true
    · rw [if_pos hworking]
      exact .passed _ (.inl ⟨hpoint, rfl⟩) hworking
    · rw [if_neg hworking]
      exact .stopped _ (.inl ⟨hpoint, rfl⟩) (Bool.eq_false_iff.mpr hworking)
  case h_3 hpoint =>
    split at h <;> cases h
    case isFalse.refl hlocked => exact .locked (.inl hpoint) (Bool.eq_false_iff.mpr hlocked)
  case h_4 hpoint =>
    split at h <;> cases h
    case isFalse.refl hlocked => exact .locked (.inr hpoint) (Bool.eq_false_iff.mpr hlocked)
  case h_5 hpoint =>
    cases h
    by_cases hworking : s.working = true
    · rw [if_pos hworking]
      exact .passed _ (.inr (.inl ⟨hpoint, rfl⟩)) hworking
    · rw [if_neg hworking]
      exact .stopped _ (.inr (.inl ⟨hpoint, rfl⟩)) (Bool.eq_false_iff.mpr hworking)
  case h_6 hpoint =>
    cases h
    by_cases hempty : s.submission = []
    · rw [if_pos (List.isEmpty_iff.mpr hempty)]
      exact .waited hpoint hempty
    · rw [if_neg fun he => hempty (List.isEmpty_iff.mp he)]
      exact .found hpoint hempty
  case h_7 hpoint =>
    cases h
    by_cases hworking : s.working = true
    · rw [if_pos hworking]
      exact .passed _ (.inr (.inr ⟨hpoint, rfl⟩)) hworking
    · rw [if_neg hworking]
      exact .stopped _ (.inr (.inr ⟨hpoint, rfl⟩)) (Bool.eq_false_iff.mpr hworking)
  case h_8 hpoint =>
    split at h <;> cases h
    case h_2.refl rule rest hqueue => exact .popped rule rest hpoint hqueue
  case h_9 hpoint =>
    cases h
    exact .released hpoint
  case h_10 rule hpoint =>
    cases h
    exact .handed rule hpoint
  case h_11 rule hpoint =>
    cases h
    exact .began rule hpoint
  all_goals cases h

inductive Effect (send : ρ → ω → Option (List σ)) (dummy : ρ) (s : Worker ρ σ) : Action ρ ω → Worker ρ σ → Prop
  | start (accepted : Bool) (hpoint : s.point = .created) :
      Effect send dummy s (.start accepted) { s with point := if accepted then .raise else .loop }
  | thread (t : Worker ρ σ) (hmove : s.Move t) : Effect send dummy s .thread t
  | respond (outcome : ω) (rule : ρ) (responses : List σ) (hpoint : s.point = .serving rule)
      (hsend : send rule outcome = some responses) : Effect send dummy s (.respond outcome) { s with
        point := .loop
        completion := s.completion ++ responses.map fun response => (rule, response) }
  | submit (rule : ρ) (hcaller : s.caller = .idle) :
      Effect send dummy s (.submit rule) { s with caller := .acquire rule false }
  | remove (hcaller : s.caller = .idle) :
      Effect send dummy s .remove { s with working := false, caller := .acquire dummy true }
  | acquire (rule : ρ) (last : Bool) (hcaller : s.caller = .acquire rule last) (hlocked : s.locked = false) :
      Effect send dummy s .caller { s with locked := true, caller := .push rule last }
  | push (rule : ρ) (last : Bool) (hcaller : s.caller = .push rule last) : Effect send dummy s .caller { s with
        submission := s.submission ++ [rule]
        submitted := s.submitted ++ [rule]
        caller := .release last }
  | release (last : Bool) (hcaller : s.caller = .release last) :
      Effect send dummy s .caller { s with locked := false, caller := if last then .removed else .idle }
  | collect (response : ρ × σ) (rest : List (ρ × σ)) (hcompletion : s.completion = response :: rest) :
      Effect send dummy s .collect { s with completion := rest, popped := s.popped ++ [response] }

theorem step_cases (h : s.step send dummy a = some t) : Effect send dummy s a t := by
  cases a with
  | start accepted =>
    simp only [Worker.step] at h
    split at h <;> cases h
    case h_1 hpoint => exact .start accepted hpoint
  | thread => exact .thread t (threadStep_cases h)
  | respond outcome =>
    simp only [Worker.step] at h
    split at h
    case h_1 rule hpoint =>
      obtain ⟨responses, hsend, rfl⟩ := Option.map_eq_some_iff.mp h
      exact .respond outcome rule responses hpoint hsend
    case h_2 => cases h
  | submit rule =>
    simp only [Worker.step] at h
    split at h <;> cases h
    case h_1 hcaller => exact .submit rule hcaller
  | remove =>
    simp only [Worker.step] at h
    split at h <;> cases h
    case h_1 hcaller => exact .remove hcaller
  | caller =>
    simp only [Worker.step, callerStep] at h
    split at h
    case h_1 rule last hcaller =>
      split at h <;> cases h
      case isFalse.refl hlocked => exact .acquire rule last hcaller (Bool.eq_false_iff.mpr hlocked)
    case h_2 rule last hcaller =>
      cases h
      exact .push rule last hcaller
    case h_3 last hcaller =>
      cases h
      exact .release last hcaller
    all_goals cases h
  | collect =>
    simp only [Worker.step] at h
    split at h <;> cases h
    case h_1 response rest hcompletion => exact .collect response rest hcompletion

theorem Move.caller_eq (h : s.Move t) : t.caller = s.caller := by
  cases h <;> rfl

theorem Move.past (h : s.Move t) (hs : s.point.past = true) : t.point.past = true ∧ t.working = s.working := by
  cases h with
  | raised hpoint => simp [hpoint, Point.past] at hs
  | stopped point hpoint => rcases hpoint with ⟨-, rfl⟩ | ⟨-, rfl⟩ | ⟨-, rfl⟩ <;> exact ⟨rfl, rfl⟩
  | passed point hpoint => rcases hpoint with ⟨-, rfl⟩ | ⟨-, rfl⟩ | ⟨-, rfl⟩ <;> exact ⟨rfl, rfl⟩
  | _ => exact ⟨rfl, rfl⟩

theorem Move.halted (h : s.Move t) (hs : s.Halted) : t.Halted ∧ t.taken = s.taken := by
  obtain ⟨hpast, hworking⟩ := h.past hs.past
  have hstopped := hworking.trans hs.stopped
  cases h with
  | passed point hpoint hraised => exact absurd (hraised.symm.trans hs.stopped) (by decide)
  | popped rule rest hpoint => exact absurd hpoint hs.point
  | stopped point hpoint =>
    refine ⟨⟨hstopped, hpast, ?_⟩, rfl⟩
    rcases hpoint with ⟨-, rfl⟩ | ⟨-, rfl⟩ | ⟨-, rfl⟩ <;> simp
  | _ => exact ⟨⟨hstopped, hpast, by simp⟩, rfl⟩

theorem Move.taken_eq (h : s.Move t) (hs : s.taken = s.begun ++ s.point.held.toList) :
    t.taken = t.begun ++ t.point.held.toList := by
  cases h with
  | stopped point hpoint =>
    rcases hpoint with ⟨hpoint, rfl⟩ | ⟨hpoint, rfl⟩ | ⟨hpoint, rfl⟩ <;> simpa [Point.held, hpoint] using hs
  | passed point hpoint =>
    rcases hpoint with ⟨hpoint, rfl⟩ | ⟨hpoint, rfl⟩ | ⟨hpoint, rfl⟩ <;> simpa [Point.held, hpoint] using hs
  | locked hpoint => rcases hpoint with hpoint | hpoint <;> simpa [Point.held, hpoint] using hs
  | _ => simp_all [Point.held]

theorem Halted.of_same (hs : s.Halted) (hpoint : t.point = s.point) (hworking : t.working = s.working)
    : t.Halted :=
  ⟨hworking.trans hs.stopped, hpoint ▸ hs.past, hpoint ▸ hs.point⟩

theorem Halted.step (h : s.step send dummy a = some t) (hs : s.Halted) : t.Halted ∧ t.taken = s.taken := by
  cases step_cases h with
  | start accepted hpoint =>
    have hpast := hs.past
    simp [hpoint, Point.past] at hpast
  | thread t hmove => exact hmove.halted hs
  | respond => exact ⟨⟨hs.stopped, rfl, by simp⟩, rfl⟩
  | remove => exact ⟨⟨rfl, hs.past, hs.point⟩, rfl⟩
  | _ => exact ⟨hs.of_same rfl rfl, rfl⟩

theorem taken_step (h : s.step send dummy a = some t) (hs : s.taken = s.begun ++ s.point.held.toList) :
    t.taken = t.begun ++ t.point.held.toList := by
  cases step_cases h with
  | start accepted hpoint => cases accepted <;> simpa [Point.held, hpoint] using hs
  | thread t hmove => exact hmove.taken_eq hs
  | respond outcome rule responses hpoint => simpa [Point.held, hpoint] using hs
  | _ => exact hs

theorem halted_of_stopSeen_step (h : s.step send dummy a = some t) (hs : s.stopSeen = true → s.Halted) :
    t.stopSeen = true → t.Halted := by
  intro ht
  by_cases hseen : s.stopSeen = true
  · exact (Halted.step h (hs hseen)).1
  · cases step_cases h with
    | thread t hmove =>
      cases hmove with
      | stopped point hpoint hworking =>
        rcases hpoint with ⟨-, rfl⟩ | ⟨-, rfl⟩ | ⟨-, rfl⟩ <;> exact ⟨hworking, rfl, by simp⟩
      | _ => exact absurd ht hseen
    | _ => exact absurd ht hseen

structure Exclusive (s : Worker ρ σ) : Prop where
  free : s.locked = false → s.point.locks = false ∧ s.caller.locks = false
  apart : s.point.locks = true → s.caller.locks = false

theorem Move.exclusive (h : s.Move t) (hs : s.Exclusive) : t.Exclusive := by
  obtain ⟨hfree, hapart⟩ := hs
  cases h with
  | stopped point hpoint =>
    rcases hpoint with ⟨hpoint, rfl⟩ | ⟨hpoint, rfl⟩ | ⟨hpoint, rfl⟩ <;> constructor <;> simp_all [Point.locks]
  | passed point hpoint =>
    rcases hpoint with ⟨hpoint, rfl⟩ | ⟨hpoint, rfl⟩ | ⟨hpoint, rfl⟩ <;> constructor <;> simp_all [Point.locks]
  | _ => constructor <;> simp_all [Point.locks]

theorem Exclusive.step (h : s.step send dummy a = some t) (hs : s.Exclusive) : t.Exclusive := by
  cases step_cases h with
  | thread t hmove => exact hmove.exclusive hs
  | collect => exact ⟨hs.free, hs.apart⟩
  | start accepted =>
    cases accepted <;> exact ⟨fun hlocked => ⟨rfl, (hs.free hlocked).2⟩, fun hlocks => by cases hlocks⟩
  | respond => exact ⟨fun hlocked => ⟨rfl, (hs.free hlocked).2⟩, fun hlocks => by cases hlocks⟩
  | acquire rule last hcaller hlocked =>
    obtain ⟨hpoint, -⟩ := hs.free hlocked
    exact ⟨(fun hfree => by cases hfree), fun hlocks => by simp [hpoint] at hlocks⟩
  | push rule last hcaller =>
    have hlocks := hs.apart
    have hfree := hs.free
    rw [hcaller] at hlocks hfree
    exact ⟨hfree, hlocks⟩
  | release last hcaller =>
    have hpoint : s.point.locks = false := by
      by_contra hlocks
      have hcallerLocks := hs.apart (Bool.not_eq_false _ ▸ hlocks)
      rw [hcaller] at hcallerLocks
      cases hcallerLocks
    cases last <;> exact ⟨fun _ => ⟨hpoint, rfl⟩, fun _ => rfl⟩
  | _ => exact ⟨fun hlocked => ⟨(hs.free hlocked).1, rfl⟩, fun _ => rfl⟩

def Accepted (_ : Worker ρ σ) : Action ρ ω → Prop
  | .start accepted => accepted = true
  | _ => True

instance : ∀ (s : Worker ρ σ) (a : Action ρ ω), Decidable (Accepted s a)
  | _, .start accepted => inferInstanceAs (Decidable (accepted = true))
  | _, .thread | _, .respond _ | _, .submit _ | _, .remove | _, .caller | _, .collect =>
    inferInstanceAs (Decidable True)

def Ordered (s : Worker ρ σ) : Action ρ ω → Prop
  | .start accepted => accepted = true
  | .remove => s.point.past = true
  | _ => True

instance : ∀ (s : Worker ρ σ) (a : Action ρ ω), Decidable (Ordered s a)
  | _, .start accepted => inferInstanceAs (Decidable (accepted = true))
  | s, .remove => inferInstanceAs (Decidable (s.point.past = true))
  | _, .thread | _, .respond _ | _, .submit _ | _, .caller | _, .collect => inferInstanceAs (Decidable True)

structure Lowered (s : Worker ρ σ) : Prop where
  exclusive : s.Exclusive
  leaving : s.caller.leaving = true → s.working = false ∧ s.point.past = true
  entered : s.caller.entered = true → s.Halted

theorem Lowered.step (h : s.step send dummy a = some t) (ha : Ordered s a) (hs : s.Lowered) : t.Lowered := by
  obtain ⟨hexclusive, hleaving, hentered⟩ := hs
  have hexclusive' := Exclusive.step h hexclusive
  cases step_cases h with
  | start accepted hpoint =>
    have hpast : s.point.past ≠ true := by simp [hpoint, Point.past]
    exact ⟨hexclusive', fun hcaller => absurd (hleaving hcaller).2 hpast,
      fun hcaller => absurd (hentered hcaller).past hpast⟩
  | thread t hmove =>
    refine ⟨hexclusive', fun hcaller => ?_, fun hcaller => ?_⟩
    · rw [hmove.caller_eq] at hcaller
      obtain ⟨hstopped, hpast⟩ := hleaving hcaller
      obtain ⟨hpast', hworking⟩ := hmove.past hpast
      exact ⟨hworking.trans hstopped, hpast'⟩
    · rw [hmove.caller_eq] at hcaller
      exact (hmove.halted (hentered hcaller)).1
  | respond =>
    exact ⟨hexclusive', fun hcaller => ⟨(hleaving hcaller).1, rfl⟩,
      fun hcaller => ⟨(hentered hcaller).stopped, rfl, by simp⟩⟩
  | submit rule hcaller => exact ⟨hexclusive', (fun h => by cases h), (fun h => by cases h)⟩
  | remove hcaller => exact ⟨hexclusive', fun _ => ⟨rfl, ha⟩, (fun h => by cases h)⟩
  -- whoever has the lock, the thread does not stand before the queue
  | acquire rule last hcaller hlocked =>
    have hfree := (hexclusive.free hlocked).1
    rw [hcaller] at hleaving
    refine ⟨hexclusive', hleaving, fun hlast => ?_⟩
    obtain ⟨hstopped, hpast⟩ := hleaving hlast
    refine ⟨hstopped, hpast, fun hpop => ?_⟩
    simp only at hpop
    simp [hpop, Point.locks] at hfree
  | push rule last hcaller =>
    rw [hcaller] at hleaving hentered
    exact ⟨hexclusive', hleaving, fun hlast => (hentered hlast).of_same rfl rfl⟩
  | release last hcaller =>
    rw [hcaller] at hleaving hentered
    cases last with
    | false => exact ⟨hexclusive', (fun h => by cases h), (fun h => by cases h)⟩
    | true => exact ⟨hexclusive', fun _ => hleaving rfl, fun _ => (hentered rfl).of_same rfl rfl⟩
  | collect => exact ⟨hexclusive', hleaving, fun hcaller => (hentered hcaller).of_same rfl rfl⟩

section Runs

variable {allowed : Worker ρ σ → Action ρ ω → Prop}

theorem taken_reach (h : (machine send dummy).Reach allowed s) : s.taken = s.begun ++ s.point.held.toList := by
  refine h.invariant (I := fun s => s.taken = s.begun ++ s.point.held.toList) ?_ fun s t a hs _ hstep =>
    taken_step hstep hs
  rintro s ⟨working, rfl⟩
  rfl

theorem halted_of_stopSeen (h : (machine send dummy).Reach allowed s) : s.stopSeen = true → s.Halted := by
  refine h.invariant (I := fun s => s.stopSeen = true → s.Halted) ?_ fun s t a hs _ hstep =>
    halted_of_stopSeen_step hstep hs
  rintro s ⟨working, rfl⟩ hseen
  cases hseen

theorem lowered_reach (h : (machine send dummy).Reach Ordered s) : s.Lowered := by
  refine h.invariant ?_ fun s t a hs ha hstep => hs.step hstep ha
  rintro s ⟨working, rfl⟩
  exact ⟨⟨fun _ => ⟨rfl, rfl⟩, fun _ => rfl⟩, (fun h => by cases h), (fun h => by cases h)⟩

theorem Halted.run (hs : s.Halted) (h : ((machine send dummy).resume s).Reach allowed t) :
    t.taken = s.taken := by
  have hrun : t.Halted ∧ t.taken = s.taken := by
    refine h.invariant (I := fun t => t.Halted ∧ t.taken = s.taken) ?_ fun u v a hu _ hstep => ?_
    · rintro u rfl
      exact ⟨hs, rfl⟩
    · obtain ⟨hhalted, htaken⟩ := Halted.step hstep hu.1
      exact ⟨hhalted, htaken.trans hu.2⟩
  exact hrun.2

structure StaysRemoved (m : Machine (Worker ρ σ) (Action ρ ω)) (s : Worker ρ σ) : Prop where
  begun : s.caller = .removed → ∀ t, (m.resume s).Reach Accepted t → t.begun <+: s.begun ++ s.point.held.toList
  taken : s.stopSeen = true → ∀ t, (m.resume s).Reach Accepted t → t.taken = s.taken

theorem begun_prefix {allowed' : Worker ρ σ → Action ρ ω → Prop} (h : (machine send dummy).Reach allowed s)
    (ht : ((machine send dummy).resume s).Reach allowed' t)
    (htaken : t.taken = s.taken) : t.begun <+: s.begun ++ s.point.held.toList := by
  have hlast : t.taken = t.begun ++ t.point.held.toList := by
    refine ht.invariant (I := fun t => t.taken = t.begun ++ t.point.held.toList) ?_ fun u v a hu _ hstep =>
      taken_step hstep hu
    rintro u rfl
    exact taken_reach h
  rw [← taken_reach h, ← htaken, hlast]
  exact List.prefix_append _ _

theorem taken_of_stopSeen (h : (machine send dummy).Reach Accepted s) (hseen : s.stopSeen = true)
    (ht : ((machine send dummy).resume s).Reach Accepted t) : t.taken = s.taken :=
  (halted_of_stopSeen h hseen).run ht

theorem staysRemoved_ordered (h : (machine send dummy).Reach Ordered s) :
    StaysRemoved (machine send dummy) s := by
  constructor
  · intro hremoved t ht
    have hhalted : s.Halted := (lowered_reach h).entered (by rw [hremoved]; rfl)
    exact begun_prefix h ht (hhalted.run ht)
  · intro hseen t ht
    exact (halted_of_stopSeen h hseen).run ht

theorem served_after_removal (send : ρ → ω → Option (List σ)) (dummy rule : ρ) :
    ∃ s t, (machine send dummy).Reach Accepted s ∧ s.caller = .removed ∧ s.begun = [] ∧ s.point.held = none ∧
      ((machine send dummy).resume s).Reach Accepted t ∧ t.begun = [rule] := by
  let removed : Worker ρ σ :=
    { new false with caller := .removed, submission := [rule, dummy], submitted := [rule, dummy] }
  let serving : Worker ρ σ :=
    { removed with
      point := .serving rule, working := true, submission := [dummy], taken := [rule], begun := [rule] }
  have hremoved : (machine send dummy).exec Accepted (new false)
      [.submit rule, .caller, .caller, .caller, .remove, .caller, .caller, .caller] = some removed := rfl
  have hserving : ((machine send dummy).resume removed).exec Accepted removed
      [.start true, .thread, .thread, .thread, .thread, .thread, .thread, .thread, .thread, .thread] =
        some serving := rfl
  have hstart : (machine send dummy).Reach Accepted (new false) := .start ⟨false, rfl⟩
  exact ⟨removed, serving, hstart.exec hremoved, rfl, rfl, rfl, (Machine.Reach.start rfl).exec hserving, rfl⟩

end Runs

section Refinement

def Point.server : Point ρ → Server.Thread ρ
  | .created | .raise => .created
  | .release (some rule) | .taken rule | .serving rule => .serving rule
  | _ => .idle

def server (s : Worker ρ σ) : Server ρ σ := ⟨s.submission, s.point.server, s.completion, s.submitted, s.popped⟩

def Caller.pending : Caller ρ → Option ρ
  | .acquire rule _ | .push rule _ => some rule
  | _ => none

def Submits (kind : ρ → Prop) (dummy : ρ) (_ : Worker ρ σ) : Action ρ ω → Prop
  | .start accepted => accepted = true
  | .submit rule => kind rule
  | .remove => kind dummy
  | _ => True

def Follows (send : ρ → ω → Option (List σ)) (kind : ρ → Prop) (s t : Server ρ σ) : Prop :=
  t = s ∨ ∃ a : Server.Action ρ ω, Server.Submits kind s a ∧ s.step send a = some t

theorem Move.follows (h : s.Move t) : Follows send kind s.server t.server := by
  cases h with
  | raised hpoint => exact .inr ⟨.start true, trivial, by simp [Server.step, server, Point.server, hpoint]⟩
  | popped rule rest hpoint hqueue =>
    exact .inr ⟨.dequeue, trivial, by simp [Server.step, server, Point.server, hpoint, hqueue]⟩
  | stopped point hpoint =>
    rcases hpoint with ⟨hpoint, rfl⟩ | ⟨hpoint, rfl⟩ | ⟨hpoint, rfl⟩ <;> left
      <;> simp [server, Point.server, hpoint]
  | passed point hpoint =>
    rcases hpoint with ⟨hpoint, rfl⟩ | ⟨hpoint, rfl⟩ | ⟨hpoint, rfl⟩ <;> left
      <;> simp [server, Point.server, hpoint]
  | locked hpoint => rcases hpoint with hpoint | hpoint <;> left <;> simp [server, Point.server, hpoint]
  | _ =>
    left
    simp_all [server, Point.server]

theorem follows_step (h : s.step send dummy a = some t) (ha : Submits kind dummy s a)
    (hs : ∀ rule ∈ s.caller.pending, kind rule) :
    Follows send kind s.server t.server ∧ ∀ rule ∈ t.caller.pending, kind rule := by
  cases step_cases h with
  | thread t hmove => exact ⟨hmove.follows, hmove.caller_eq ▸ hs⟩
  | start accepted hpoint =>
    cases ha
    exact ⟨.inl (by simp [server, Point.server, hpoint]), hs⟩
  | respond outcome rule responses hpoint hsend =>
    exact ⟨.inr ⟨.respond outcome, trivial, by simp [Server.step, server, Point.server, hpoint, hsend]⟩, hs⟩
  | submit rule =>
    refine ⟨.inl rfl, fun rule' hrule => ?_⟩
    cases hrule
    exact ha
  | remove =>
    refine ⟨.inl rfl, fun rule' hrule => ?_⟩
    cases hrule
    exact ha
  | acquire rule last hcaller =>
    rw [hcaller] at hs
    exact ⟨.inl rfl, hs⟩
  | push rule last hcaller =>
    rw [hcaller] at hs
    exact ⟨.inr ⟨.submit rule, hs rule rfl, rfl⟩, fun _ hrule => by cases hrule⟩
  | release last =>
    cases last <;> exact ⟨.inl rfl, fun _ hrule => by cases hrule⟩
  | collect response rest hcompletion =>
    exact ⟨.inr ⟨.pop, trivial, by simp [Server.step, server, hcompletion]⟩, hs⟩

theorem server_reach (h : (machine send dummy).Reach (Submits kind dummy) s) :
    (Server.machine send).Reach (Server.Submits kind) s.server := by
  have hs : (Server.machine send).Reach (Server.Submits kind) s.server ∧
    ∀ rule ∈ s.caller.pending, kind rule := by
    induction h with
    | start h =>
      obtain ⟨working, rfl⟩ := h
      exact ⟨.start rfl, fun _ hrule => by cases hrule⟩
    | step _ ha hstep ih =>
      obtain ⟨hfollows, hpending⟩ := follows_step hstep ha ih.2
      refine ⟨?_, hpending⟩
      rcases hfollows with hsame | ⟨a, ha, hstep⟩
      · rw [hsame]
        exact ih.1
      · exact ih.1.step ha hstep
  exact hs.1

end Refinement

end Worker

end Cheferd.Library
