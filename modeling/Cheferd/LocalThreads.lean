import Cheferd.Library.CountedQueue
import Cheferd.LocalFeedbackLoop

namespace Cheferd.LocalThreads

open Library LocalControlApplication

inductive LoopPoint
  | waiting
  | condition
  | pending
  | handling
  | registered
  | exited
deriving DecidableEq

structure Collecting where
  aggregated : Bool
  round : ℕ
  todo : List String
  sessionsToDelete : List String
  reply : Assoc String ℚ
deriving DecidableEq

/-- A local controller with the thread of its feedback loop, the threads that register stages, those that
stop it and the one that serves the core, which waits for each reply before its next call. `announced`
are the keys of the stages that the core has registered. -/
structure Controller where
  process : LocalFeedbackLoop.LocalProcess
  point : LoopPoint
  turn : Turn ℤ
  workingApplication : Bool
  pendingDataSessions : List ℤ
  pendingDataPlaneSessions : ℤ
  activeDataPlaneSessions : ℤ
  entering : ℕ
  stopping : ℕ
  call : Option Collecting
  announced : List String
  replies : List (Assoc String ℚ)
  enqueued : List ℤ
  handled : List ℤ
  removed : ℕ
deriving DecidableEq

inductive Action
  | enqueueStage (socket : ℤ)
  | countStage
  | stop
  | removeSession
  | loop
  | stage (action : LocalFeedbackLoop.Action)
  | register
  | refuse
  | markStageReady (key : String)
  | collect (aggregated : Bool) (order : Traversal String)
  | sample (rate : ℚ)
  | erase
  | nextRound (order : Traversal String)

namespace Collecting

def start (aggregated : Bool) (sessions : List String) : Collecting := ⟨aggregated, 0, sessions, [], ∅⟩

def rounds (c : Collecting) : ℕ := if c.aggregated then collectRounds else 1

def answer (c : Collecting) (rate : String → ℚ) (reply : Assoc String ℚ) (key : String) : Assoc String ℚ :=
  if !c.aggregated then reply.insert key (rate key)
  else if rate key = -1 then reply
  else addSample rate c.round reply key

def sample (c : Collecting) (key : String) (rest : List String) (rate : ℚ) : Collecting :=
  { c with
    todo := rest
    sessionsToDelete := if rate = -1 then c.sessionsToDelete ++ [key] else c.sessionsToDelete
    reply := c.answer (fun _ => rate) c.reply key }

def erase (c : Collecting) (rest : List String) : Collecting := { c with sessionsToDelete := rest }

end Collecting

def deleteSession (key : String) (app : LocalControlApplication) : LocalControlApplication :=
  { app with dataSessions := app.dataSessions.erase key }

namespace Controller

def sessions (s : Controller) : CountedQueue ℤ where
  queue := s.pendingDataSessions
  counter := s.pendingDataPlaneSessions
  entering := s.entering
  turn := s.turn
  enqueued := s.enqueued
  handled := s.handled
  discarded := s.removed

def withSessions (s : Controller) (sessions : CountedQueue ℤ) : Controller :=
  { s with
    pendingDataSessions := sessions.queue
    pendingDataPlaneSessions := sessions.counter
    turn := sessions.turn
    handled := sessions.handled }

def withApp (s : Controller) (app : LocalControlApplication) : Controller :=
  { s with process := { s.process with app := app } }

def handlePending (s : Controller) : Option Controller :=
  s.sessions.handle s.withSessions { s with point := .condition } fun socket =>
    { s with point := .handling, turn := .outside, handled := s.handled ++ [socket] }

def loop (s : Controller) : Option Controller :=
  match s.point with
  | .waiting =>
    if s.workingApplication ∧ s.pendingDataPlaneSessions = 0 then none else some { s with point := .condition }
  | .condition =>
    if s.workingApplication ∧ (s.pendingDataPlaneSessions > 0 ∨ s.activeDataPlaneSessions > 0) then
      some { s with point := .pending }
    else some { s with point := .exited }
  | .pending => s.handlePending
  | .registered =>
    (s.process.step .connect).map fun process =>
      { s with
        process := process
        activeDataPlaneSessions := s.activeDataPlaneSessions + 1
        point := .pending }
  | .handling | .exited => none

def stage (s : Controller) (action : LocalFeedbackLoop.Action) : Option Controller :=
  if s.point = .handling ∧ action ≠ .connect then
    (s.process.step action).map fun process =>
      { s with process := process, point := if process.point = .idle then .pending else .handling }
  else none

def register (s : Controller) : Option Controller :=
  match s.point, s.process.point with
  | .handling, .connecting info _ _ =>
    some { s with point := .registered, announced := info.key :: s.announced }
  | _, _ => none

def refuse (s : Controller) : Option Controller :=
  match s.point, s.process.point with
  | .handling, .connecting _ _ _ =>
    (s.process.step .connect).map fun process => { s with process := process, point := .pending }
  | _, _ => none

def sample (s : Controller) (rate : ℚ) : Option Controller :=
  match s.call with
  | none => none
  | some c =>
    match c.todo with
    | [] => none
    | key :: rest =>
      some { s with
        activeDataPlaneSessions := if rate = -1 then s.activeDataPlaneSessions - 1
          else s.activeDataPlaneSessions
        call := some (c.sample key rest rate) }

/-- Only `CollectGlobalStatistics` calls `RemoveSession` first; the erase of the aggregated call does not
return. -/
def eraseSession (s : Controller) : Option Controller :=
  match s.call with
  | none => none
  | some c =>
    match c.todo, c.sessionsToDelete with
    | [], key :: rest =>
      if c.aggregated then none
      else some { s.withApp (deleteSession key s.process.app) with call := some (c.erase rest) }
    | _, _ => none

def sessionOrder (s : Controller) (order : Traversal String) : List String :=
  order.order s.process.app.dataSessions.keys

def nextRound (s : Controller) (order : Traversal String) : Option Controller :=
  match s.call with
  | none => none
  | some c =>
    match c.todo, c.sessionsToDelete with
    | [], [] =>
      if c.round + 1 < c.rounds then
        some { s with call := some { c with round := c.round + 1, todo := s.sessionOrder order } }
      else some { s with call := none, replies := s.replies ++ [c.reply] }
    | _, _ => none

def step (s : Controller) : Action → Option Controller
  | .enqueueStage socket =>
    some { s with
      pendingDataSessions := s.pendingDataSessions ++ [socket]
      entering := s.entering + 1
      enqueued := s.enqueued ++ [socket] }
  | .countStage =>
    if 0 < s.entering then
      some { s with pendingDataPlaneSessions := s.pendingDataPlaneSessions + 1, entering := s.entering - 1 }
    else none
  | .stop => some { s with workingApplication := false, stopping := s.stopping + 1 }
  | .removeSession =>
    if 0 < s.stopping then
      match s.pendingDataSessions with
      | [] => some { s with stopping := s.stopping - 1 }
      | _ :: rest => some { s with pendingDataSessions := rest, removed := s.removed + 1 }
    else none
  | .loop => s.loop
  | .stage action => s.stage action
  | .register => s.register
  | .refuse => s.refuse
  -- The core marks the stages that it has registered.
  | .markStageReady key =>
    if key ∈ s.announced then some (s.withApp (s.process.app.markStageReady key).1) else none
  | .collect aggregated order =>
    match s.call with
    | none => some { s with call := some (.start aggregated (s.sessionOrder order)) }
    | some _ => none
  | .sample rate => s.sample rate
  | .erase => s.eraseSession
  | .nextRound order => s.nextRound order

def start (rules : List String) : Controller where
  process := .start rules
  point := .waiting
  turn := .outside
  workingApplication := true
  pendingDataSessions := []
  pendingDataPlaneSessions := 0
  activeDataPlaneSessions := 0
  entering := 0
  stopping := 0
  call := none
  announced := []
  replies := []
  enqueued := []
  handled := []
  removed := 0

end Controller

def machine (rules : List String) : Machine Controller Action where
  start s := s = .start rules
  step := Controller.step

section Pending

open Controller

variable {s t : Controller} {rules : List String}

theorem sessions_withSessions {next : CountedQueue ℤ} (h : s.sessions.consume = some next) :
    (s.withSessions next).sessions = next :=
  (CountedQueue.consume_eq h).symm

theorem loop_follows {discards : Prop} (h : s.loop = some t) : s.sessions.Follows discards t.sessions := by
  unfold loop at h
  split at h
  case h_1 =>
    split at h <;> cases h
    exact .inl rfl
  case h_2 =>
    split at h <;> cases h <;> exact .inl rfl
  case h_3 =>
    rcases CountedQueue.handle_cases h with ⟨next, hnext, _, rfl⟩ | ⟨_, _, rfl⟩ | ⟨socket, hturn, rfl⟩
    · apply CountedQueue.Follows.consume
      rw [sessions_withSessions hnext]
      exact hnext
    · exact .inl rfl
    · apply CountedQueue.Follows.consume
      have hturn : s.turn = .discounted socket := hturn
      simp only [CountedQueue.consume, sessions, hturn]
  case h_4 =>
    obtain ⟨process, _, rfl⟩ := Option.map_eq_some_iff.mp h
    exact .inl rfl
  case h_5 => cases h
  case h_6 => cases h

theorem step_follows {action : Action} (h : s.step action = some t) :
    s.sessions.Follows (action = .removeSession ∧ s.pendingDataSessions ≠ []) t.sessions := by
  cases action with
  | enqueueStage socket =>
    cases h
    exact .push rfl
  | countStage =>
    simp only [Controller.step, Option.ite_none_right_eq_some] at h
    obtain ⟨hpos, h⟩ := h
    cases h
    exact .raise (if_pos hpos)
  | stop =>
    cases h
    exact .inl rfl
  | removeSession =>
    simp only [Controller.step, Option.ite_none_right_eq_some] at h
    obtain ⟨_, h⟩ := h
    split at h <;> cases h
    case h_1 => exact .inl rfl
    case h_2 socket rest hqueue =>
      refine .discard ⟨rfl, by simp [hqueue]⟩ ?_
      simp only [CountedQueue.step, sessions, hqueue]
  | loop => exact loop_follows h
  | stage action =>
    simp only [Controller.step, Controller.stage, Option.ite_none_right_eq_some, Option.map_eq_some_iff] at h
    obtain ⟨_, process, _, rfl⟩ := h
    exact .inl rfl
  | register =>
    simp only [Controller.step, Controller.register] at h
    split at h <;> cases h
    exact .inl rfl
  | refuse =>
    simp only [Controller.step, Controller.refuse] at h
    split at h
    · obtain ⟨process, _, rfl⟩ := Option.map_eq_some_iff.mp h
      exact .inl rfl
    · cases h
  | markStageReady key =>
    simp only [Controller.step, Option.ite_none_right_eq_some] at h
    obtain ⟨_, h⟩ := h
    cases h
    exact .inl rfl
  | collect aggregated order =>
    simp only [Controller.step] at h
    split at h <;> cases h
    exact .inl rfl
  | sample rate =>
    simp only [Controller.step, Controller.sample] at h
    split at h
    · cases h
    · split at h <;> cases h
      exact .inl rfl
  | erase =>
    simp only [Controller.step, Controller.eraseSession] at h
    split at h
    · cases h
    · split at h
      · split at h <;> cases h
        exact .inl rfl
      · cases h
  | nextRound order =>
    simp only [Controller.step, Controller.nextRound] at h
    split at h
    · cases h
    · split at h
      · split at h <;> cases h <;> exact .inl rfl
      · cases h

theorem counted_reach (h : (machine rules).Reach (fun _ _ => True) s) : s.sessions.Counted := by
  refine h.invariant (I := fun s => s.sessions.Counted) ?_ ?_
  · rintro s rfl
    rfl
  · intro s t action hs _ hstep
    exact (step_follows hstep).counted hs

theorem stays_pending (h : (machine rules).Reach (fun _ _ => True) s) (hremoved : s.entering < s.removed)
    (hpoint : s.point = .pending) (hstep : s.step .loop = some t) : t.point ≠ .condition := by
  have hcounted : s.pendingDataPlaneSessions + s.entering =
      s.pendingDataSessions.length + s.turn.owed + s.removed :=
    counted_reach h
  simp only [Controller.step, loop, hpoint] at hstep
  rcases CountedQueue.handle_cases hstep with ⟨next, _, _, rfl⟩ | ⟨_, hcounter, rfl⟩ | ⟨socket, _, rfl⟩
  · change s.point ≠ .condition
    rw [hpoint]
    decide
  · refine absurd ?_ hcounter
    change s.pendingDataPlaneSessions > 0
    omega
  · change LoopPoint.handling ≠ .condition
    decide

def RemovesNone (s : Controller) : Action → Prop
  | .removeSession => s.pendingDataSessions = []
  | _ => True

instance : ∀ s action, Decidable (RemovesNone s action)
  | s, .removeSession => inferInstanceAs (Decidable (s.pendingDataSessions = []))
  | _, .enqueueStage _ | _, .countStage | _, .stop | _, .loop | _, .stage _ | _, .register | _, .refuse
  | _, .markStageReady _ | _, .collect _ _ | _, .sample _ | _, .erase | _, .nextRound _ =>
    inferInstanceAs (Decidable True)

theorem balanced_reach (h : (machine rules).Reach RemovesNone s) : s.sessions.Balanced := by
  refine h.invariant (I := fun s => s.sessions.Balanced) ?_ ?_
  · rintro s rfl
    exact ⟨rfl, rfl, trivial, rfl⟩
  · intro s t action hs hnone hstep
    refine (step_follows hstep).balanced ?_ hs
    rintro ⟨rfl, hqueue⟩
    exact hqueue hnone

theorem pending_sessions_found (h : (machine rules).Reach RemovesNone s) :
    s.sessions.Orderly ∧ ∀ t, s.step .loop = some t → s.turn ≠ .outside → t.turn = .outside →
      ∃ socket, t.handled = s.handled ++ [socket] := by
  have hs := balanced_reach h
  refine ⟨hs.orderly, ?_⟩
  intro t hstep hturn hends
  exact hs.handled_of_ends (step_follows hstep) hturn hends

theorem pending_sessions_found_two :
    ∃ s, (machine []).Reach RemovesNone s ∧ s.point = .pending ∧ s.turn = .outside ∧
      0 < s.pendingDataPlaneSessions ∧ s.handled = [7] ∧ s.workingApplication = false ∧
      s.pendingDataSessions ≠ [] := by
  have hstart : (machine []).Reach RemovesNone (.start []) := .start rfl
  obtain ⟨s, hs, hpoint, hturn, hcounter, hhandled, hworking⟩ := hstart.of_exec
    [.enqueueStage 7, .countStage, .loop, .loop, .loop, .loop, .enqueueStage 8, .loop, .loop, .countStage,
      .loop, .stage (.handshake ⟨"", 1, "u", "A"⟩), .stop]
    (P := fun s => s.point = .pending ∧ s.turn = .outside ∧ 0 < s.pendingDataPlaneSessions ∧ s.handled = [7] ∧
      s.workingApplication = false) (by decide +kernel)
  exact ⟨s, hs, hpoint, hturn, hcounter, hhandled, hworking, (pending_sessions_found hs).1.found hturn hcounter⟩

theorem pending_sessions_removed :
    ∃ s, (machine []).Reach (fun _ _ => True) s ∧ s.point = .pending ∧ s.turn = .outside ∧
      0 < s.pendingDataPlaneSessions ∧ s.pendingDataSessions = [] ∧
      ((s.step .loop).bind fun t => t.step .loop) = some s := by
  have hstart : (machine []).Reach (fun _ _ => True) (.start []) := .start rfl
  exact hstart.of_exec [.enqueueStage 7, .countStage, .loop, .loop, .stop, .removeSession] (by decide +kernel)

end Pending

end Cheferd.LocalThreads
