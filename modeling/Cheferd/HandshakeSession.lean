import Cheferd.LocalControllerSession
import Cheferd.Library.Runs

namespace Cheferd.HandshakeSession

open Library Strings LocalControllerSession

structure Identity where
  stageName : String
  stageEnv : String
  pid : ℤ
  ppid : ℤ

structure Outcomes where
  operationWritten : Bool
  handshakeRead : Bool
  identity : Identity
  addressWritten : Bool

inductive Response
  | handshake (identity : Identity)
  | ack (responseType value : ℤ)

def stageHandshake (io : Outcomes) : Bool := io.operationWritten && io.handshakeRead

def stageHandshakeAddress (io : Outcomes) (rule : String) : Except Fault (Bool × ℤ) := do
  let tokens := parseRule '|' rule
  let _ ← token tokens 1
  let _ ← stoi (← token tokens 2)
  return if io.addressWritten then (true, 1) else (false, 0)

def sendRule (io : Outcomes) (rule : String) : Except Fault (Bool × Option Response) :=
  match operationType rule with
  | none => .error .invalidArgument
  | some 0 => .ok (stageHandshake io, some (.handshake io.identity))
  | some 12 => do
    let (status, message) ← stageHandshakeAddress io rule
    return (status, some (.ack 12 message))
  | some _ => .ok (false, none)

def socketInfo (identity : Identity) : String :=
  "/tmp/" ++ (if identity.stageName = "" then "" else identity.stageName ++ "_") ++
    (if identity.stageEnv = "" then "" else identity.stageEnv ++ "_") ++
    (if identity.pid > 0 then toString identity.pid ++ "_" else "") ++
    (if identity.ppid > 0 then toString identity.ppid else "") ++ ".socket"

def stageHandshakeRule : String := toString (0 : ℤ) ++ "|"

def stageHandshakeInfoRule (identity : Identity) : String :=
  toString (12 : ℤ) ++ "|" ++ socketInfo identity ++ "|" ++ toString (-1 : ℤ) ++ "|"

inductive SessionPoint
  | created
  | dequeue (second : Bool)
  | send (second : Bool) (rule : String)
  | test (status : Bool)
  | returned

inductive CallerPoint
  | request
  | awaitHandshake
  | requestAddress (identity : Identity)
  | awaitAddress
  | remove
  | done

structure Handshake where
  submissionQueue : List String
  completionQueue : List Response
  working : Bool
  session : SessionPoint
  caller : CallerPoint

inductive Thread | session | caller
deriving DecidableEq

namespace Handshake

def start : Handshake := ⟨[], [], false, .created, .request⟩

def next (second status : Bool) : SessionPoint := if second then .returned else .test status

def sessionStep (io : Outcomes) (s : Handshake) : Option Handshake :=
  match s.session with
  | .created => some { s with working := true, session := .dequeue false }
  | .dequeue second =>
    if s.working then
      match s.submissionQueue with
      | [] => none
      | rule :: rest => some { s with submissionQueue := rest, session := .send second rule }
    else some { s with session := next second false }
  | .send second rule =>
    match sendRule io rule with
    | .error _ => none
    | .ok (status, response) =>
      some { s with
        completionQueue := s.completionQueue ++ response.toList
        session := next second status }
  | .test status => some { s with session := if s.working ∧ status then .dequeue true else .returned }
  | .returned => none

/-- The cast of a response of another kind than awaited gives a null pointer. -/
def callerStep (s : Handshake) : Option Handshake :=
  match s.caller with
  | .request =>
    some { s with submissionQueue := s.submissionQueue ++ [stageHandshakeRule], caller := .awaitHandshake }
  | .awaitHandshake =>
    match s.completionQueue with
    | .handshake identity :: rest => some { s with completionQueue := rest, caller := .requestAddress identity }
    | _ => none
  | .requestAddress identity =>
    some { s with
      submissionQueue := s.submissionQueue ++ [stageHandshakeInfoRule identity]
      caller := .awaitAddress }
  | .awaitAddress =>
    match s.completionQueue with
    | [] => none
    | _ :: rest => some { s with completionQueue := rest, caller := .remove }
  | .remove => some { s with working := false, submissionQueue := s.submissionQueue ++ [""], caller := .done }
  | .done => none

def step (io : Outcomes) (s : Handshake) : Thread → Option Handshake
  | .session => s.sessionStep io
  | .caller => s.callerStep

def Stuck (s : Handshake) : Prop :=
  (s.caller matches .awaitHandshake ∨ s.caller matches .awaitAddress) ∧ s.completionQueue = [] ∧
    s.session matches .returned

end Handshake

def machine (io : Outcomes) : Machine Handshake Thread where
  start s := s = .start
  step := Handshake.step io

variable {io : Outcomes} {s t : Handshake}

theorem operationType_stageHandshakeRule : operationType stageHandshakeRule = some 0 := by
  have h := operationType_append 0 "" (by decide)
  rwa [String.append_empty] at h

theorem operationType_stageHandshakeInfoRule (identity : Identity) :
    operationType (stageHandshakeInfoRule identity) = some 12 := by
  have h := operationType_append 12 (socketInfo identity ++ "|" ++ toString (-1 : ℤ) ++ "|") (by decide)
  rwa [← String.append_assoc, ← String.append_assoc, ← String.append_assoc] at h

theorem sendRule_stageHandshakeRule :
    sendRule io stageHandshakeRule = .ok (stageHandshake io, some (.handshake io.identity)) := by
  unfold sendRule
  simp only [operationType_stageHandshakeRule]

theorem sendRule_stageHandshakeInfoRule {identity : Identity} {status : Bool} {response : Option Response}
    (h : sendRule io (stageHandshakeInfoRule identity) = .ok (status, response)) : response.toList ≠ [] := by
  unfold sendRule at h
  simp only [operationType_stageHandshakeInfoRule] at h
  obtain ⟨_, _, h⟩ := Fault.bind_eq_ok.mp h
  cases h
  simp

namespace Handshake

inductive Paced : Handshake → Prop
  | created (working : Bool) (submission : List String) (caller : CallerPoint)
      (h : submission = [] ∧ caller = .request ∨ submission = [stageHandshakeRule] ∧ caller = .awaitHandshake) :
      Paced ⟨submission, [], working, .created, caller⟩
  | first (submission : List String) (caller : CallerPoint)
      (h : submission = [] ∧ caller = .request ∨ submission = [stageHandshakeRule] ∧ caller = .awaitHandshake) :
      Paced ⟨submission, [], true, .dequeue false, caller⟩
  | sending : Paced ⟨[], [], true, .send false stageHandshakeRule, .awaitHandshake⟩
  | between (session : SessionPoint) (hsession : session = .test true ∨ session = .dequeue true)
      (submission : List String) (completion : List Response) (caller : CallerPoint)
      (h : (∃ identity, submission = [] ∧ completion = [.handshake identity] ∧ caller = .awaitHandshake) ∨
        (∃ identity, submission = [] ∧ completion = [] ∧ caller = .requestAddress identity) ∨
        ∃ identity, submission = [stageHandshakeInfoRule identity] ∧ completion = [] ∧ caller = .awaitAddress) :
      Paced ⟨submission, completion, true, session, caller⟩
  | answering (identity : Identity) :
      Paced ⟨[], [], true, .send true (stageHandshakeInfoRule identity), .awaitAddress⟩
  | finished (submission : List String) (completion : List Response) (working : Bool) (caller : CallerPoint)
      (h : completion ≠ [] ∧ caller = .awaitAddress ∨ caller = .remove ∨ caller = .done) :
      Paced ⟨submission, completion, working, .returned, caller⟩

theorem Paced.sessionStep (hstage : stageHandshake io = true) (hs : s.Paced) (h : s.sessionStep io = some t) :
    t.Paced := by
  unfold Handshake.sessionStep at h
  cases hs with
  | created working submission caller hq =>
    cases h
    exact .first submission caller hq
  | first submission caller hq =>
    rcases hq with ⟨rfl, rfl⟩ | ⟨rfl, rfl⟩
    · cases h
    · cases h
      exact .sending
  | sending =>
    dsimp only at h
    rw [sendRule_stageHandshakeRule, hstage] at h
    cases h
    exact .between _ (.inl rfl) [] _ _ (.inl ⟨io.identity, rfl, rfl, rfl⟩)
  | between session hsession submission completion caller hq =>
    rcases hsession with rfl | rfl
    · cases h
      exact .between _ (.inr rfl) submission completion caller hq
    · rcases hq with ⟨identity, rfl, rfl, rfl⟩ | ⟨identity, rfl, rfl, rfl⟩ | ⟨identity, rfl, rfl, rfl⟩
      · cases h
      · cases h
      · cases h
        exact .answering identity
  | answering identity =>
    dsimp only at h
    split at h
    · cases h
    case h_2 status response hsend =>
      cases h
      exact .finished _ _ _ _ (.inl ⟨sendRule_stageHandshakeInfoRule hsend, rfl⟩)
  | finished submission completion working caller hq => cases h

theorem Paced.callerStep (hs : s.Paced) (h : s.callerStep = some t) : t.Paced := by
  unfold Handshake.callerStep at h
  cases hs with
  | created working submission caller hq =>
    rcases hq with ⟨rfl, rfl⟩ | ⟨rfl, rfl⟩ <;> cases h
    exact .created working _ _ (.inr ⟨rfl, rfl⟩)
  | first submission caller hq =>
    rcases hq with ⟨rfl, rfl⟩ | ⟨rfl, rfl⟩ <;> cases h
    exact .first _ _ (.inr ⟨rfl, rfl⟩)
  | sending => cases h
  | between session hsession submission completion caller hq =>
    rcases hq with ⟨identity, rfl, rfl, rfl⟩ | ⟨identity, rfl, rfl, rfl⟩ | ⟨identity, rfl, rfl, rfl⟩ <;> cases h
    · exact .between _ hsession _ _ _ (.inr (.inl ⟨identity, rfl, rfl, rfl⟩))
    · exact .between _ hsession _ _ _ (.inr (.inr ⟨identity, rfl, rfl, rfl⟩))
  | answering identity => cases h
  | finished submission completion working caller hq =>
    rcases hq with ⟨hcompletion, rfl⟩ | rfl | rfl
    · dsimp only at h
      split at h <;> cases h
      exact .finished _ _ _ _ (.inr (.inl rfl))
    · cases h
      exact .finished _ _ _ _ (.inr (.inr rfl))
    · cases h

theorem Paced.not_stuck (hs : s.Paced) : ¬ s.Stuck := by
  rintro ⟨hcaller, hcompletion, hsession⟩
  cases hs with
  | finished submission completion working caller hq =>
    rcases hq with ⟨hne, -⟩ | rfl | rfl
    · exact hne hcompletion
    · simp at hcaller
    · simp at hcaller
  | between session h => rcases h with rfl | rfl <;> simp at hsession
  | _ => simp at hsession

theorem Paced.reach (hstage : stageHandshake io = true) (h : (machine io).Reach (fun _ _ => True) s) :
    s.Paced :=
  h.invariant (fun s hs => by
      cases hs
      exact .created false [] .request (.inl ⟨rfl, rfl⟩))
    fun s t thread hs _ hstep => by
      cases thread with
      | session => exact hs.sessionStep hstage hstep
      | caller => exact hs.callerStep hstep

end Handshake

theorem stuck_of_stageHandshake (hstage : stageHandshake io = false) :
    ∃ s, (machine io).Reach (fun _ _ => True) s ∧ s.Stuck := by
  let stuck : Handshake := ⟨[stageHandshakeInfoRule io.identity], [], true, .returned, .awaitAddress⟩
  have hrun : (machine io).exec (fun _ _ => True) .start
      [.caller, .session, .session, .session, .session, .caller, .caller] = some stuck := by
    simp [Machine.exec, machine, Handshake.step, Handshake.start, Handshake.sessionStep,
      Handshake.callerStep, Handshake.next, sendRule_stageHandshakeRule, hstage, stuck]
  exact ⟨stuck, (Machine.Reach.start rfl).exec hrun, .inr rfl, rfl, rfl⟩

theorem never_stuck_iff :
    (∀ s, (machine io).Reach (fun _ _ => True) s → ¬ s.Stuck) ↔
      io.operationWritten = true ∧ io.handshakeRead = true := by
  rw [← Bool.and_eq_true, ← stageHandshake]
  constructor
  · intro h
    by_contra hstage
    obtain ⟨s, hreach, hstuck⟩ := stuck_of_stageHandshake (Bool.eq_false_iff.mpr hstage)
    exact h s hreach hstuck
  · intro hstage s hreach
    exact (Handshake.Paced.reach hstage hreach).not_stuck

theorem stuck_handshake_unread :
    ∃ s, (machine ⟨true, false, ⟨"", "", 0, 0⟩, true⟩).Reach (fun _ _ => True) s ∧ s.Stuck :=
  stuck_of_stageHandshake rfl

end Cheferd.HandshakeSession
