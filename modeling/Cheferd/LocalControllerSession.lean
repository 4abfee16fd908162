import Cheferd.Library.AssocMap
import Cheferd.Strings
import Mathlib.Data.Rat.Defs

namespace Cheferd

open Library Strings

inductive StageResponse
  | ack (responseType : ℤ) (value : ℤ)
  | handshake (responseType : ℤ)
  | stats (responseType : ℤ) (rates : Assoc String ℚ)
deriving DecidableEq

def StageResponse.named : StageResponse → List String
  | .ack _ _ | .handshake _ => []
  | .stats _ rates => rates.keys

structure Reply where
  message : ℤ
  rates : Assoc String ℚ

def Reply.failed : Reply := ⟨0, ∅⟩

/-- Each response in the completion queue stands next to the request it answers. -/
structure LocalControllerSession where
  submissionQueue : List String
  completionQueue : List (String × StageResponse)
deriving DecidableEq

namespace LocalControllerSession

def new : LocalControllerSession := ⟨[], []⟩

def operationType (rule : String) : Option ℤ :=
  Decimal.signed 32 (String.ofList (rule.toList.takeWhile (· ≠ '|')))

def sendRule (rule : String) (reply : Reply) : Option StageResponse :=
  match operationType rule with
  | some 11 => some (.ack 11 reply.message)
  | some 0 => some (.handshake 0)
  | some 1 => some (.ack 1 reply.message)
  | some 6 => some (.ack 6 reply.message)
  | some 3 =>
    match (parseRule '|' rule)[1]?.bind (Decimal.signed 32) with
    | some 5 => some (.stats 5 reply.rates)
    | some 6 => some (.stats 6 reply.rates)
    | _ => none
  | _ => none

def submitRule (rule : String) (s : LocalControllerSession) : LocalControllerSession :=
  { s with submissionQueue := s.submissionQueue ++ [rule] }

def serve (reply : Reply) (s : LocalControllerSession) : Option LocalControllerSession :=
  match s.submissionQueue with
  | [] => none
  | rule :: rest =>
    let responses := (sendRule rule reply).toList.map fun response => (rule, response)
    some { submissionQueue := rest, completionQueue := s.completionQueue ++ responses }

def getResult (s : LocalControllerSession) : Option ((String × StageResponse) × LocalControllerSession) :=
  match s.completionQueue with
  | [] => none
  | response :: rest => some (response, { s with completionQueue := rest })

def outstanding (s : LocalControllerSession) : List String :=
  s.completionQueue.map Prod.fst ++ s.submissionQueue

@[simp] theorem outstanding_new : new.outstanding = [] := rfl

@[simp] theorem outstanding_submitRule (rule : String) (s : LocalControllerSession) :
    (s.submitRule rule).outstanding = s.outstanding ++ [rule] := by
  simp [outstanding, submitRule]

theorem getResult_eq_some {s t : LocalControllerSession} {response : String × StageResponse}
    (h : s.getResult = some (response, t)) :
    s.completionQueue = response :: t.completionQueue ∧ t.submissionQueue = s.submissionQueue := by
  unfold getResult at h
  split at h
  · cases h
  case h_2 rest hq => cases h; exact ⟨hq, rfl⟩

theorem outstanding_getResult {s t : LocalControllerSession} {response : String × StageResponse}
    (h : s.getResult = some (response, t)) : s.outstanding = response.1 :: t.outstanding := by
  obtain ⟨hc, hs⟩ := getResult_eq_some h
  simp [outstanding, hc, hs]

def Answers (rule : String) (response : StageResponse) : Prop := ∃ reply, sendRule rule reply = some response

def Supported (rule : String) : Prop := ∀ reply, (sendRule rule reply).isSome

theorem serve_spec {s t : LocalControllerSession} {reply : Reply} (h : s.serve reply = some t)
    (hsupported : ∀ rule ∈ s.outstanding, Supported rule)
    (hanswers : ∀ e ∈ s.completionQueue, Answers e.1 e.2) :
    t.outstanding = s.outstanding ∧ ∀ e ∈ t.completionQueue, Answers e.1 e.2 := by
  unfold serve at h
  split at h
  · cases h
  case h_2 rule rest hq =>
    obtain ⟨response, hr⟩ := Option.isSome_iff_exists.mp
      (hsupported rule (by simp [outstanding, hq]) reply)
    simp only [hr, Option.toList_some, List.map_cons, List.map_nil] at h
    cases h
    refine ⟨by simp [outstanding, hq], fun e he => ?_⟩
    rcases List.mem_append.mp he with he | he
    · exact hanswers e he
    · rw [List.mem_singleton.mp he]
      exact ⟨reply, hr⟩

theorem operationType_append (v : ℤ) (rest : String) (h : Decimal.InRange 32 v) :
    operationType (toString v ++ "|" ++ rest) = some v := by
  have hbar : ∀ c ∈ (toString v).toList, c ≠ '|' := by
    rintro c hc rfl
    exact Decimal.notMem_toString v '|' (by decide) (by decide) hc
  have htake : (toString v ++ "|" ++ rest).toList.takeWhile (· ≠ '|') = (toString v).toList := by
    rw [String.toList_append, String.toList_append, List.append_assoc,
      List.takeWhile_append_of_pos fun c hc => by simpa using hbar c hc]
    simp
  rw [operationType, htake, String.ofList_toList]
  exact Decimal.signed_toString 32 v h

end LocalControllerSession

end Cheferd
