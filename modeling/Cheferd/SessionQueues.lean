import Cheferd.DataPlaneSession
import Cheferd.Enforcement
import Cheferd.Library.Server
import Cheferd.LocalInterface

namespace Cheferd

open Library Strings

namespace LocalControllerSession

/-- The operation types, with the subtypes, of the rules that the core controller builds. -/
def Kind (rule : String) : Prop :=
  operationType rule = some 11 ∨ operationType rule = some 1 ∨ operationType rule = some 6 ∨
    operationType rule = some 3 ∧ ((parseRule '|' rule)[1]?.bind (Decimal.signed 32) = some 5 ∨
      (parseRule '|' rule)[1]?.bind (Decimal.signed 32) = some 6)

instance : DecidablePred Kind := fun _ => inferInstanceAs (Decidable (_ ∨ _))

def send (rule : String) (reply : Reply) : Option (List StageResponse) :=
  match LocalInterface.request rule with
  | .error _ => none
  | .ok _ => some (sendRule rule reply).toList

def queues : Machine (Server String StageResponse) (Server.Action String Reply) := Server.machine send

theorem kind_built (core : CoreControlApplication) (info : StageInfo) (rule : EnforcementRule)
    (address : String) :
    Kind core.localHandshakeRule ∧ Kind (CoreControlApplication.stageReadyRule info) ∧
      Kind (rule.request address) ∧
      Kind (CoreControlApplication.collectStatisticsRule 5) ∧
      Kind (CoreControlApplication.collectStatisticsRule 6) :=
  ⟨.inl (CoreControlApplication.operationType_handshake core),
    .inr (.inl (CoreControlApplication.operationType_stageReady info)),
    .inr (.inr (.inl (CoreControlApplication.operationType_enforcementRule _ _ _ _))), by decide, by decide⟩

theorem Kind.supported {rule : String} (h : Kind rule) : Supported rule := by
  intro reply
  rcases h with h | h | h | ⟨h, hsub | hsub⟩ <;> simp only [sendRule, *] <;> rfl

theorem send_one {rule : String} (h : Kind rule) (reply : Reply) (responses : List StageResponse)
    (hsend : send rule reply = some responses) : ∃ response, responses = [response] := by
  obtain ⟨response, hresponse⟩ := Option.isSome_iff_exists.mp (h.supported reply)
  unfold send at hsend
  split at hsend <;> cases hsend
  exact ⟨response, by rw [hresponse]; rfl⟩

theorem serve_queues {session session' : LocalControllerSession} {reply : Reply} {rule : String}
    {rest : List String}
    (hqueue : session.submissionQueue = rule :: rest) (hserve : session.serve reply = some session')
    {request : Option LocalInterface.Request} (hrequest : LocalInterface.request rule = .ok request)
    (s : Server String StageResponse) (hthread : s.thread = .idle)
    (hsubmission : s.submission = session.submissionQueue)
    (hcompletion : s.completion = session.completionQueue) :
    ((s.step send .dequeue).bind fun t => t.step send (.respond reply)) =
      some { s with submission := session'.submissionQueue, completion := session'.completionQueue } := by
  simp only [serve, hqueue, Option.some.injEq] at hserve
  subst hserve
  rw [hqueue] at hsubmission
  simp only [Server.step, hthread, hsubmission, Option.bind_some, send, hrequest, Option.map_some, hcompletion]

end LocalControllerSession

namespace DataPlaneSession

open LocalControllerSession

/-- The operation types, with the subtype, of the rules that a local controller builds or passes on. -/
def Kind (rule : String) : Prop :=
  operationType rule = some 1 ∨ operationType rule = some 4 ∨ operationType rule = some 6 ∨
    operationType rule = some 3 ∧ (parseRule '|' rule)[1]?.bind (Decimal.signed 32) = some 5

instance : DecidablePred Kind := fun _ => inferInstanceAs (Decidable (_ ∨ _))

def send (rule : String) (io : Exchange) : Option (List Response) :=
  match sendRule io rule with
  | .error _ => none
  | .ok response => some response.toList

def queues : Machine (Server String Response) (Server.Action String Exchange) := Server.machine send

theorem operationType_enforcementRule (ruleId : ℤ) (channelObject : Int32 × Int32) (limit : ℤ) :
    operationType (LocalControlApplication.enforcementRule ruleId channelObject limit) = some 6 := by
  have h := operationType_append 6 (toString ruleId ++ "|" ++ toString channelObject.1.toInt ++ "|" ++
    toString channelObject.2.toInt ++ "|" ++ "drl" ++ "|" ++ "rate" ++ "|" ++ toString limit) (by decide)
  simpa only [LocalControlApplication.enforcementRule, String.append_assoc] using h

theorem kind_built (ruleId : ℤ) (channelObject : Int32 × Int32) (limit : ℤ) :
    Kind stageReadyRule ∧ Kind collectStatisticsRule ∧
      Kind (LocalControlApplication.enforcementRule ruleId channelObject limit) :=
  ⟨by decide, by decide, .inr (.inr (.inl (operationType_enforcementRule ruleId channelObject limit)))⟩

theorem send_one {rule : String} (h : Kind rule) (io : Exchange) (responses : List Response)
    (hsend : send rule io = some responses) : ∃ response, responses = [response] := by
  suffices ∀ response, sendRule io rule = .ok response → ∃ r, response = some r by
    unfold send at hsend
    split at hsend <;> cases hsend
    case h_2 response hresponse =>
      obtain ⟨r, rfl⟩ := this response hresponse
      exact ⟨r, rfl⟩
  intro response hresponse
  have hne : rule ≠ "" := by
    rintro rfl
    exact absurd h (by decide)
  unfold sendRule at hresponse
  rw [if_neg hne] at hresponse
  rcases h with h | h | h | ⟨h, hsub⟩ <;> simp only [h] at hresponse
  · cases hresponse
    exact ⟨_, rfl⟩
  · obtain ⟨_, _, hresponse⟩ := Fault.bind_eq_ok.mp hresponse
    cases hresponse
    exact ⟨_, rfl⟩
  · obtain ⟨_, _, hresponse⟩ := Fault.bind_eq_ok.mp hresponse
    cases hresponse
    exact ⟨_, rfl⟩
  · obtain ⟨token₁, htoken, hresponse⟩ := Fault.bind_eq_ok.mp hresponse
    obtain ⟨subtype, hsubtype, hresponse⟩ := Fault.bind_eq_ok.mp hresponse
    rw [token_eq_ok.mp htoken, Option.bind_some] at hsub
    have hfive : subtype = 5 := by
      rw [stoi, number, hsub] at hsubtype
      exact (Except.ok.inj hsubtype).symm
    rw [if_pos hfive] at hresponse
    cases hresponse
    exact ⟨_, rfl⟩

end DataPlaneSession

theorem responses_in_order :
    (∀ s, LocalControllerSession.queues.Reach (Server.Submits LocalControllerSession.Kind) s →
      s.passed = s.submitted ∧ ∀ (k : ℕ) (e : String × StageResponse), s.popped[k]? = some e →
        s.submitted[k]? = some e.1 ∧ ∃ reply, LocalControllerSession.send e.1 reply = some [e.2]) ∧
    ∀ s, DataPlaneSession.queues.Reach (Server.Submits DataPlaneSession.Kind) s →
      s.passed = s.submitted ∧ ∀ (k : ℕ) (e : String × DataPlaneSession.Response), s.popped[k]? = some e →
        s.submitted[k]? = some e.1 ∧ ∃ io, DataPlaneSession.send e.1 io = some [e.2] := by
  refine ⟨fun s h => ?_, fun s h => ?_⟩
  · have hs := Server.inOrder_reach (fun _ => LocalControllerSession.send_one) h
    exact ⟨hs.passed, fun k e he => hs.popped he⟩
  · have hs := Server.inOrder_reach (fun _ => DataPlaneSession.send_one) h
    exact ⟨hs.passed, fun k e he => hs.popped he⟩

def twoRules {ω : Type} (first second : String) (outcome : ω) : List (Server.Action String ω) :=
  [.start true, .submit first, .dequeue, .submit second, .respond outcome, .dequeue, .pop,
    .respond outcome, .pop]

theorem responses_in_order_two_rules :
    (∃ s, LocalControllerSession.queues.Reach (Server.Submits LocalControllerSession.Kind) s ∧
      s.popped = [("1|j+1|", .ack 1 0), ("3|5|", .stats 5 ∅)] ∧ s.passed = s.submitted) ∧
    ∃ s, DataPlaneSession.queues.Reach (Server.Submits DataPlaneSession.Kind) s ∧
      s.popped.map Prod.fst = ["1|", "3|5|"] ∧ s.passed = s.submitted := by
  obtain ⟨s, hs, hpopped⟩ : ∃ s, LocalControllerSession.queues.Reach
    (Server.Submits LocalControllerSession.Kind) s ∧
      s.popped = [("1|j+1|", .ack 1 0), ("3|5|", .stats 5 ∅)] :=
    (Machine.Reach.start rfl).of_exec (twoRules "1|j+1|" "3|5|" .failed) (by decide)
  obtain ⟨t, ht, hpopped'⟩ : ∃ t, DataPlaneSession.queues.Reach (Server.Submits DataPlaneSession.Kind) t ∧
      t.popped.map Prod.fst = ["1|", "3|5|"] :=
    (Machine.Reach.start rfl).of_exec
      (twoRules "1|" "3|5|" ⟨false, false, none, none, ⟨"", "", 0, 0⟩, none⟩) (by decide)
  exact ⟨⟨s, hs, hpopped, (responses_in_order.1 s hs).1⟩, ⟨t, ht, hpopped', (responses_in_order.2 t ht).1⟩⟩

end Cheferd
