import Cheferd.Library.Worker
import Cheferd.SessionQueues

namespace Cheferd

open Library Worker

/-- The thread that runs `StartSession`, its points from `acquire` to `release` in
`DequeueRuleFromSubmissionQueue`, beside one that calls `SubmitRule` and then `RemoveSession`. -/
def LocalControllerSession.thread : Machine (Worker String StageResponse) (Worker.Action String Reply) :=
  Worker.machine LocalControllerSession.send ""

def DataPlaneSession.thread : Machine (Worker String DataPlaneSession.Response)
    (Worker.Action String Exchange) :=
  Worker.machine DataPlaneSession.send ""

inductive SessionThread : {σ ω : Type} → Machine (Worker String σ) (Worker.Action String ω) → Prop
  | localController : SessionThread LocalControllerSession.thread
  | dataPlane : SessionThread DataPlaneSession.thread

section

variable {σ ω : Type} {m : Machine (Worker String σ) (Worker.Action String ω)} {s t : Worker String σ}

theorem removed_session_stays_removed (hm : SessionThread m) (h : m.Reach Ordered s) : StaysRemoved m s := by
  cases hm with
  | localController => exact staysRemoved_ordered h
  | dataPlane => exact staysRemoved_ordered h

theorem stopped_session_dequeues_nothing (hm : SessionThread m) (h : m.Reach Accepted s)
    (hseen : s.stopSeen = true)
    (ht : (m.resume s).Reach Accepted t) : t.taken = s.taken := by
  cases hm with
  | localController => exact taken_of_stopSeen h hseen ht
  | dataPlane => exact taken_of_stopSeen h hseen ht

end

theorem removed_session_stays_removed_one_waiting :
    ∃ s t, LocalControllerSession.thread.Reach Ordered s ∧ s.caller = .removed ∧
      (LocalControllerSession.thread.resume s).Reach Accepted t ∧ t.point = .ended ∧ "3|5|" ∈ t.submission ∧
      t.begun <+: s.begun ++ s.point.held.toList := by
  let removed : Worker String StageResponse := { Worker.new true with
    point := .serving "1|j+1|"
    caller := .removed
    working := false
    submission := ["3|5|", ""]
    submitted := ["1|j+1|", "3|5|", ""]
    taken := ["1|j+1|"]
    begun := ["1|j+1|"] }
  let ended : Worker String StageResponse := { removed with
    point := .ended
    completion := [("1|j+1|", .ack 1 0)]
    stopSeen := true }
  have hstart : LocalControllerSession.thread.Reach Ordered (Worker.new true) := .start ⟨true, rfl⟩
  have hremoved : LocalControllerSession.thread.exec Ordered (Worker.new true)
      [.start true, .thread, .submit "1|j+1|", .caller, .caller, .caller, .thread, .thread, .thread, .thread,
        .thread, .thread, .thread, .thread, .submit "3|5|", .caller, .caller, .caller, .remove,
        .caller, .caller, .caller] = some removed := rfl
  have hended : (LocalControllerSession.thread.resume removed).exec Accepted removed
      [.respond .failed, .thread] = some ended := by decide
  have hs := hstart.exec hremoved
  have ht := (Machine.Reach.start rfl).exec hended
  refine ⟨removed, ended, hs, rfl, ht, rfl, by decide, ?_⟩
  exact (removed_session_stays_removed .localController hs).begun rfl ended ht

theorem removed_session_serves :
    (∃ s t, LocalControllerSession.thread.Reach Accepted s ∧ s.caller = .removed ∧ s.begun = [] ∧
      s.point.held = none ∧ (LocalControllerSession.thread.resume s).Reach Accepted t ∧ t.begun = ["1|j+1|"]) ∧
    (∃ s t, DataPlaneSession.thread.Reach Accepted s ∧ s.caller = .removed ∧ s.begun = [] ∧
      s.point.held = none ∧ (DataPlaneSession.thread.resume s).Reach Accepted t ∧ t.begun = ["1|"]) ∧
    ¬ (∀ s, LocalControllerSession.thread.Reach Accepted s → StaysRemoved LocalControllerSession.thread s) ∧
    ¬ ∀ s, DataPlaneSession.thread.Reach Accepted s → StaysRemoved DataPlaneSession.thread s := by
  have hlocal := served_after_removal LocalControllerSession.send "" "1|j+1|"
  have hstage := served_after_removal DataPlaneSession.send "" "1|"
  refine ⟨hlocal, hstage, fun h => ?_, fun h => ?_⟩
  · obtain ⟨s, t, hs, hremoved, hbegun, hheld, ht, hserved⟩ := hlocal
    have hlate := (h s hs).begun hremoved t ht
    simp [hbegun, hheld, hserved] at hlate
  · obtain ⟨s, t, hs, hremoved, hbegun, hheld, ht, hserved⟩ := hstage
    have hlate := (h s hs).begun hremoved t ht
    simp [hbegun, hheld, hserved] at hlate

theorem thread_in_order :
    (∀ s, LocalControllerSession.thread.Reach (Submits LocalControllerSession.Kind "") s →
      Server.InOrder LocalControllerSession.send s.server) ∧
    ∀ s, DataPlaneSession.thread.Reach (Submits DataPlaneSession.Kind "") s →
      Server.InOrder DataPlaneSession.send s.server := by
  refine ⟨fun s h => ?_, fun s h => ?_⟩
  · exact Server.inOrder_reach (fun _ => LocalControllerSession.send_one) (server_reach h)
  · exact Server.inOrder_reach (fun _ => DataPlaneSession.send_one) (server_reach h)

end Cheferd
