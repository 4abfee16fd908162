import Cheferd.Library.Session
import Cheferd.SessionQueues

namespace Cheferd

open Library

namespace LocalControllerSession

def answer (rule : String) (reply : Reply) : Option (Option StageResponse) :=
  match LocalInterface.request rule with
  | .error _ => none
  | .ok _ => some (sendRule rule reply)

theorem answers_answer : Session.answers answer = send := by
  funext rule reply
  unfold Session.answers answer send
  cases LocalInterface.request rule <;> rfl

def threads (ι : Type) [DecidableEq ι] [Fintype ι] :
    Machine (Session ι String StageResponse) (Session.Action ι String StageResponse Reply) :=
  Session.machine answer ""

theorem Kind.answer_ne {rule : String} (h : Kind rule) (reply : Reply) : answer rule reply ≠ some none := by
  obtain ⟨response, hresponse⟩ := Option.isSome_iff_exists.mp (h.supported reply)
  unfold answer
  split
  · simp
  · simp [hresponse]

end LocalControllerSession

namespace DataPlaneSession

def answer (rule : String) (io : Exchange) : Option (Option Response) :=
  match sendRule io rule with
  | .error _ => none
  | .ok response => some response

theorem answers_answer : Session.answers answer = send := by
  funext rule io
  unfold Session.answers answer send
  cases sendRule io rule <;> rfl

def threads (ι : Type) [DecidableEq ι] [Fintype ι] :
    Machine (Session ι String Response) (Session.Action ι String Response Exchange) := Session.machine answer ""

theorem Kind.answer_ne {rule : String} (h : Kind rule) (io : Exchange) : answer rule io ≠ some none := by
  intro hanswer
  have hsend : send rule io = some [] := by
    rw [← answers_answer, Session.answers, hanswer]
    rfl
  obtain ⟨response, hresponse⟩ := send_one h io [] hsend
  cases hresponse

end DataPlaneSession

theorem threads_refine_queues (ι : Type) [DecidableEq ι] [Fintype ι] :
    (∀ s, (LocalControllerSession.threads ι).Reach (Session.Serves LocalControllerSession.Kind) s →
      LocalControllerSession.queues.Reach (Server.Submits LocalControllerSession.Kind) s.server) ∧
    ∀ s, (DataPlaneSession.threads ι).Reach (Session.Serves DataPlaneSession.Kind) s →
      DataPlaneSession.queues.Reach (Server.Submits DataPlaneSession.Kind) s.server := by
  refine ⟨fun s h => ?_, fun s h => ?_⟩
  · rw [LocalControllerSession.queues, ← LocalControllerSession.answers_answer]
    exact Session.server_reach h
  · rw [DataPlaneSession.queues, ← DataPlaneSession.answers_answer]
    exact Session.server_reach h

structure Settles {ι ρ σ ω : Type} [DecidableEq ι] [Fintype ι] (send : ρ → ω → Option (Option σ)) (dummy : ρ)
    (s : Session ι ρ σ) : Prop where
  bounded : ∀ (actions : List (Session.Action ι ρ σ ω)) t,
    (Session.machine send dummy).exec Session.Inside s actions = some t → actions.length ≤ s.potential
  answered : s.Stuck send dummy → (∀ rule, s.point = .serving rule → ∃ outcome, send rule outcome ≠ none) →
    s.requests.queue = [] ∧ (s.popped ++ s.responses.queue).map Prod.fst = s.submitted ∧
      ∀ e ∈ s.popped ++ s.responses.queue, ∃ outcome, send e.1 outcome = some (some e.2)
  callers : s.Stuck send dummy → ∀ caller, s.requests.point (some caller) = .out ∧
    (s.responses.point (some caller) = .out ∨
      s.responses.point (some caller) = .asleep ∧ s.responses.queue = [])

theorem settles_reach {ι ρ σ ω : Type} [DecidableEq ι] [Fintype ι]
    {send : ρ → ω → Option (Option σ)} {dummy : ρ}
    {kind : ρ → Prop} (hone : ∀ rule, kind rule → ∀ outcome, send rule outcome ≠ some none) {s : Session ι ρ σ}
    (h : (Session.machine send dummy).Reach (Session.Serves kind) s) : Settles send dummy s where
  bounded _ _ he := Session.exec_bounded h he
  answered hstuck hsend := Session.all_answered hone h hstuck hsend
  callers hstuck := hstuck.callers (Session.sound_reach h)

theorem sessions_settle (ι : Type) [DecidableEq ι] [Fintype ι] :
    (∀ s, (LocalControllerSession.threads ι).Reach (Session.Serves LocalControllerSession.Kind) s →
      Settles LocalControllerSession.answer "" s) ∧
    ∀ s, (DataPlaneSession.threads ι).Reach (Session.Serves DataPlaneSession.Kind) s →
      Settles DataPlaneSession.answer "" s :=
  ⟨fun _ h => settles_reach (fun _ => LocalControllerSession.Kind.answer_ne) h,
    fun _ h => settles_reach (fun _ => DataPlaneSession.Kind.answer_ne) h⟩

def oneCall {σ ω : Type} (rule : String) (outcome : ω) : List (Session.Action Unit String σ ω) :=
  [.thread, .thread, .requests (.move none), .requests (.move none), .requests (.move none),
    .submit () rule, .requests (.move (some ())), .requests (.move (some ())),
    .requests (.notify (some ()) (some none)), .requests (.move (some ())),
    .getResult (), .responses (.move (some ())), .responses (.move (some ())), .responses (.move (some ())),
    .requests (.move none), .requests (.move none), .requests (.move none), .requests (.move none),
    .requests (.move none), .requests (.move none), .thread, .respond outcome,
    .responses (.move none), .responses (.move none), .responses (.notify none (some (some ()))),
    .responses (.move none), .thread, .thread, .requests (.move none), .requests (.move none),
    .requests (.move none), .responses (.move (some ())), .responses (.move (some ())),
    .responses (.move (some ())), .responses (.move (some ())), .responses (.move (some ())),
    .responses (.move (some ())), .take ()]

def AtRest {σ : Type} (s : Session Unit String σ) : Prop :=
  s.thread.isNone ∧ (s.point = .dequeuing ∨ s.point = .ended) ∧
    (∀ k, (s.requests.point k).side = .outside ∨ (s.requests.point k).sleeps) ∧
    ∀ k, (s.responses.point k).side = .outside ∨ (s.responses.point k).sleeps

instance {σ : Type} : DecidablePred (AtRest (σ := σ)) := fun _ => inferInstanceAs (Decidable (_ ∧ _))

theorem AtRest.stuck {σ ω : Type} {send : String → ω → Option (Option σ)} {s : Session Unit String σ}
    (h : AtRest s) :
    s.Stuck send "" := by
  obtain ⟨hthread, hpoint, hrequests, hresponses⟩ := h
  refine Session.stuck_of_points (Option.isNone_iff_eq_none.mp hthread) (fun rule hserving => ?_)
    (fun k => (hrequests k).imp Session.side_outside Monitor.Point.sleeps_iff.mp)
    fun k => (hresponses k).imp Session.side_outside Monitor.Point.sleeps_iff.mp
  rw [hserving] at hpoint
  simp at hpoint

theorem reach_one_call :
    (∃ s, (LocalControllerSession.threads Unit).Reach (Session.Serves LocalControllerSession.Kind) s ∧
      s.popped = [("1|j+1|", .ack 1 0)] ∧ s.point = .dequeuing ∧ AtRest s) ∧
    ∃ s, (DataPlaneSession.threads Unit).Reach (Session.Serves DataPlaneSession.Kind) s ∧
      s.popped.map Prod.fst = ["1|"] ∧ s.point = .dequeuing ∧ AtRest s := by
  constructor
  · have hstart : (LocalControllerSession.threads Unit).Reach (Session.Serves LocalControllerSession.Kind)
      (.new true) :=
      .start ⟨true, rfl⟩
    exact hstart.of_exec (oneCall "1|j+1|" .failed) (by decide)
  · have hstart : (DataPlaneSession.threads Unit).Reach (Session.Serves DataPlaneSession.Kind) (.new true) :=
      .start ⟨true, rfl⟩
    exact hstart.of_exec (oneCall "1|" ⟨false, false, none, none, ⟨"", "", 0, 0⟩, none⟩) (by decide)

theorem threads_refine_queues_one_call :
    (∃ s, LocalControllerSession.queues.Reach (Server.Submits LocalControllerSession.Kind) s ∧
      s.popped = [("1|j+1|", .ack 1 0)]) ∧
    ∃ s, DataPlaneSession.queues.Reach (Server.Submits DataPlaneSession.Kind) s ∧
      s.popped.map Prod.fst = ["1|"] := by
  obtain ⟨⟨s, hs, hpopped, -⟩, t, ht, hpopped', -⟩ := reach_one_call
  exact ⟨⟨s.server, (threads_refine_queues Unit).1 s hs, hpopped⟩, t.server,
    (threads_refine_queues Unit).2 t ht, hpopped'⟩

theorem sessions_settle_one_call :
    (∃ s : Session Unit String StageResponse, s.popped = [("1|j+1|", .ack 1 0)] ∧
      (s.popped ++ s.responses.queue).map Prod.fst = s.submitted) ∧
    ∃ s : Session Unit String DataPlaneSession.Response, s.popped.map Prod.fst = ["1|"] ∧
      (s.popped ++ s.responses.queue).map Prod.fst = s.submitted := by
  obtain ⟨⟨s, hs, hpopped, hpoint, hrest⟩, t, ht, hpopped', hpoint', hrest'⟩ := reach_one_call
  obtain ⟨-, hanswered, -⟩ := ((sessions_settle Unit).1 s hs).answered hrest.stuck (by simp [hpoint])
  obtain ⟨-, hanswered', -⟩ := ((sessions_settle Unit).2 t ht).answered hrest'.stuck (by simp [hpoint'])
  exact ⟨⟨s, hpopped, hanswered⟩, t, hpopped', hanswered'⟩

theorem removed_sessions_end (ι : Type) [DecidableEq ι] [Fintype ι] :
    (∀ s, (LocalControllerSession.threads ι).Reach (fun _ _ => True) s → s.point ≠ .raise ∧
    s.requests.flag = false →
      ∀ actions t, (LocalControllerSession.threads ι).exec Session.Inside s actions = some t →
        actions.length ≤ s.potential ∧
          (t.Stuck LocalControllerSession.answer "" → t.Finished LocalControllerSession.answer)) ∧
    ∀ s, (DataPlaneSession.threads ι).Reach (fun _ _ => True) s → s.point ≠ .raise ∧ s.requests.flag = false →
      ∀ actions t, (DataPlaneSession.threads ι).exec Session.Inside s actions = some t →
        actions.length ≤ s.potential ∧
        (t.Stuck DataPlaneSession.answer "" → t.Finished DataPlaneSession.answer) :=
  ⟨fun _ h hdown _ _ he => ⟨Session.exec_bounded h he, Session.finished_of_down h hdown he⟩,
    fun _ h hdown _ _ he => ⟨Session.exec_bounded h he, Session.finished_of_down h hdown he⟩⟩

def removedAsleep {σ ω : Type} : List (Session.Action Unit String σ ω) :=
  [.thread, .thread, .requests (.move none), .requests (.move none), .requests (.move none), .remove ()]

def wokenUp {σ ω : Type} : List (Session.Action Unit String σ ω) :=
  [.requests (.move (some ())), .requests (.move (some ())), .requests (.notify (some ()) (some none)),
    .requests (.move (some ())), .requests (.move none), .requests (.move none), .requests (.move none),
    .requests (.move none), .thread, .thread]

theorem removed_sessions_end_asleep :
    (∃ s t, (LocalControllerSession.threads Unit).Reach (fun _ _ => True) s ∧ s.requests.point none = .asleep ∧
      ((LocalControllerSession.threads Unit).resume s).Reach Session.Inside t ∧
      t.Finished LocalControllerSession.answer) ∧
    ∃ s t, (DataPlaneSession.threads Unit).Reach (fun _ _ => True) s ∧ s.requests.point none = .asleep ∧
      ((DataPlaneSession.threads Unit).resume s).Reach Session.Inside t ∧
      t.Finished DataPlaneSession.answer := by
  constructor
  · have hstart : (LocalControllerSession.threads Unit).Reach (fun _ _ => True) (.new true) :=
      .start ⟨true, rfl⟩
    obtain ⟨s, hs, hasleep, hdown, hwoken⟩ := hstart.of_exec (P := fun s =>
      s.requests.point none = .asleep ∧ (s.point ≠ .raise ∧ s.requests.flag = false) ∧
        ((LocalControllerSession.threads Unit).exec Session.Inside s wokenUp).any
        (fun t => decide (AtRest t)) = true)
      removedAsleep (by decide)
    obtain ⟨t, ht, hrest⟩ := Machine.exists_of_any hwoken
    exact ⟨s, t, hs, hasleep, Machine.reach_of_exec ht,
      ((removed_sessions_end Unit).1 s hs hdown wokenUp t ht).2 hrest.stuck⟩
  · have hstart : (DataPlaneSession.threads Unit).Reach (fun _ _ => True) (.new true) := .start ⟨true, rfl⟩
    obtain ⟨s, hs, hasleep, hdown, hwoken⟩ := hstart.of_exec (P := fun s =>
      s.requests.point none = .asleep ∧ (s.point ≠ .raise ∧ s.requests.flag = false) ∧
        ((DataPlaneSession.threads Unit).exec Session.Inside s wokenUp).any (fun t => decide (AtRest t)) = true)
      removedAsleep (by decide)
    obtain ⟨t, ht, hrest⟩ := Machine.exists_of_any hwoken
    exact ⟨s, t, hs, hasleep, Machine.reach_of_exec ht,
      ((removed_sessions_end Unit).2 s hs hdown wokenUp t ht).2 hrest.stuck⟩

end Cheferd
