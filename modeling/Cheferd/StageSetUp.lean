import Cheferd.StageSessions
import Cheferd.StatisticsCall

namespace Cheferd.StageSessions

open Library

structure Outcomes where
  acknowledge : ℕ → ℤ
  ready : ℤ
  connected : Bool

def validRules (acknowledge : ℕ → ℤ) : ℕ → ℕ → ℕ → ℕ
  | 0, _, valid => valid
  | remaining + 1, i, valid =>
    if acknowledge i = 1 then validRules acknowledge remaining (i + 1) (valid + 1) else 0

def submitHousekeepingRules (acknowledge : ℕ → ℤ) (rules : List String) : ℕ :=
  validRules acknowledge rules.length 0 0

structure LocalController where
  sessions : Sessions
  housekeepingRules : List String
  stopped : List ℕ
  activeDataPlaneSessions : ℤ
  announced : List String

namespace LocalController

/-- From the identity that the stage has given on; `none` where the handshake does not return. -/
def handleDataPlaneSessions (info : StageInfo) (outcomes : Outcomes) (s : LocalController) :
    Option LocalController :=
  (s.sessions.prepare info.key).map fun sessions =>
    let prepared := { s with sessions := sessions }
    if info.stageName = "" then prepared
    else if submitHousekeepingRules outcomes.acknowledge s.housekeepingRules = s.housekeepingRules.length ∧
        LocalFeedbackLoop.markStageReady true outcomes.ready then
      if outcomes.connected then
        { prepared with
          activeDataPlaneSessions := s.activeDataPlaneSessions + 1
          announced := info.key :: s.announced }
      else prepared
    else
      { prepared with
        sessions := prepared.sessions.discard info.key
        stopped := s.stopped ++ (prepared.sessions.preparingDataSessions.lookup info.key).toList }

variable {info : StageInfo} {s : LocalController}

theorem forall_acknowledged_succ (acknowledge : ℕ → ℤ) (n i : ℕ) :
    (∀ j < n + 1, acknowledge (i + j) = 1) ↔ acknowledge i = 1 ∧ ∀ j < n, acknowledge (i + 1 + j) = 1 := by
  constructor
  · intro h
    refine ⟨h 0 (by omega), fun j hj => ?_⟩
    have hj := h (j + 1) (by omega)
    rwa [← Nat.add_assoc, Nat.add_right_comm] at hj
  · rintro ⟨hfirst, hrest⟩ j hj
    cases j with
    | zero => exact hfirst
    | succ j =>
      rw [← Nat.add_assoc, Nat.add_right_comm]
      exact hrest j (by omega)

theorem validRules_eq (acknowledge : ℕ → ℤ) (n i valid : ℕ) :
    validRules acknowledge n i valid = if ∀ j < n, acknowledge (i + j) = 1 then valid + n else 0 := by
  induction n generalizing i valid with
  | zero => simp [validRules]
  | succ n ih =>
    have hsplit := forall_acknowledged_succ acknowledge n i
    rw [validRules, ih]
    by_cases hfirst : acknowledge i = 1
    · by_cases hrest : ∀ j < n, acknowledge (i + 1 + j) = 1
      · rw [if_pos hfirst, if_pos hrest, if_pos (hsplit.mpr ⟨hfirst, hrest⟩)]
        omega
      · rw [if_pos hfirst, if_neg hrest, if_neg fun h => hrest (hsplit.mp h).2]
    · rw [if_neg hfirst, if_neg fun h => hfirst (hsplit.mp h).1]

theorem installed_iff (acknowledge : ℕ → ℤ) (rules : List String) :
    submitHousekeepingRules acknowledge rules = rules.length ↔ ∀ i < rules.length, acknowledge i = 1 := by
  rw [submitHousekeepingRules, validRules_eq]
  simp only [Nat.zero_add]
  split
  case isTrue h => exact iff_of_true rfl h
  case isFalse h =>
    constructor
    · intro hempty i hi
      omega
    · intro hall
      exact absurd hall h

def Settled (info : StageInfo) (s t : LocalController) : Prop :=
  (t.announced = info.key :: s.announced ∧ t.activeDataPlaneSessions = s.activeDataPlaneSessions + 1) ∨
    (info.key ∉ t.sessions.preparingDataSessions ∧ t.stopped = s.stopped ++ [s.sessions.created] ∧
      t.activeDataPlaneSessions = s.activeDataPlaneSessions)

theorem handleDataPlaneSessions_eq_none (outcomes : Outcomes) :
    s.handleDataPlaneSessions info outcomes = none ↔ info.key ∈ s.sessions.preparingDataSessions := by
  simp [handleDataPlaneSessions, Sessions.prepare]

theorem settled_iff (hname : info.stageName ≠ "") {outcomes : Outcomes} {t : LocalController}
    (h : s.handleDataPlaneSessions info outcomes = some t) :
    Settled info s t ↔
      outcomes.connected = true ∨ ∃ i < s.housekeepingRules.length, outcomes.acknowledge i ≠ 1 := by
  have hprepared : (s.sessions.addSession info.key).preparingDataSessions.lookup info.key =
    some s.sessions.created :=
    AList.lookup_insert _
  obtain ⟨sessions, hsessions, rfl⟩ := Option.map_eq_some_iff.mp h
  simp only [Sessions.prepare, Option.ite_none_left_eq_some, Option.some.injEq] at hsessions
  obtain ⟨-, rfl⟩ := hsessions
  unfold Settled
  simp only [if_neg hname, installed_iff, LocalFeedbackLoop.markStageReady_submitted, and_true]
  by_cases hall : ∀ i < s.housekeepingRules.length, outcomes.acknowledge i = 1
  · have hnone : ¬ ∃ i < s.housekeepingRules.length, outcomes.acknowledge i ≠ 1 := by
      rintro ⟨i, hi, hne⟩
      exact hne (hall i hi)
    rw [if_pos hall]
    cases hconnected : outcomes.connected with
    | true => simp
    | false =>
      have hkept : info.key ∈ (s.sessions.addSession info.key).preparingDataSessions :=
        AList.lookup_isSome.mp (by rw [hprepared]; rfl)
      simp [hnone, hkept]
  · have hsome : ∃ i < s.housekeepingRules.length, outcomes.acknowledge i ≠ 1 := by
      by_contra h
      exact hall fun i hi => by_contra fun hne => h ⟨i, hi, hne⟩
    rw [if_neg hall]
    refine iff_of_true (.inr ⟨?_, ?_, rfl⟩) (.inr hsome)
    · simp [Sessions.discard]
    · rw [hprepared]
      rfl

theorem set_up_settled_iff (hname : info.stageName ≠ "") (outcomes : Outcomes) (s : LocalController) :
    (s.handleDataPlaneSessions info outcomes = none ↔ info.key ∈ s.sessions.preparingDataSessions) ∧
      ((∀ t, s.handleDataPlaneSessions info outcomes = some t → Settled info s t) ↔
        info.key ∈ s.sessions.preparingDataSessions ∨ outcomes.connected = true ∨
          ∃ i < s.housekeepingRules.length, outcomes.acknowledge i ≠ 1) := by
  refine ⟨handleDataPlaneSessions_eq_none outcomes, ?_⟩
  cases hprocessed : s.handleDataPlaneSessions info outcomes with
  | none => exact iff_of_true nofun (.inl ((handleDataPlaneSessions_eq_none outcomes).mp hprocessed))
  | some t =>
    have hnew : info.key ∉ s.sessions.preparingDataSessions := by
      rw [← handleDataPlaneSessions_eq_none outcomes, hprocessed]
      exact Option.some_ne_none t
    simp only [hnew, false_or, Option.some.injEq, forall_eq']
    exact settled_iff hname hprocessed

theorem set_up_settled_refused_rule :
    let info : StageInfo := ⟨"j", 1, "u", "A"⟩
    let outcomes : Outcomes := ⟨fun i => if i = 1 then 0 else 1, 1, true⟩
    let s : LocalController := ⟨.empty, ["r", "r'", "r"], [], 0, []⟩
    ∃ t, s.handleDataPlaneSessions info outcomes = some t ∧ t.stopped = [0] ∧ Settled info s t := by
  intro info outcomes s
  obtain ⟨t, ht, hstopped⟩ : ∃ t, s.handleDataPlaneSessions info outcomes = some t ∧ t.stopped = [0] :=
    ⟨_, rfl, by decide⟩
  have hrefused : ∃ i < s.housekeepingRules.length, outcomes.acknowledge i ≠ 1 := ⟨1, by decide, by decide⟩
  exact ⟨t, ht, hstopped, (set_up_settled_iff (by decide) outcomes s).2.mpr (.inr (.inr hrefused)) t ht⟩

theorem refused_stage_kept :
    let s : LocalController := ⟨.empty, ["r"], [], 0, []⟩
    ∃ t, s.handleDataPlaneSessions ⟨"j", 1, "u", "A"⟩ ⟨fun _ => 1, 1, false⟩ = some t ∧
      t.announced = [] ∧ t.activeDataPlaneSessions = 0 ∧ t.stopped = [] ∧
      t.sessions.preparingDataSessions.lookup "j+1" = some 0 ∧ ¬ Settled ⟨"j", 1, "u", "A"⟩ s t := by
  intro s
  refine ⟨_, rfl, by decide, by decide, by decide, by decide, ?_⟩
  rintro (⟨hannounced, -⟩ | ⟨-, hstopped, -⟩)
  · cases hannounced
  · cases hstopped

end LocalController

section Refinement

variable {contents : ℕ → DataPlaneSession} {s : LocalController} {c : LocalThreads.Controller}
  {info : StageInfo} {rules : List String}

structure Refines (contents : ℕ → DataPlaneSession) (s : LocalController)
    (c : LocalThreads.Controller) : Prop where
  sessions : Shows contents s.sessions c.process.app
  rules : c.process.app.housekeepingRules = s.housekeepingRules
  active : c.activeDataPlaneSessions = s.activeDataPlaneSessions
  announced : c.announced = s.announced

open LocalThreads LocalFeedbackLoop

def continued (process : LocalProcess) (c : LocalThreads.Controller) : LocalThreads.Controller :=
  { c with process := process, point := if process.point = .idle then .pending else .handling }

theorem leads_stage {action : LocalFeedbackLoop.Action} {process : LocalProcess} (hpoint : c.point = .handling)
    (haction : action ≠ .connect) (h : c.process.step action = some process) :
    Leads rules c (continued process c) := by
  apply Leads.step (a := .stage action)
  simp only [LocalThreads.Controller.step, LocalThreads.Controller.stage, hpoint, haction, ne_eq,
    not_false_eq_true, and_self, if_true, h, Option.map_some]
  rfl

theorem leads_acknowledge (rules : List String) (acknowledge : ℕ → ℤ)
    (pending acknowledged : List String) (i : ℕ)
    (hpoint : c.point = .handling) (hprocess : c.process.point = .submitted info acknowledged pending)
    (hprepares : c.process.prepares info = true) :
    if ∀ j < pending.length, acknowledge (i + j) = 1 then
      Leads rules c (continued { c.process with point := .submitted info (acknowledged ++ pending) [] } c)
    else ∃ before, Leads rules c (continued { c.process with point := .rejected info before } c) := by
  -- The induction is on the responses that are still to come
  induction pending generalizing c acknowledged i with
  | nil =>
    have hstays : continued { c.process with point := .submitted info acknowledged [] } c = c := by
      rw [← hprocess]
      unfold continued
      rw [if_neg (by simp [hprocess]), ← hpoint]
    rw [if_pos (by simp), List.append_nil, hstays]
    exact id
  | cons rule pending ih =>
    have hsplit : (∀ j < (rule :: pending).length, acknowledge (i + j) = 1) ↔
        acknowledge i = 1 ∧ ∀ j < pending.length, acknowledge (i + 1 + j) = 1 :=
      LocalController.forall_acknowledged_succ acknowledge pending.length i
    have hlead : Leads rules c (continued { c.process with
        point := if acknowledge i = 1 then .submitted info (acknowledged ++ [rule]) pending
          else .rejected info acknowledged } c) := by
      apply leads_stage hpoint (by simp : LocalFeedbackLoop.Action.acknowledge (acknowledge i) ≠ .connect)
      simp only [LocalProcess.step, hprocess, hprepares, if_true]
    by_cases hfirst : acknowledge i = 1
    · rw [if_pos hfirst] at hlead
      have hrest := ih (acknowledged ++ [rule]) (i + 1) (c := continued { c.process with
        point := .submitted info (acknowledged ++ [rule]) pending } c) rfl rfl hprepares
      rw [List.append_assoc, List.singleton_append] at hrest
      by_cases hall : ∀ j < pending.length, acknowledge (i + 1 + j) = 1
      · rw [if_pos hall] at hrest
        rw [if_pos (hsplit.mpr ⟨hfirst, hall⟩)]
        exact hlead.trans hrest
      · rw [if_neg hall] at hrest
        rw [if_neg fun h => hall (hsplit.mp h).2]
        exact hrest.imp fun before hbefore => hlead.trans hbefore
    · rw [if_neg hfirst] at hlead
      rw [if_neg fun h => hfirst (hsplit.mp h).1]
      exact ⟨acknowledged, hlead⟩

theorem leads_handleDataPlaneSessions (hname : info.stageName ≠ "") {outcomes : Outcomes} {t : LocalController}
    (hprocessed : s.handleDataPlaneSessions info outcomes = some t)
    (hpoint : c.point = .handling) (hidle : c.process.point = .idle) (h : Refines contents s c) :
    ∃ contents' d, Leads rules c d ∧ Refines contents' t d ∧ d.point = .pending ∧ d.process.point = .idle := by
  obtain ⟨sessions, hsessions, rfl⟩ := Option.map_eq_some_iff.mp hprocessed
  simp only [Sessions.prepare, Option.ite_none_left_eq_some, Option.some.injEq] at hsessions
  obtain ⟨hnew, rfl⟩ := hsessions
  have hfree : c.process.prepares info = false := by
    simpa [LocalProcess.prepares, h.sessions.mem_preparing] using hnew
  let app := { c.process.app with
    preparingDataSessions := c.process.app.preparingDataSessions.insert info.key .new }
  let during := fun point : LocalFeedbackLoop.Point => continued ⟨app, point, c.process.announced⟩ c
  have hprepares : ∀ point, (⟨app, point, c.process.announced⟩ : LocalProcess).prepares info = true := by
    intro point
    simp [app, LocalProcess.prepares]
  have hsessions : Shows (Function.update contents s.sessions.created .new)
    (s.sessions.addSession info.key) app :=
    h.sessions.addSession
  have hhandshake : Leads rules c (during (.handshaken info)) := by
    apply leads_stage hpoint (by simp : LocalFeedbackLoop.Action.handshake info ≠ .connect)
    simp only [LocalProcess.step, hidle, hfree, Bool.false_eq_true, if_false, if_neg hname]
    rfl
  have hsubmit : Leads rules (during (.handshaken info)) (during (.submitted info [] s.housekeepingRules)) := by
    apply leads_stage rfl (by simp : LocalFeedbackLoop.Action.submit ≠ .connect)
    have hrules : app.housekeepingRules = s.housekeepingRules := h.rules
    simp only [LocalProcess.step, during, continued, hrules, hprepares, if_true]
  have hanswers := leads_acknowledge rules outcomes.acknowledge s.housekeepingRules [] 0
    (c := during (.submitted info [] s.housekeepingRules)) rfl rfl (hprepares _)
  have hinstalled := LocalController.installed_iff outcomes.acknowledge s.housekeepingRules
  simp only [Nat.zero_add, List.nil_append] at hanswers
  simp only [if_neg hname, hinstalled, markStageReady_submitted, and_true]
  refine ⟨Function.update contents s.sessions.created .new, ?_⟩
  by_cases hall : ∀ i < s.housekeepingRules.length, outcomes.acknowledge i = 1
  · rw [if_pos hall] at hanswers ⊢
    have hcount : Leads rules (during (.submitted info s.housekeepingRules []))
        (during (.readying info s.housekeepingRules)) := by
      apply leads_stage rfl (by simp : LocalFeedbackLoop.Action.count ≠ .connect)
      have hlength : s.housekeepingRules.length = app.housekeepingRules.length :=
        congrArg List.length h.rules.symm
      simp only [LocalProcess.step, during, continued, hprepares, if_true, LocalProcess.compare]
      exact congrArg some (if_pos hlength)
    have hready : Leads rules (during (.readying info s.housekeepingRules))
        (during (.connecting info s.housekeepingRules outcomes.ready)) := by
      apply leads_stage rfl (by simp : LocalFeedbackLoop.Action.ready outcomes.ready ≠ .connect)
      simp only [LocalProcess.step, during, continued, markStageReady_submitted, hprepares, if_true]
    have hset := (hhandshake.trans hsubmit).trans (hanswers.trans (hcount.trans hready))
    cases hconnected : outcomes.connected with
    | true =>
      refine ⟨_, (hset.trans (.step (a := .register) rfl)).trans (.step (a := .loop) rfl), ?_, rfl, rfl⟩
      exact ⟨hsessions, h.rules, congrArg (· + 1) h.active, congrArg (info.key :: ·) h.announced⟩
    | false =>
      refine ⟨_, hset.trans (.step (a := .refuse) rfl), ?_, rfl, rfl⟩
      exact ⟨hsessions, h.rules, h.active, h.announced⟩
  · rw [if_neg hall] at hanswers ⊢
    obtain ⟨before, hanswers⟩ := hanswers
    have hcount : Leads rules (during (.rejected info before))
        (continued ((during (.rejected info before)).process.abandon info) c) := by
      apply leads_stage rfl (by simp : LocalFeedbackLoop.Action.count ≠ .connect)
      have hlength : ¬ 0 = app.housekeepingRules.length := by
        rw [show app.housekeepingRules = s.housekeepingRules from h.rules]
        intro hnone
        exact hall fun i hi => absurd hi (by omega)
      simp only [LocalProcess.step, during, continued, hprepares, if_true, LocalProcess.compare]
      exact congrArg some (if_neg hlength)
    refine ⟨_, (hhandshake.trans hsubmit).trans (hanswers.trans hcount), ?_, rfl, rfl⟩
    exact ⟨hsessions.discard, h.rules, h.active, h.announced⟩

end Refinement

end Cheferd.StageSessions
