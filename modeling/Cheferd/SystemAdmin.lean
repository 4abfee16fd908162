import Cheferd.DemandReplay

namespace Cheferd

open Library Strings CoreControlApplication

namespace SystemAdmin

def stagedRules (controlType : ControlType) (lines : List String) : List (List String) :=
  match controlType with
  | .static | .dynamicVanilla | .dynamicLeftover => lines.map (parseRule ' ')
  | .mds | .noop => []

/-- The rule that is put in the queue of the core; its time only says when. -/
def enforcementRule (stagedRule : List String) : Except Fault String := do
  let ruleId ← token stagedRule 0
  let kind ← token stagedRule 2
  let job ← token stagedRule 3
  let operation ← token stagedRule 4
  let demand ← token stagedRule 5
  let _ ← stoll (← token stagedRule 1)
  return "|" ++ ruleId ++ "|" ++ kind ++ "|" ++ job ++ "|" ++ operation ++ "|" ++ demand ++ "|"

def columns (stagedRule : List String) : Option (String × ℤ) :=
  match stagedRule with
  | _ :: _ :: kind :: job :: _ :: demand :: _ =>
    if kind = "demand" ∨ kind = "job" then (Decimal.signed 64 demand).map fun v => (job, v) else none
  | _ => none

theorem enforcementRule_ok {stagedRule : List String} {rule : String}
    (h : enforcementRule stagedRule = .ok rule) :
    ∃ ruleId seconds kind job operation demand rest,
      stagedRule = ruleId :: seconds :: kind :: job :: operation :: demand :: rest ∧
        rule = "" ++ ("|" ++ terminated "|" [ruleId, kind, job, operation, demand]) := by
  unfold enforcementRule at h
  simp only [Fault.bind_eq_ok, token_eq_ok] at h
  obtain ⟨ruleId, hruleId, kind, hkind, job, hjob, operation, hoperation, demand, hdemand, seconds, hseconds,
    _, _, h⟩ := h
  cases h
  match stagedRule with
  | [] | [_] | [_, _] | [_, _, _] | [_, _, _, _] | [_, _, _, _, _] => simp at hdemand
  | first :: second :: third :: fourth :: fifth :: sixth :: rest =>
    cases hruleId
    cases hkind
    cases hjob
    cases hoperation
    cases hdemand
    refine ⟨_, second, _, _, _, _, rest, rfl, ?_⟩
    rw [← String.toList_inj]
    simp [terminated]

theorem demandNamed_enforcementRule {stagedRule : List String} {rule : String}
    (h : enforcementRule stagedRule = .ok rule) (hbar : ∀ t ∈ stagedRule, '|' ∉ t.toList)
    (hne : ∀ t ∈ stagedRule, t ≠ "") :
    demandNamed rule = columns stagedRule := by
  obtain ⟨ruleId, seconds, kind, job, operation, demand, rest, rfl, rfl⟩ := enforcementRule_ok h
  have hparse : parseRule '|' ("" ++ ("|" ++ terminated "|" [ruleId, kind, job, operation, demand])) =
      [ruleId, kind, job, operation, demand] := by
    rw [parseRule_append '|' "|" "" _ rfl, parseRule_nil, List.nil_append, parseRule_terminated '|' "|" rfl]
    · rw [List.filter_eq_self]
      exact fun t ht => by simpa using hne t (by simp_all; tauto)
    · exact fun t ht => hbar t (by simp_all; tauto)
  unfold demandNamed
  rw [hparse]
  rfl

theorem stagedRules_ne_empty {controlType : ControlType} {lines : List String} :
    ∀ stagedRule ∈ stagedRules controlType lines, ∀ t ∈ stagedRule, t ≠ "" := by
  intro stagedRule hmem t ht
  have hline : ∃ line, stagedRule = parseRule ' ' line := by
    unfold stagedRules at hmem
    split at hmem
    all_goals simp only [List.mem_map, List.not_mem_nil] at hmem
    all_goals
      obtain ⟨line, -, rfl⟩ := hmem
      exact ⟨line, rfl⟩
  obtain ⟨line, rfl⟩ := hline
  exact parseRule_ne_empty ht

structure Renders (stagedRule : List String) (rule : String) : Prop where
  formatted : enforcementRule stagedRule = .ok rule
  columns : (∀ t ∈ stagedRule, '|' ∉ t.toList) → demandNamed rule = columns stagedRule

end SystemAdmin

structure Administration where
  process : FeedbackLoop.Process
  stagedRules : List (List String)
  submitted : ℕ
  fault : Option Fault

namespace Administration

open FeedbackLoop (noted journal)

inductive Action
  | core (action : FeedbackLoop.Action)
  | submit

def step (s : Administration) : Action → Option Administration
  | .core (.enqueueRule _) => none
  | .core action =>
    match s.fault with
    | none => (s.process.step action).map fun process => { s with process := process }
    | some _ => none
  | .submit =>
    match s.fault, s.stagedRules[s.submitted]? with
    | none, some stagedRule =>
      match SystemAdmin.enforcementRule stagedRule with
      | .error fault => some { s with fault := some fault }
      | .ok rule => (s.process.step (.enqueueRule rule)).map fun process =>
        { s with process := process, submitted := s.submitted + 1 }
    | _, _ => none

def machine : Machine Administration Action where
  start s := FeedbackLoop.machine.start s.process ∧
    (∃ lines, s.stagedRules = SystemAdmin.stagedRules s.process.core.controlType lines) ∧ s.submitted = 0 ∧
    s.fault = none
  step := step

variable {s t : Administration}

inductive Step (s : Administration) : Action → Administration → Prop
  | core (action : FeedbackLoop.Action) (process : FeedbackLoop.Process)
      (hquiet : ∀ rule, action ≠ .enqueueRule rule)
      (h : s.process.step action = some process) : Step s (.core action) { s with process := process }
  | submitted (stagedRule : List String) (rule : String)
      (hstaged : s.stagedRules[s.submitted]? = some stagedRule)
      (hrule : SystemAdmin.enforcementRule stagedRule = .ok rule) :
      Step s .submit { s with
        process := { s.process with
          core := { s.process.core with pendingRulesQueue := s.process.core.pendingRulesQueue ++ [rule] } }
        submitted := s.submitted + 1 }
  | ended (fault : Fault) : Step s .submit { s with fault := some fault }

theorem step_cases {action : Action} (h : s.step action = some t) : Step s action t := by
  cases action with
  | core action =>
    have hcore : ∀ action, (∀ rule, action ≠ .enqueueRule rule) →
        (match s.fault with
          | none => (s.process.step action).map fun process => { s with process := process }
          | some _ => none) = some t → Step s (.core action) t := by
      intro action hquiet h
      split at h
      · obtain ⟨process, hstep, rfl⟩ := Option.map_eq_some_iff.mp h
        exact .core action process hquiet hstep
      · cases h
    cases action with
    | enqueueRule rule => cases h
    | _ => exact hcore _ (by simp) h
  | submit =>
    simp only [step] at h
    split at h
    case h_1 stagedRule hfault hstaged =>
      split at h
      case h_1 fault hrule =>
        cases h
        exact .ended fault
      case h_2 rule hrule =>
        cases h
        exact .submitted stagedRule rule hstaged hrule
    case h_2 => cases h

def logged : Machine (Administration × List Note) Action :=
  machine.observed (fun _ => []) fun s t log => noted s.process t.process ++ log

theorem noted_self (p : FeedbackLoop.Process) : noted p p = [] := by simp [noted, notesOf]

theorem journal_reach (allowed : Administration → Action → Prop) {s : Administration × List Note}
    (h : logged.Reach (fun s => allowed s.1) s) : journal.Reach (fun _ _ => True) (s.1.process, s.2) := by
  refine Machine.Reach.observed_invariant (m := machine)
    (I := fun s log => journal.Reach (fun _ _ => True) (s.process, log))
    (fun s hstart => .start ⟨hstart.1, rfl⟩) ?_ h
  intro s t action log hs _ hstep
  have hcore : ∀ action process, s.process.step action = some process →
      journal.Reach (fun _ _ => True) (process, noted s.process process ++ log) := fun action process hstep =>
    hs.step trivial (Option.map_eq_some_iff.mpr ⟨_, hstep, rfl⟩)
  cases step_cases hstep with
  | core action process hquiet hprocess => exact hcore action process hprocess
  | submitted stagedRule rule hstaged hrule => exact hcore (.enqueueRule rule) _ rfl
  | ended fault => rwa [noted_self]

def processedRules (log : List Note) : List String := (log.filterMap Note.rule).reverse

def InOrder (s : Administration) (log : List Note) : Prop :=
  List.Forall₂ (fun stagedRule rule => SystemAdmin.enforcementRule stagedRule = .ok rule)
    (s.stagedRules.take s.submitted) (processedRules log ++ s.process.core.pendingRulesQueue)

theorem InOrder.ne_empty {log : List Note} (h : InOrder s log) :
    ∀ rule ∈ s.process.core.pendingRulesQueue, rule ≠ "" := by
  rintro rule hrule rfl
  obtain ⟨stagedRule, -, hstaged⟩ := Lists.exists_of_forall₂_right h (List.mem_append_right _ hrule)
  obtain ⟨_, _, _, _, _, _, _, -, hempty⟩ := SystemAdmin.enforcementRule_ok hstaged
  rw [← String.toList_inj] at hempty
  simp at hempty

theorem InOrder.core {log : List Note} {process : FeedbackLoop.Process} (h : InOrder s log)
    (htakes : FeedbackLoop.TakesRules s.process process) :
    InOrder { s with process := process } (noted s.process process ++ log) := by
  obtain ⟨events, taken, hqueue, hnoted⟩ := htakes
  have htaken : taken.filter (· ≠ "") = taken := by
    rw [List.filter_eq_self]
    exact fun rule hrule => by simpa using h.ne_empty rule (by rw [hqueue]; exact List.mem_append_left _ hrule)
  have hevents : (events.map Note.event).filterMap Note.rule = [] := by
    simp [List.filterMap_eq_nil_iff, Note.rule]
  have hrules : (notesOf taken).filterMap Note.rule = taken.reverse := by
    rw [notesOf, htaken, List.filterMap_map]
    exact List.filterMap_some
  have hprocessed : processedRules (noted s.process process ++ log) = processedRules log ++ taken := by
    simp [processedRules, hnoted, hevents, hrules]
  unfold InOrder at h ⊢
  rwa [hprocessed, List.append_assoc, ← hqueue]

theorem InOrder.submitted {log : List Note} {stagedRule : List String} {rule : String} (h : InOrder s log)
    (hstaged : s.stagedRules[s.submitted]? = some stagedRule)
    (hrule : SystemAdmin.enforcementRule stagedRule = .ok rule) :
    List.Forall₂ (fun stagedRule rule => SystemAdmin.enforcementRule stagedRule = .ok rule)
      (s.stagedRules.take (s.submitted + 1))
      (processedRules log ++ (s.process.core.pendingRulesQueue ++ [rule])) := by
  rw [List.take_add_one, hstaged, ← List.append_assoc]
  exact List.rel_append h (.cons hrule .nil)

theorem inOrder_reach (allowed : Administration → Action → Prop) {s : Administration × List Note}
    (h : logged.Reach (fun s => allowed s.1) s) : InOrder s.1 s.2 := by
  refine Machine.Reach.observed_invariant (m := machine) (I := InOrder) ?_ ?_ h
  · rintro s ⟨⟨controlType, rules, limit, hash, core, hops, hprocess⟩, -, hsubmitted, -⟩
    obtain ⟨ops, op, rfl⟩ := FeedbackLoop.initializeOps_ok hops
    rw [InOrder, hprocess, hsubmitted, List.take_zero]
    exact .nil
  · intro s t action log hs _ hstep
    cases step_cases hstep with
    | core action process hquiet hprocess =>
      exact hs.core ((FeedbackLoop.step_cases hprocess).takesRules hquiet)
    | submitted stagedRule rule hstaged hrule =>
      have hquiet : noted s.process { s.process with
          core := { s.process.core with pendingRulesQueue := s.process.core.pendingRulesQueue ++ [rule] } } =
          [] :=
        FeedbackLoop.noted_eq (p := s.process) [] [] [rule] rfl rfl (.inr rfl)
      rw [InOrder, hquiet]
      exact hs.submitted hstaged hrule
    | ended fault => rwa [noted_self]

theorem tokens_reach (allowed : Administration → Action → Prop) {s : Administration × List Note}
    (h : logged.Reach (fun s => allowed s.1) s) : ∀ stagedRule ∈ s.1.stagedRules, ∀ t ∈ stagedRule, t ≠ "" := by
  refine Machine.Reach.observed_invariant (m := machine)
    (I := fun s _ => ∀ stagedRule ∈ s.stagedRules, ∀ t ∈ stagedRule, t ≠ "") ?_ ?_ h
  · rintro s ⟨-, ⟨lines, hlines⟩, -⟩
    rw [hlines]
    exact SystemAdmin.stagedRules_ne_empty
  · intro s t action log hs _ hstep
    cases step_cases hstep <;> exact hs

theorem file_replayed {s : Administration × List Note} (h : logged.Reach (fun _ _ => True) s) :
    List.Forall₂ SystemAdmin.Renders (s.1.stagedRules.take s.1.submitted)
      (processedRules s.2 ++ s.1.process.core.pendingRulesQueue) ∧
    ∀ job, (s.1.process.core.jobDemands.lookup job).map settle = (demandOf job s.2).map settle ∧
      (s.1.process.core.controlType ≠ .dynamicVanilla →
        s.1.process.core.jobDemands.lookup job = demandOf job s.2) := by
  have htokens := tokens_reach (fun _ _ => True) h
  have hrules := inOrder_reach (fun _ _ => True) h
  have hreplayed := FeedbackLoop.replayed_reach (fun _ _ => True) (journal_reach (fun _ _ => True) h)
  refine ⟨?_, hreplayed.demands⟩
  refine ((List.forall₂_and_left _ _).mpr ⟨fun stagedRule hmem => htokens _ (List.mem_of_mem_take hmem),
    hrules⟩).imp ?_
  rintro stagedRule rule ⟨hne, hrule⟩
  exact ⟨hrule, fun hbar => SystemAdmin.demandNamed_enforcementRule hrule hbar hne⟩

def run (controlType : ControlType) (lines : List String) (actions : List Action) :
    Option (Administration × List Note) :=
  let rules := ["4|1|create_channel|1000|posix|1000|data|no_op|"]
  match (CoreControlApplication.new controlType rules 1000 .id).initializeOps with
  | .ok core => logged.exec (fun _ _ => True)
      (⟨.start core, SystemAdmin.stagedRules core.controlType lines, 0, none⟩, []) actions
  | .error _ => none

theorem reach_of_run {controlType : ControlType} {lines : List String} {actions : List Action}
    {s : Administration × List Note} (h : run controlType lines actions = some s) :
    logged.Reach (fun _ _ => True) s := by
  unfold run at h
  dsimp only at h
  split at h
  case h_1 core hops =>
    have hstart : logged.start (⟨.start core, SystemAdmin.stagedRules core.controlType lines, 0, none⟩, []) :=
      ⟨⟨⟨_, _, _, _, core, hops, rfl⟩, ⟨lines, rfl⟩, rfl, rfl⟩, rfl⟩
    exact Machine.Reach.exec (.start hstart) h
  case h_2 => cases h

theorem file_replayed_two_lines : ∃ s, logged.Reach (fun _ _ => True) s ∧
    s.1.stagedRules = [["1", "10", "job", "tensor", "read", "1000"], ["2", "25", "job", "kvs", "write", "10"]] ∧
      List.Forall₂ SystemAdmin.Renders s.1.stagedRules ["|1|job|tensor|read|1000|", "|2|job|kvs|write|10|"] ∧
      s.1.process.core.jobDemands.lookup "tensor" = some 1000 := by
  let stage : List FeedbackLoop.Action :=
    [.enqueueStage ⟨"tensor", 1, "u", "A"⟩, .countStage, .loop, .serve "A" ⟨1, ∅⟩,
    .loop, .loop, .loop, .serve "A" ⟨0, AList.singleton "tensor+1" 5⟩, .loop, .loop, .loop]
  obtain ⟨s, hs, hstaged, hsubmitted, hrules, hdemand, htype⟩ := Machine.exists_of_any (P := fun s =>
    s.1.stagedRules = [["1", "10", "job", "tensor", "read", "1000"], ["2", "25", "job", "kvs", "write", "10"]] ∧
      s.1.submitted = 2 ∧ processedRules s.2 ++ s.1.process.core.pendingRulesQueue =
        ["|1|job|tensor|read|1000|", "|2|job|kvs|write|10|"] ∧
      demandOf "tensor" s.2 = some 1000 ∧ s.1.process.core.controlType = .static)
    (show (run .static ["1 10 job tensor read 1000", "2 25 job kvs write 10"]
      (.submit :: (FeedbackLoop.firstController ++ .loop :: stage).map .core ++ [.submit])).any _ =
      true by decide)
  obtain ⟨hrenders, hdemands⟩ := file_replayed (reach_of_run hs)
  refine ⟨s, reach_of_run hs, hstaged, ?_, ?_⟩
  · rwa [hrules, hsubmitted, hstaged, List.take_of_length_le (by simp), ← hstaged] at hrenders
  · rw [(hdemands "tensor").2 (by rw [htype]; decide), hdemand]

end Administration

end Cheferd
