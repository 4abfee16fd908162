import Cheferd.JobPasses
import Mathlib.Data.List.Dedup

namespace Cheferd

open Library Strings

namespace CoreControlApplication

variable {core core' core₁ : CoreControlApplication}

def naming (rule : String) : Option (String × String) :=
  match parseRule '|' rule with
  | _ :: kind :: job :: operation :: _ => if kind = "demand" ∨ kind = "job" then some (job, operation) else none
  | _ => none

theorem naming_ne_empty {rule job operation : String} (h : naming rule = some (job, operation)) :
    operation ≠ "" := by
  unfold naming at h
  split at h
  case h_1 first kind job' operation' rest hparse =>
    rw [Option.ite_none_right_eq_some, Option.some.injEq, Prod.mk.injEq] at h
    obtain ⟨_, _, rfl⟩ := h
    have hmem : operation' ∈ parseRule '|' rule := by simp [hparse]
    exact parseRule_ne_empty hmem
  case h_2 => cases h

theorem activeOpOf_ne_empty {rule operation : String} (h : activeOpOf rule = .ok (some operation)) :
    operation ≠ "" := by
  have hmem : operation ∈ parseRule '|' rule := by
    obtain ⟨kind, _, h⟩ := Fault.bind_eq_ok.mp h
    split at h
    · cases h
    · obtain ⟨sixth, _, h⟩ := Fault.bind_eq_ok.mp h
      split at h
      · obtain ⟨seventh, hseventh, h⟩ := Fault.bind_eq_ok.mp h
        cases h
        exact List.mem_of_getElem? (token_eq_ok.mp hseventh)
      · obtain ⟨again, hagain, h⟩ := Fault.bind_eq_ok.mp h
        cases h
        exact List.mem_of_getElem? (token_eq_ok.mp hagain)
  exact parseRule_ne_empty hmem

theorem activeOpsOf_ne_empty {rules ops : List String} (h : activeOpsOf rules = .ok ops) :
    ∀ operation ∈ ops, operation ≠ "" := by
  induction rules generalizing ops with
  | nil =>
    cases h
    simp
  | cons rule rules ih =>
    obtain ⟨first, hfirst, h⟩ := Fault.bind_eq_ok.mp h
    obtain ⟨rest, hrest, h⟩ := Fault.bind_eq_ok.mp h
    cases h
    intro operation hmem
    rcases List.mem_append.mp hmem with hmem | hmem
    · rw [Option.mem_toList] at hmem
      exact activeOpOf_ne_empty (hmem ▸ hfirst)
    · exact ih hrest operation hmem

theorem initializeOps_activeOp (h : initializeOps core = .ok core') : core'.activeOp ≠ "" := by
  obtain ⟨ops, hops, h⟩ := Fault.bind_eq_ok.mp h
  obtain ⟨operation, hop, h⟩ := Fault.bind_eq_ok.mp h
  cases h
  have hmem : operation ∈ ops := by
    have hmem := List.mem_of_getElem? (token_eq_ok.mp hop)
    rwa [(core.hash.perm _ _).mem_iff, List.mem_dedup] at hmem
  exact activeOpsOf_ne_empty hops operation hmem

theorem naming_eq {rule kind : String} (hkind : token (parseRule '|' rule) 1 = .ok kind) :
    (∀ job operation, kind = "demand" ∨ kind = "job" → token (parseRule '|' rule) 2 = .ok job →
      token (parseRule '|' rule) 3 = .ok operation → naming rule = some (job, operation)) ∧
    (¬ (kind = "demand" ∨ kind = "job") → naming rule = none) := by
  unfold naming
  rw [token_eq_ok] at hkind
  split
  case h_1 first kind' job' operation' rest hparse =>
    simp only [hparse, token_eq_ok] at hkind ⊢
    cases hkind
    refine ⟨fun job operation hk hjob hoperation => ?_, fun hk => if_neg hk⟩
    cases hjob
    cases hoperation
    exact if_pos hk
  case h_2 hparse =>
    refine ⟨fun job operation hk hjob hoperation => ?_, fun _ => rfl⟩
    rw [token_eq_ok] at hjob hoperation
    generalize parseRule '|' rule = tokens at *
    match tokens with
    | [] | [_] | [_, _] | [_, _, _] => simp at hoperation
    | first :: kind :: job :: operation :: rest => exact absurd rfl (hparse first kind job operation rest)

inductive Entry
  | processed (rule : String)
  | sent (rule : EnforcementRule)
deriving DecidableEq

def lastProcessed : List Entry → Option String
  | [] => none
  | .processed rule :: _ => some rule
  | .sent _ :: rest => lastProcessed rest

def inForce (initial : String) (log : List Entry) : String :=
  match lastProcessed log with
  | none => initial
  | some rule => ((naming rule).map Prod.snd).getD ""

def operationFor (initial job : String) : List Entry → String
  | [] => initial
  | .processed rule :: rest =>
    match naming rule with
    | some (named, operation) => if named = job then operation else operationFor initial job rest
    | none => operationFor initial job rest
  | .sent _ :: rest => operationFor initial job rest

def processed (taken : List String) : List Entry := (taken.filter (· ≠ "")).reverse.map .processed

theorem lastProcessed_sent (rules : List EnforcementRule) (log : List Entry) :
    lastProcessed (rules.map .sent ++ log) = lastProcessed log := by
  induction rules with
  | nil => rfl
  | cons rule rules ih => exact ih

theorem inForce_sent (initial : String) (rules : List EnforcementRule) (log : List Entry) :
    inForce initial (rules.map .sent ++ log) = inForce initial log := by
  rw [inForce, lastProcessed_sent, inForce]

def Recorded (initial : String) : List Entry → Prop
  | [] => True
  | .processed _ :: rest => Recorded initial rest
  | .sent rule :: rest => rule.operation = inForce initial rest ∧ Recorded initial rest

namespace Recorded

variable {initial : String} {log : List Entry}

theorem sent {rules : List EnforcementRule} (h : Recorded initial log)
    (hrules : ∀ rule ∈ rules, rule.operation = inForce initial log) :
    Recorded initial (rules.map .sent ++ log) := by
  induction rules with
  | nil => exact h
  | cons rule rules ih =>
    refine ⟨?_, ih fun r hr => hrules r (List.mem_cons_of_mem _ hr)⟩
    exact (hrules rule List.mem_cons_self).trans (inForce_sent initial rules log).symm

theorem processed (h : Recorded initial log) (taken : List String) :
    Recorded initial (CoreControlApplication.processed taken ++ log) := by
  unfold CoreControlApplication.processed
  generalize (taken.filter (· ≠ "")).reverse = rules
  induction rules with
  | nil => exact h
  | cons rule rules ih => exact ih

theorem carried {later earlier : List Entry} {rule : EnforcementRule}
    (h : Recorded initial (later ++ .sent rule :: earlier)) : rule.operation = inForce initial earlier := by
  induction later with
  | nil => exact h.1
  | cons entry later ih =>
    cases entry with
    | processed r => exact ih h
    | sent r => exact ih h.2

end Recorded

theorem operationFor_of_none {initial job : String} {log : List Entry} (h : lastProcessed log = none) :
    operationFor initial job log = initial := by
  induction log with
  | nil => rfl
  | cons entry log ih =>
    cases entry with
    | processed rule => cases h
    | sent rule => exact ih h

theorem updateJobDemands_taken {operation : String} (h : updateJobDemands core = .ok (operation, core')) :
    ∃ taken, core.pendingRulesQueue = taken ++ core'.pendingRulesQueue ∧ core'.history = core.history ∧
      ∀ initial log, core.activeOp = inForce initial log →
        core'.activeOp = inForce initial (processed taken ++ log) := by
  unfold updateJobDemands at h
  split at h
  case h_1 =>
    cases h
    exact ⟨[], rfl, rfl, fun _ _ hop => hop⟩
  case h_2 rule rest hqueue =>
    dsimp only at h
    split at h
    case isTrue hempty =>
      cases h
      exact ⟨[rule], hqueue, rfl, fun _ _ hop => by simpa [processed, hempty] using hop⟩
    case isFalse hempty =>
      have hlast : ∀ initial log, inForce initial (processed [rule] ++ log) =
        ((naming rule).map Prod.snd).getD "" := by
        simp [processed, hempty, inForce, lastProcessed]
      obtain ⟨kind, hkind, h⟩ := Fault.bind_eq_ok.mp h
      split at h
      case isTrue hk =>
        simp only [Fault.bind_eq_ok] at h
        obtain ⟨job, hjob, op, hop, t, _, demand, _, h⟩ := h
        cases h
        refine ⟨[rule], hqueue, rfl, fun initial log _ => ?_⟩
        rw [hlast, (naming_eq hkind).1 job operation hk hjob hop]
        rfl
      case isFalse hk =>
        cases h
        refine ⟨[rule], hqueue, rfl, fun initial log _ => ?_⟩
        rw [hlast, (naming_eq hkind).2 hk]
        rfl

structure SamePolicy (core core' : CoreControlApplication) : Prop where
  pendingRulesQueue : core'.pendingRulesQueue = core.pendingRulesQueue
  activeOp : core'.activeOp = core.activeOp
  history : core'.history = core.history

structure Carries (taken : List String) (rules : List EnforcementRule) (core core' : CoreControlApplication) :
    Prop where
  queue : core.pendingRulesQueue = taken ++ core'.pendingRulesQueue
  activeOp : ∀ initial log, core.activeOp = inForce initial log →
    core'.activeOp = inForce initial (processed taken ++ log)
  history : core'.history = (rules.map .enforced).reverse ++ core.history
  carried : ∀ rule ∈ rules, rule.operation = core'.activeOp

theorem Turns.policy {operation : String} {apps : List (Σ _ : String, Locations)} {s t : Enforcement}
    (h : Turns operation apps s t) :
    t.1.pendingRulesQueue = s.1.pendingRulesQueue ∧ t.1.activeOp = s.1.activeOp := by
  induction h with
  | nil => exact ⟨rfl, rfl⟩
  | cons hturn _ ih =>
    cases hturn with
    | kept rates => exact ih
    | sent rates hsent => exact ⟨ih.1.trans hsent.pendingRulesQueue, ih.2.trans hsent.activeOp⟩

theorem Turns.carries {core₂ : CoreControlApplication} {operation : String} {updated : List String}
    {apps : List (Σ _ : String, Locations)} (h : Turns core₁.activeOp apps (core₂, []) (core', updated))
    (h₁ : updateJobDemands core = .ok (operation, core₁)) (hsame : SamePolicy core₁ core₂)
    (hnodup : (apps.map Sigma.fst).Nodup) : ∃ taken rules, Carries taken rules core core' := by
  obtain ⟨taken, hqueue, hhistory, hop⟩ := updateJobDemands_taken h₁
  obtain ⟨rules, hr⟩ := h.requests hnodup
  have hactive : core'.activeOp = core₁.activeOp := h.policy.2.trans hsame.activeOp
  refine ⟨taken, rules, ?_, fun initial log hl => hactive.trans (hop initial log hl), ?_, fun rule hrule => ?_⟩
  · rw [hqueue, ← hsame.pendingRulesQueue, ← h.policy.1]
  · rw [← hhistory, ← hsame.history]
    exact hr.history
  · rw [hr.operation rule hrule, hactive]

theorem computeAndEnforceStaticRules_carries {updated : List String}
    (h : computeAndEnforceStaticRules core = .ok (core', updated)) :
    ∃ taken rules, Carries taken rules core core' := by
  obtain ⟨operation, core₁, flag, h₁, _, ⟨_, rfl, rfl⟩ | ⟨_, hfold⟩⟩ := computeAndEnforceStaticRules_cases h
  · exact (Turns.nil _).carries h₁ ⟨rfl, rfl, rfl⟩ List.nodup_nil
  · have hsame : SamePolicy core₁ (ratesFromDemands { core₁ with changeInSystem := flag }) := by
      rw [ratesFromDemands_frame]
      exact ⟨rfl, rfl, rfl⟩
    exact (turns_of_foldlM (fun _ _ _ => enforceStatic_turn) hfold).carries h₁ hsame
      core.jobLocationTracker.keys_nodup

theorem computeAndEnforceDynamicVanillaRules_carries {updated : List String}
    (h : computeAndEnforceDynamicVanillaRules core = .ok (core', updated)) :
    ∃ taken rules, Carries taken rules core core' := by
  obtain ⟨operation, core₁, h₁, ⟨_, rfl, rfl⟩ | ⟨_, core₂, left, _, hframe, hfold⟩⟩ :=
    computeAndEnforceDynamicVanillaRules_cases h
  · exact (Turns.nil _).carries h₁ ⟨rfl, rfl, rfl⟩ List.nodup_nil
  · have hsame : SamePolicy core₁ core₂ := by
      rw [hframe]
      exact ⟨rfl, rfl, rfl⟩
    exact (turns_of_foldlM (fun _ _ _ => enforceVanilla_turn) hfold).carries h₁ hsame
      core.jobLocationTracker.keys_nodup

theorem computeAndEnforceDynamicLeftoverRules_carries {dStats : Assoc String Rates}
    {sessionsSent updated : List String}
    (h : computeAndEnforceDynamicLeftoverRules dStats sessionsSent core = .ok (core', updated)) :
    ∃ taken rules, Carries taken rules core core' := by
  obtain ⟨operation, core₁, h₁, ⟨_, rfl, rfl⟩ | ⟨_, core₂, usage, core₃, _, _, hframe, hfold⟩⟩ :=
    computeAndEnforceDynamicLeftoverRules_cases h
  · exact (Turns.nil _).carries h₁ ⟨rfl, rfl, rfl⟩ List.nodup_nil
  · have hsame : SamePolicy core₁ core₃ := by
      rw [hframe]
      exact ⟨rfl, rfl, rfl⟩
    exact (turns_of_foldlM (fun _ _ _ => enforceLeftover_turn) hfold).carries h₁ hsame
      core.jobLocationTracker.keys_nodup

theorem computeAndEnforce_carries {dStats : Assoc String Rates} {sessionsSent updated : List String}
    (h : computeAndEnforce dStats sessionsSent core = .ok (core', updated)) :
    ∃ taken rules, Carries taken rules core core' := by
  unfold computeAndEnforce at h
  split at h
  · exact computeAndEnforceStaticRules_carries h
  · exact computeAndEnforceDynamicVanillaRules_carries h
  · exact computeAndEnforceDynamicLeftoverRules_carries h
  all_goals
    cases h
    exact ⟨[], [], rfl, fun _ _ hop => hop, rfl, by simp⟩

structure Steady (core core' : CoreControlApplication) : Prop where
  queue : core.pendingRulesQueue <+: core'.pendingRulesQueue
  activeOp : core'.activeOp = core.activeOp
  history : ∃ events, core'.history = events ++ core.history ∧ ∀ event ∈ events, event.sends = false

theorem SamePolicy.steady (h : SamePolicy core core') : Steady core core' :=
  ⟨h.pendingRulesQueue ▸ List.prefix_rfl, h.activeOp, [], h.history, by simp⟩

end CoreControlApplication

namespace FeedbackLoop

open CoreControlApplication

variable {p q : Process} {allowed : Process → Action → Prop}

theorem Takes.samePolicy {address rule : String} {response : StageResponse} {core : CoreControlApplication}
    (h : Takes p address rule response core) : SamePolicy p.core core := by
  rw [h.tables]
  exact ⟨rfl, rfl, rfl⟩

theorem LoopStep.steady (h : LoopStep p q) : Steady p.core q.core ∨ ∃ dStats core updated,
    computeAndEnforce dStats p.sessionsSent p.core = .ok (core, updated) ∧
      q.core = { core with history := .computed :: core.history } := by
  cases h with
  | computed dStats core updated hpoint h => exact .inr ⟨dStats, core, updated, h, rfl⟩
  | handshaken address rule response core hpoint htakes =>
    obtain ⟨hqueue, hop, hhistory⟩ := htakes.samePolicy
    exact .inl (SamePolicy.steady ⟨hqueue, hop, hhistory⟩)
  | stageTaken info rest session hpoint hpending hqueue hsession =>
    refine .inl ?_
    obtain ⟨_, _, _, hframe⟩ := emplaceJob_frame info.stageName { p.core with
      localToDataQueue := rest
      pendingDataPlaneSessions := p.core.pendingDataPlaneSessions - 1 }
    unfold registerStage
    rw [hframe]
    exact ⟨List.prefix_rfl, rfl, [.registered info], rfl, by simp [Event.sends]⟩
  | marked info rule response core hpoint htakes =>
    obtain ⟨hqueue, hop, hhistory⟩ := htakes.samePolicy
    exact .inl (SamePolicy.steady ⟨hqueue, hop, hhistory⟩)
  | control hpoint h =>
    obtain ⟨sessions, hcore, _⟩ := h.tables
    rw [hcore]
    exact .inl (SamePolicy.steady ⟨rfl, rfl, rfl⟩)
  | collectResult address rule rest collection collection' response core core' hpoint hcollects htakes h =>
    obtain ⟨hqueue, hop, hhistory⟩ := htakes.samePolicy
    have hf := collectStatisticsResult_forgets h
    obtain ⟨infos, hinfos, _⟩ := hf.events
    refine .inl ⟨?_, ?_, infos.map .removed, hinfos.trans (by rw [hhistory]), by simp [Event.sends]⟩
    · have hkept : core'.pendingRulesQueue = p.core.pendingRulesQueue := by rw [hf.frame, hqueue]
      exact hkept ▸ List.prefix_rfl
    · rw [hf.frame, hop]
  | collectFault address rule rest collection response core fault hpoint hcollects htakes h =>
    exact .inl htakes.samePolicy.steady
  | enforced job address rule rest response core hpoint htakes => exact .inl htakes.samePolicy.steady
  | _ => exact .inl (SamePolicy.steady ⟨rfl, rfl, rfl⟩)

theorem Step.steady {action : Action} (h : Step p action q) : Steady p.core q.core ∨ ∃ dStats core updated,
    computeAndEnforce dStats p.sessionsSent p.core = .ok (core, updated) ∧
      q.core = { core with history := .computed :: core.history } := by
  cases h with
  | loop h => exact h.steady
  | enqueueRule rule => exact .inl ⟨List.prefix_append _ _, rfl, [], rfl, by simp⟩
  | _ => exact .inl (SamePolicy.steady ⟨rfl, rfl, rfl⟩)

structure Audit where
  initialOp : String
  log : List Entry

def entryOf : Event → Option Entry
  | .enforced rule => some (.sent rule)
  | _ => none

def added (p q : Process) : List Entry :=
  (q.core.history.take (q.core.history.length - p.core.history.length)).filterMap entryOf ++
    processed (p.core.pendingRulesQueue.take
    (p.core.pendingRulesQueue.length - q.core.pendingRulesQueue.length))

def audit : Machine (Process × Audit) Action :=
  machine.observed (fun p => ⟨p.core.activeOp, []⟩) fun p q w => ⟨w.initialOp, added p q ++ w.log⟩

theorem audit_reach_iff : (∃ w, audit.Reach (fun s => allowed s.1) (p, w)) ↔ machine.Reach allowed p :=
  Machine.reach_observed_iff

theorem added_of_steady (h : Steady p.core q.core) : added p q = [] := by
  obtain ⟨⟨queued, hqueue⟩, _, events, hhistory, hsends⟩ := h
  have hnone : events.filterMap entryOf = [] := by
    rw [List.filterMap_eq_nil_iff]
    intro event hevent
    cases event with
    | enforced rule => cases hsends _ hevent
    | _ => rfl
  simp [added, ← hqueue, hhistory, hnone, processed]

theorem added_of_carries {taken : List String} {rules : List EnforcementRule} {core : CoreControlApplication}
    (h : Carries taken rules p.core core) (hq : q.core = { core with history := .computed :: core.history }) :
    added p q = rules.reverse.map .sent ++ processed taken := by
  have hsent : (rules.map Event.enforced).reverse.filterMap entryOf = rules.reverse.map .sent := by
    rw [← List.map_reverse, List.filterMap_map]
    exact congrFun (List.filterMap_eq_map (f := Entry.sent)) _
  have hhistory : q.core.history = (.computed :: (rules.map .enforced).reverse) ++ p.core.history := by
    rw [hq, List.cons_append, ← h.history]
  have hqueue : p.core.pendingRulesQueue = taken ++ q.core.pendingRulesQueue := by
    rw [hq]
    exact h.queue
  rw [added, hhistory, hqueue, List.length_append, Nat.add_sub_cancel, List.take_left,
    List.length_append, Nat.add_sub_cancel, List.take_left, ← hsent]
  rfl

structure Audited (p : Process) (w : Audit) : Prop where
  initialOp : w.initialOp ≠ ""
  activeOp : p.core.activeOp = inForce w.initialOp w.log
  recorded : Recorded w.initialOp w.log

theorem Audited.step {w : Audit} {action : Action} (h : Step p action q) (hp : Audited p w) :
    Audited q ⟨w.initialOp, added p q ++ w.log⟩ := by
  rcases h.steady with hsteady | ⟨dStats, core, updated, hc, hq⟩
  · rw [added_of_steady hsteady]
    exact ⟨hp.initialOp, hsteady.activeOp.trans hp.activeOp, hp.recorded⟩
  · obtain ⟨taken, rules, hcarries⟩ := computeAndEnforce_carries hc
    have hop := hcarries.activeOp _ _ hp.activeOp
    rw [added_of_carries hcarries hq]
    refine ⟨hp.initialOp, ?_, ?_⟩
    · dsimp only
      rw [List.append_assoc, inForce_sent, hq]
      exact hop
    · dsimp only
      rw [List.append_assoc]
      refine (hp.recorded.processed taken).sent fun rule hrule => ?_
      rw [hcarries.carried rule (List.mem_reverse.mp hrule), hop]

theorem audited_reach (allowed : Process → Action → Prop) {s : Process × Audit}
    (h : audit.Reach (fun s => allowed s.1) s) : Audited s.1 s.2 := by
  refine Machine.Reach.observed_invariant (m := machine) (I := Audited) ?_
    (fun p q action w hp _ hstep => Audited.step (step_cases hstep) hp) h
  rintro p ⟨controlType, rules, limit, hash, core, hops, rfl⟩
  exact ⟨initializeOps_activeOp hops, rfl, trivial⟩

theorem policies_reach_operation_iff {s : Process × Audit} (h : audit.Reach (fun _ _ => True) s)
    {later earlier : List Entry} {rule : EnforcementRule} (hlog : s.2.log = later ++ .sent rule :: earlier) :
    (rule.operation ≠ "" ∧ rule.operation = operationFor s.2.initialOp rule.appName earlier) ↔
      ∀ last, lastProcessed earlier = some last →
        (naming last).map Prod.snd = some (operationFor s.2.initialOp rule.appName earlier) := by
  obtain ⟨hinitial, _, hrecorded⟩ := audited_reach (fun _ _ => True) h
  rw [hlog] at hrecorded
  rw [hrecorded.carried, inForce]
  cases hlast : lastProcessed earlier with
  | none =>
    rw [operationFor_of_none hlast]
    simp [hinitial]
  | some last =>
    cases hnaming : naming last with
    | none => simp [hnaming]
    | some named =>
      obtain ⟨job, operation⟩ := named
      simp [hnaming, naming_ne_empty hnaming]

def auditRun (controlType : ControlType) (rule : String) : Option (Process × Audit) :=
  let rules := ["4|1|create_channel|1000|posix|1000|data|no_op|"]
  match (CoreControlApplication.new controlType rules 1000 .id).initializeOps with
  | .ok core => audit.exec (fun _ _ => True) (Process.start core, ⟨core.activeOp, []⟩)
      (firstController ++ [.loop, .enqueueRule rule, .enqueueStage ⟨"tensor", 1, "u", "A"⟩, .countStage, .loop,
        .serve "A" ⟨1, ∅⟩, .loop, .loop, .loop, .serve "A" ⟨0, AList.singleton "tensor+1" 5⟩, .loop, .loop,
        .loop])
  | .error _ => none

theorem reach_of_auditRun {controlType : ControlType} {rule : String} {s : Process × Audit}
    (h : auditRun controlType rule = some s) : audit.Reach (fun _ _ => True) s := by
  unfold auditRun at h
  dsimp only at h
  split at h
  case h_1 core hops =>
    have hstart : audit.start (Process.start core, ⟨core.activeOp, []⟩) := ⟨⟨_, _, _, _, core, hops, rfl⟩, rfl⟩
    exact Machine.Reach.exec (.start hstart) h
  case h_2 => cases h

theorem policies_reach_operation_job_rule :
    ∃ s, audit.Reach (fun _ _ => True) s ∧ ∃ rule earlier, s.2.log = [] ++ .sent rule :: earlier ∧
      ((rule.operation ≠ "" ∧ rule.operation = operationFor s.2.initialOp rule.appName earlier) ↔
        ∀ last, lastProcessed earlier = some last →
          (naming last).map Prod.snd = some (operationFor s.2.initialOp rule.appName earlier)) := by
  obtain ⟨s, hs, hlog⟩ := Machine.exists_of_any (P := fun s => s.2.log =
      [] ++ .sent ⟨"tensor", "read", AList.singleton "A" [1], 1000⟩ :: [.processed "|1|job|tensor|read|1000|"])
    (show (auditRun .static "|1|job|tensor|read|1000|").any _ = true by decide)
  exact ⟨s, reach_of_auditRun hs, _, _, hlog, policies_reach_operation_iff (reach_of_auditRun hs) hlog⟩

theorem policy_without_operation :
    ∃ s, audit.Reach (fun _ _ => True) s ∧ s.1.core.controlType = .dynamicVanilla ∧
      ∃ rule earlier, s.2.log = [] ++ .sent rule :: earlier ∧
      earlier = [.processed "|1|user|user1|total|1000|"] ∧
        rule.appName = "tensor" ∧
        ¬ (rule.operation ≠ "" ∧ rule.operation = operationFor s.2.initialOp rule.appName earlier) := by
  obtain ⟨s, hs, htype, hlog⟩ := Machine.exists_of_any (P := fun s => s.1.core.controlType = .dynamicVanilla ∧
      s.2.log = [] ++ .sent ⟨"tensor", "", AList.singleton "A" [1], 1000⟩ ::
      [.processed "|1|user|user1|total|1000|"])
    (show (auditRun .dynamicVanilla "|1|user|user1|total|1000|").any _ = true by decide)
  exact ⟨s, reach_of_auditRun hs, htype, _, _, hlog, rfl, rfl, by simp⟩

end FeedbackLoop

end Cheferd
