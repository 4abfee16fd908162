import Cheferd.RuleRelay

namespace Cheferd.ControlPlane

open Library Library.Membership CoreControlApplication LocalControllerSession FeedbackLoop

variable {p q : FeedbackLoop.Process} {core core' : CoreControlApplication}
    {process : LocalFeedbackLoop.LocalProcess}
  {a : String} {instructions : List Instruction} {session : LocalControllerSession} {rest : List String}

structure Waiting (core : CoreControlApplication) (address : String)
    (instructions : List Instruction) : Prop where
  requests : queued core address = instructions.map (Instruction.request address)
  logged : instructions <:+ instructionsTo address core.history
  tracked : ∀ rule, .enforce rule ∈ instructions →
    core.jobLocationTracker.lookup rule.appName = some rule.localToEnvs
  plain : ∀ info, .ready info ∈ instructions → '|' ∉ info.key.toList

namespace Waiting

variable {rule : String}

theorem kept (h : Waiting core a instructions) (hqueued : queued core' a = queued core a)
    (hhistory : core'.history = core.history) (htracker : core'.jobLocationTracker = core.jobLocationTracker) :
    Waiting core' a instructions :=
  ⟨hqueued.trans h.requests, hhistory ▸ h.logged, fun rule hr => htracker ▸ h.tracked rule hr, h.plain⟩

theorem tells {told : List Instruction} (h : Waiting p.core a instructions) (ht : Tells p q a told) :
    Waiting q.core a (instructions ++ told) := by
  refine ⟨by rw [ht.queue, h.requests, List.map_append], ?_, fun rule hr => ?_, fun info hi => ?_⟩
  · obtain ⟨done, hlog⟩ := h.logged
    exact ⟨done, by rw [ht.log, ← hlog, List.append_assoc]⟩
  · rcases List.mem_append.mp hr with hr | hr
    · rcases ht.tracker with htracker | hnil
      · rw [htracker]
        exact h.tracked rule hr
      · rw [h.requests, List.map_eq_nil_iff] at hnil
        rw [hnil] at hr
        cases hr
    · exact ht.enforce rule hr
  · rcases List.mem_append.mp hi with hi | hi
    · exact h.plain info hi
    · exact (ht.ready info hi).2

theorem next (h : Waiting core a instructions) (hsession : core.localSessions.lookup a = some session)
    (hqueue : session.submissionQueue = rule :: rest) (hinstructs : Instructs rule) :
    ∃ instruction instructions',
      instructions = instruction :: instructions' ∧ instruction.request a = rule ∧
      instructions'.map (Instruction.request a) = rest.filter (Instructs ·) := by
  have hrequests := h.requests
  rw [queued, sessionOf_of_lookup hsession, hqueue, List.filter_cons, if_pos (decide_eq_true hinstructs)]
    at hrequests
  exact List.map_eq_cons_iff.mp hrequests.symm

theorem served {instruction : Instruction} (h : Waiting core a (instruction :: instructions))
    (hrest : instructions.map (Instruction.request a) = rest.filter (Instructs ·))
    (completionQueue : List (String × StageResponse)) :
    Waiting { core with localSessions := core.localSessions.insert a ⟨rest, completionQueue⟩ }
      a instructions := by
  refine ⟨?_, (List.suffix_cons _ _).trans h.logged, fun rule hr => h.tracked rule (List.mem_cons_of_mem _ hr),
    fun info hi => h.plain info (List.mem_cons_of_mem _ hi)⟩
  rw [hrest, queued, sessionOf_of_lookup (AList.lookup_insert _)]

theorem silent (h : Waiting core a instructions) (hsession : core.localSessions.lookup a = some session)
    (hqueue : session.submissionQueue = rule :: rest) (hnot : ¬ Instructs rule)
    (completionQueue : List (String × StageResponse)) :
    Waiting { core with localSessions := core.localSessions.insert a ⟨rest, completionQueue⟩ }
      a instructions := by
  refine h.kept ?_ rfl rfl
  rw [queued, sessionOf_of_lookup (AList.lookup_insert _), queued, sessionOf_of_lookup hsession, hqueue,
    List.filter_cons_of_neg (by simpa using hnot)]

end Waiting

theorem outstanding_single {rule other : String} (h : session.outstanding = [other])
    (hqueue : session.submissionQueue = rule :: rest) : rule = other ∧ rest = [] := by
  rw [LocalControllerSession.outstanding, hqueue] at h
  have hlength := congrArg List.length h
  simp only [List.length_append, List.length_map, List.length_cons, List.length_nil] at hlength
  rw [List.eq_nil_of_length_eq_zero (by omega : session.completionQueue.length = 0)] at h
  simpa using h

theorem awaited_cases {rule : String} (h : p.Awaited a session.outstanding)
    (hqueue : session.submissionQueue = rule :: rest) :
    p.point = .localHandshake a ∧ rule = p.core.localHandshakeRule ∨
      (∃ info, p.point = .markReady info ∧ a = info.localAddress ∧ rule = stageReadyRule info ∧ rest = []) ∨
      rule = collectStatisticsRule 5 ∨
      (∃ todo, p.point = .enforce todo) ∧ operationType rule = some 6 := by
  have hrule : rule ∈ session.outstanding := by simp [LocalControllerSession.outstanding, hqueue]
  unfold Process.Awaited at h
  split at h
  case h_1 address hpoint =>
    split at h
    case isTrue ha => exact .inl ⟨by rw [hpoint, ha], (outstanding_single h hqueue).1⟩
    case isFalse => rw [h] at hrule; cases hrule
  case h_2 info hpoint =>
    split at h
    case isTrue ha => exact .inr (.inl ⟨info, hpoint, ha, outstanding_single h hqueue⟩)
    case isFalse => rw [h] at hrule; cases hrule
  case h_3 todo collection hpoint =>
    split at h
    case isTrue => exact .inr (.inr (.inl (outstanding_single h hqueue).1))
    case isFalse => rw [h] at hrule; cases hrule
  case h_4 todo hpoint => exact .inr (.inr (.inr ⟨⟨todo, hpoint⟩, h.1 rule hrule⟩))
  case h_5 => rw [h] at hrule; cases hrule

theorem held_of_listed (hagreed : (link core process a).Agreed)
    (hrequests : ∀ rule ∈ (sessionOf core a).submissionQueue, requestOf rule = .other)
    (hanswers : ∀ e ∈ (sessionOf core a).completionQueue, answerOf e.2 = .other) {key : String}
    (hkey : key ∈ core.stagesOf a) : key ∈ process.app.dataSessions := by
  rcases (hagreed.listed_iff key).mp hkey with hheld | hready | ⟨members, dead, hreport, _⟩
  · exact hheld
  · obtain ⟨rule, hrule, hrequest⟩ := List.mem_map.mp hready
    rw [hrequests rule hrule] at hrequest
    cases hrequest
  · obtain ⟨e, he, hanswer⟩ := List.mem_map.mp hreport
    rw [hanswers e he] at hanswer
    cases hanswer

theorem keys_listed {rule : EnforcementRule} (hagreement : core.registry.Agreement)
    (htracker : core.jobLocationTracker.lookup rule.appName = some rule.localToEnvs) (a : String) :
    (rule.envs a).Nodup ∧ ∀ key ∈ rule.keys a, key ∈ core.stagesOf a := by
  have henvs : core.registry.envs rule.appName a = rule.envs a := envsOf_lookup htracker
  refine ⟨henvs ▸ hagreement.envs_nodup rule.appName a, fun key hkey => ?_⟩
  obtain ⟨env, henv, rfl⟩ := List.mem_map.mp hkey
  rw [← henvs] at henv
  exact (hagreement.stages_iff_infos a _).mpr ((hagreement.infos_iff_envs _ _ _).mpr henv)

theorem keys_held {todo : List (String × String)} (hpoint : p.point = .enforce todo) (hd : Drained p)
    (hagreement : p.registry.Agreement) (hagreed : (link p.core process a).Agreed)
    (hsession : p.core.localSessions.lookup a = some session) {rule : EnforcementRule}
    (htracker : p.core.jobLocationTracker.lookup rule.appName = some rule.localToEnvs) :
    (rule.envs a).Nodup ∧ ∀ key ∈ rule.keys a, key ∈ process.app.dataSessions := by
  have hregistry : p.registry = p.core.registry := registry_eq (by simp [hpoint])
  obtain ⟨hnodup, hlisted⟩ := keys_listed (hregistry ▸ hagreement) htracker a
  have hawaited := hd.awaited a session hsession
  rw [Process.Awaited, hpoint] at hawaited
  have hothers : ∀ rule ∈ session.outstanding, requestOf rule = .other := fun rule hr =>
    requestOf_other (by rw [hawaited.1 rule hr]; decide) (by rw [hawaited.1 rule hr]; decide)
  refine ⟨hnodup, fun key hkey => held_of_listed hagreed (fun rule hr => ?_) (fun e he => ?_)
    (hlisted key hkey)⟩
  · rw [sessionOf_of_lookup hsession] at hr
    exact hothers rule (List.mem_append_right _ hr)
  · rw [sessionOf_of_lookup hsession] at he
    refine answerOf_ack (hd.answered a session hsession e he) ?_
    rw [hawaited.1 e.1 (List.mem_append_left _ (List.mem_map_of_mem he))]
    decide

variable {s t : ControlPlane}

theorem Orderly.unlisted (h : Orderly s (.core .loop)) (hagreement : s.core.registry.Agreement) :
    s.core.point = .stages → s.core.core.pendingDataPlaneSessions > 0 →
      ∀ info ∈ s.core.core.localToDataQueue.head?, ∀ address, info.key ∉ s.core.core.stagesOf address := by
  intro hpoint hpending info hinfo address hlisted
  have hregistry : s.core.registry = s.core.core.registry := registry_eq (by simp [hpoint])
  obtain ⟨other, hother, _⟩ := ((hregistry ▸ hagreement).stages_iff_infos address info.key).mp hlisted
  exact h.2.1 hpoint hpending info hinfo (AList.lookup_isSome.mp (Option.isSome_iff_exists.mpr ⟨other, hother⟩))

theorem Step.waiting {action : Action} (h : Step s action t) (hguard : Orderly s action) (hnamed : s.Named)
    (hd : Drained s.core) (hagreement : s.core.registry.Agreement) (halive : ¬ t.core.Crashed)
    (htype : s.core.core.controlType ≠ .dynamicLeftover) (hw : Waiting s.core.core a instructions) :
    ∃ instructions', Waiting t.core.core a instructions' := by
  cases h with
  | core action core hserve hstage h =>
    cases FeedbackLoop.step_cases h with
    | served address reply session session' hsession h => exact absurd rfl (hserve address reply)
    | enqueueStage info => exact absurd rfl (hstage info)
    | loop h =>
      obtain ⟨told, ht⟩ := loopStep_tells h halive hd htype hnamed.announced (hguard.unlisted hagreement) a
      exact ⟨_, hw.tells ht⟩
    | _ => exact ⟨_, hw.kept rfl rfl rfl⟩
  | served address rule rest outside app reply session hsession hqueue hcall =>
    by_cases ha : a = address
    · subst ha
      by_cases hinstructs : Instructs rule
      · obtain ⟨instruction, instructions', rfl, -, hrest⟩ := hw.next hsession hqueue hinstructs
        exact ⟨instructions', hw.served hrest _⟩
      · exact ⟨_, hw.silent hsession hqueue hinstructs _⟩
    · exact ⟨_, hw.kept (queued_congr (sessionOf_congr (AList.lookup_insert_ne ha))) rfl rfl⟩
  | stage address action process h hquiet => exact ⟨_, hw⟩
  | announced address info acknowledged ready hpoint => exact ⟨_, hw.kept rfl rfl rfl⟩

theorem waiting_reach (h : machine.Reach Orderly s) (htype : s.core.core.controlType ≠ .dynamicLeftover)
    (a : String) :
    ∃ instructions, Waiting s.core.core a instructions := by
  induction h with
  | @start s h =>
    obtain ⟨_, _, _, _, core, hops, hcore⟩ := h.1
    obtain ⟨ops, op, rfl⟩ := initializeOps_ok hops
    rw [hcore]
    exact ⟨[], rfl, List.nil_suffix, fun rule hr => absurd hr List.not_mem_nil,
      fun info hi => absurd hi List.not_mem_nil⟩
  | @step s t action hreach hguard hstep ih =>
    have hs := step_cases hstep
    have htype' : s.core.core.controlType ≠ .dynamicLeftover := by
      rcases hs.core_step with he | ⟨coreAction, he⟩
      · exact he ▸ htype
      · exact (FeedbackLoop.step_cases he).configured.controlType ▸ htype
    have hdistinct : machine.Reach PlainKeys s := hreach.mono fun _ _ => And.left
    have hsound := sound_reach hreach htype'
    have halive := alive_reach hsound
    have halive' := alive_reach (sound_reach (hreach.step hguard hstep) htype)
    obtain ⟨instructions, hw⟩ := ih htype'
    exact hs.waiting hguard ((agreed_reach hdistinct htype').resolve_left halive).1
      ((drained_reach (core_reach hreach) htype').resolve_left halive) (secure_reach hsound halive).agreement
      halive' htype' hw

def demandedRule : EnforcementRule := ⟨"j", "data", AList.singleton "A" [1], 50⟩

theorem demandedRule_writable : demandedRule.Writable := by
  refine ⟨by decide, by decide, fun address env henv => ?_, by decide⟩
  rw [EnforcementRule.envs, show demandedRule.localToEnvs = (∅ : Locations).insert "A" [1] from rfl,
    Assoc.lookup_insert_eq] at henv
  split at henv
  · rw [List.mem_singleton.mp henv]
    decide
  · cases henv

def demandedRound : List Action :=
  .core (.enqueueRule "|1|job|j|data|50|") :: (firstRound (reporting fun _ => 7)).take 21 ++
    [.core .loop, .core .loop, .core .loop]

end Cheferd.ControlPlane
