import Cheferd.DrainedSessions
import Cheferd.Library.Membership
import Cheferd.LocalMembership

namespace Cheferd.ControlPlane

open Library Library.Membership CoreControlApplication FeedbackLoop Strings
open LocalFeedbackLoop (offeredBy)

variable {p q : FeedbackLoop.Process}

def requestOf (rule : String) : Request String :=
  match LocalControllerSession.operationType rule with
  | some 1 =>
    match (parseRule '|' rule)[1]? with
    | some key => .ready key
    | none => .other
  | some 3 => .report
  | _ => .other

def answerOf : StageResponse → Answer String
  | .ack _ _ | .handshake _ => .other
  | .stats _ rates => .report {k | k ∈ rates} {k | rates.lookup k = some (-1)}

def link (core : CoreControlApplication) (process : LocalFeedbackLoop.LocalProcess) (address : String) :
    Link String where
  listed := {k | k ∈ core.stagesOf address}
  announced := (core.localToDataQueue.filter (·.localAddress = address)).map StageInfo.key
  requests := (sessionOf core address).submissionQueue.map requestOf
  answers := (sessionOf core address).completionQueue.map (answerOf ·.2)
  held := {k | k ∈ process.app.dataSessions}
  preparing := {k | k ∈ process.app.preparingDataSessions}
  offered := (offeredBy process.point).map StageInfo.key

def view (s : ControlPlane) (address : String) : Link String := link s.core.core (s.locals address) address

theorem stageKey_ne_empty (name : String) (env : ℤ) : stageKey name env ≠ "" := by
  intro h
  have := congrArg (fun s : String => s.toList.length) h
  simp [stageKey] at this

theorem requestOf_stageReady {info : StageInfo} (h : '|' ∉ info.key.toList) :
    requestOf (stageReadyRule info) = .ready info.key := by
  have hparse : parseRule '|' (stageReadyRule info) = ["1", info.key] := by
    have hone : toString (1 : ℤ) = "1" := by decide
    rw [stageReadyRule, hone, String.append_assoc, String.append_assoc, parseRule_append '|' "|" _ _ rfl,
      ← String.append_empty (s := "|"), parseRule_append '|' "|" _ _ rfl, parseRule_nil,
      parseRule_single '|' "1" (by decide) (by decide), parseRule_single '|' _ h (stageKey_ne_empty _ _)]
    rfl
  rw [requestOf, operationType_stageReady, hparse]
  rfl

theorem requestOf_other {rule : String} (h1 : LocalControllerSession.operationType rule ≠ some 1)
    (h3 : LocalControllerSession.operationType rule ≠ some 3) : requestOf rule = .other := by
  unfold requestOf
  split
  · exact absurd ‹_› h1
  · exact absurd ‹_› h3
  · rfl

theorem requestOf_collectStatistics (subtype : ℤ) : requestOf (collectStatisticsRule subtype) = .report := by
  unfold requestOf
  simp only [operationType_collectStatistics]

theorem answerOf_ack {rule : String} {response : StageResponse}
    (h : LocalControllerSession.Answers rule response)
    (h3 : LocalControllerSession.operationType rule ≠ some 3) : answerOf response = .other := by
  obtain ⟨reply, h⟩ := h
  cases response with
  | ack responseType value => rfl
  | handshake responseType => rfl
  | stats responseType rates => exact absurd (sendRule_stats h) h3

variable {core core' : CoreControlApplication} {process : LocalFeedbackLoop.LocalProcess} {a : String}

theorem link_eq (hstages : core'.stagesOf a = core.stagesOf a)
    (hqueue : core'.localToDataQueue.filter (·.localAddress = a) =
      core.localToDataQueue.filter (·.localAddress = a))
    (hsession : sessionOf core' a = sessionOf core a) : link core' process a = link core process a := by
  simp only [link, hstages, hqueue, hsession]

theorem sessionOf_new (h : ∀ session, core.localSessions.lookup a = some session → session.outstanding = []) :
    sessionOf core a = .new := by
  cases hl : core.localSessions.lookup a with
  | none => rw [sessionOf, hl, Option.getD_none]
  | some session =>
    obtain ⟨hc, hs⟩ := List.append_eq_nil_iff.mp (h session hl)
    obtain ⟨submissionQueue, completionQueue⟩ := session
    have hc : completionQueue = [] := List.map_eq_nil_iff.mp hc
    rw [sessionOf_of_lookup hl, LocalControllerSession.new, hc, show submissionQueue = [] from hs]

theorem quiet_of_new (h : sessionOf core a = .new) : (link core process a).Quiet := by
  simp only [Link.Quiet, link, h, LocalControllerSession.new, List.map_nil, and_self]

theorem link_tell (hnew : sessionOf core a = .new) (hstages : core'.stagesOf a = core.stagesOf a)
    (hqueue : core'.localToDataQueue = core.localToDataQueue)
    (hanswers : (sessionOf core' a).completionQueue = [])
    (hother : ∀ rule ∈ (sessionOf core' a).submissionQueue, requestOf rule = .other) :
    (link core process a).Step (link core' process a) := by
  have hlink : link core' process a = { link core process a with
      requests := (sessionOf core' a).submissionQueue.map requestOf } := by
    simp only [link, hstages, hqueue, hanswers, hnew, LocalControllerSession.new]
  rw [hlink]
  refine .tell _ (quiet_of_new hnew) fun r hr => ?_
  obtain ⟨rule, hrule, rfl⟩ := List.mem_map.mp hr
  exact hother rule hrule

theorem link_receive {address rule : String} {response : StageResponse} (h : Takes p address rule response core)
    (hother : answerOf response = .other) (hsessions : core'.localSessions = core.localSessions)
    (hstages : core'.localToStages = core.localToStages)
    (hqueue : core'.localToDataQueue = core.localToDataQueue)
    (process : LocalFeedbackLoop.LocalProcess) (a : String) :
    link core' process a = link p.core process a ∨ (link p.core process a).Step (link core' process a) := by
  have hstages' : core'.stagesOf a = p.core.stagesOf a := by
    rw [stagesOf, hstages, h.tables, stagesOf]
  have hqueue' : core'.localToDataQueue = p.core.localToDataQueue := by rw [hqueue, h.tables]
  have hsame : sessionOf core' a = sessionOf core a := sessionOf_congr (by rw [hsessions])
  obtain ⟨session', hcompletion, hsubmission, hsession⟩ := takes_sessionOf h a
  rw [hsession] at hsame
  by_cases ha : a = address
  · subst ha
    rw [if_pos rfl] at hsame
    have hlink : link core' process a = { link p.core process a with
        answers := session'.completionQueue.map (answerOf ·.2) } := by
      simp only [link, hstages', hqueue', hsame, hsubmission]
    right
    rw [hlink]
    refine .receive _ ?_
    simp only [link, hcompletion, List.map_cons, hother]
  · rw [if_neg ha] at hsame
    exact .inl (link_eq hstages' (by rw [hqueue']) hsame)

theorem Drained.sessionOf_new (hd : Drained p)
    (hquiet : ∀ outstanding, p.Awaited a outstanding → outstanding = []) :
    sessionOf p.core a = .new :=
  ControlPlane.sessionOf_new fun session hs => hquiet _ (hd.awaited a session hs)

theorem mem_deadKeys {rates : Rates} {k : String} :
    k ∈ deadKeys rates.entries ↔ rates.lookup k = some (-1) := by
  rw [← Option.mem_def, AList.mem_lookup_iff]
  constructor
  · intro h
    obtain ⟨e, he, rfl⟩ := List.mem_map.mp h
    obtain ⟨he, hrate⟩ := List.mem_filter.mp he
    have hrate : e.2 = -1 := by simpa using hrate
    rw [← hrate]
    exact he
  · exact fun h => List.mem_map.mpr ⟨⟨k, -1⟩, List.mem_filter.mpr ⟨h, by simp⟩, rfl⟩

theorem mem_stages_purged {stages stages' : List String} {rates : Rates} (hcore : core.stagesOf a = stages)
    (hstages : stages' = stages.filter (· ∉ core.deadOf a rates)) (k : String) :
    k ∈ stages' ↔ k ∈ stages ∧ {k | k ∈ rates}.Nonempty ∧ k ∉ {k | rates.lookup k = some (-1)} := by
  subst hstages hcore
  rw [List.mem_filter, deadOf]
  by_cases hnil : rates.entries = []
  · have hempty : ¬ {k | k ∈ rates}.Nonempty := by
      rintro ⟨x, hx⟩
      exact absurd (AList.lookup_isSome.mpr hx) (by rw [Assoc.lookup_of_entries_nil hnil]; decide)
    rw [if_pos hnil]
    simp only [hempty, false_and, and_false, iff_false, decide_eq_true_eq, not_and, not_not]
    exact fun hk => hk
  · have hne : {k | k ∈ rates}.Nonempty := by
      obtain ⟨e, he⟩ := List.exists_mem_of_ne_nil _ hnil
      exact ⟨e.1, AList.mem_keys.mpr (List.mem_map_of_mem he)⟩
    rw [if_neg hnil, decide_eq_true_eq, mem_deadKeys]
    simp only [hne, true_and]
    rfl

theorem link_localTaken {address : String} {rest : List String} (hnew : sessionOf core a = .new)
    (process : LocalFeedbackLoop.LocalProcess) :
    let core' := { core with
      localQueue := rest
      pendingLocalControllerSessions := core.pendingLocalControllerSessions - 1
      localSessions := (core.localSessions.emplace address .new).insert address
        ((sessionOf core address).submitRule core.localHandshakeRule)
      localToStages := core.localToStages.emplace address [] }
    link core' process a = link core process a ∨ (link core process a).Step (link core' process a) := by
  intro core'
  have hstages : core'.stagesOf a = core.stagesOf a := stagesOf_emplace core address a
  by_cases ha : a = address
  · subst ha
    have hafter : sessionOf core' a = (sessionOf core a).submitRule core.localHandshakeRule :=
      sessionOf_of_lookup (AList.lookup_insert _)
    right
    refine link_tell hnew hstages rfl ?_ ?_ <;> rw [hafter, hnew]
    · rfl
    · intro rule hr
      rw [List.mem_singleton.mp hr]
      exact requestOf_other (by rw [operationType_handshake]; decide) (by rw [operationType_handshake]; decide)
  · left
    apply link_eq hstages rfl
    apply sessionOf_congr
    rw [AList.lookup_insert_ne ha, Assoc.lookup_emplace, if_neg ha]

theorem link_stageTaken {info : StageInfo} {rest : List StageInfo} {session : LocalControllerSession}
    (hnew : sessionOf core a = .new) (hplain : '|' ∉ info.key.toList)
    (hqueue : core.localToDataQueue = info :: rest)
    (hlookup : core.localSessions.lookup info.localAddress = some session)
    (process : LocalFeedbackLoop.LocalProcess) :
    let core' := { registerStage info { core with
        localToDataQueue := rest
        pendingDataPlaneSessions := core.pendingDataPlaneSessions - 1 } with
      localSessions := core.localSessions.insert info.localAddress (session.submitRule (stageReadyRule info)) }
    link core' process a = link core process a ∨ (link core process a).Step (link core' process a) := by
  intro core'
  have hstages : core'.stagesOf a =
      if a = info.localAddress then core.stagesOf a ++ [info.key] else core.stagesOf a :=
    registerStage_stagesOf info a
  have hrest : core'.localToDataQueue = rest := by
    obtain ⟨demands, rates, previousRates, hemplace⟩ := emplaceJob_frame info.stageName { core with
      localToDataQueue := rest
      pendingDataPlaneSessions := core.pendingDataPlaneSessions - 1 }
    simp only [core', registerStage, hemplace]
  have hafter : sessionOf core' a =
      if a = info.localAddress then session.submitRule (stageReadyRule info) else sessionOf core a := by
    rw [sessionOf, Assoc.lookup_insert_eq]
    split <;> rfl
  by_cases ha : a = info.localAddress
  · rw [if_pos ha] at hstages hafter
    have hsession : session = .new := by
      rw [← hnew, ha]
      exact (sessionOf_of_lookup hlookup).symm
    have hlisted : {k | k ∈ core'.stagesOf a} = insert info.key {k | k ∈ core.stagesOf a} := by
      ext k
      rw [Set.mem_insert_iff, Set.mem_ofPred, Set.mem_ofPred, hstages, List.mem_append,
        List.mem_singleton, or_comm]
    have hlink : link core' process a = { link core process a with
        listed := insert info.key (link core process a).listed
        announced := (rest.filter (·.localAddress = a)).map StageInfo.key
        requests := [.ready info.key] } := by
      simp only [link, hlisted, hrest, hafter, hsession, hnew, LocalControllerSession.submitRule,
        LocalControllerSession.new, List.nil_append, List.map_cons, List.map_nil, requestOf_stageReady hplain]
    right
    rw [hlink]
    apply Link.Step.enroll info.key _ _ (quiet_of_new hnew)
    have hown : decide (info.localAddress = a) = true := by simpa using ha.symm
    simp only [link, hqueue]
    rw [List.filter_cons, if_pos hown, List.map_cons]
  · rw [if_neg ha] at hstages hafter
    left
    apply link_eq hstages _ hafter
    rw [hrest, hqueue, List.filter_cons_of_neg (by simpa using fun h => ha h.symm)]

theorem link_requestStatistics (hnew : sessionOf core a = .new) (process : LocalFeedbackLoop.LocalProcess) :
    let core' := Process.requestStatistics 5 (Process.sessionOrder core) core
    link core' process a = link core process a ∨ (link core process a).Step (link core' process a) := by
  intro core'
  have hlookup := requestStatistics_lookup 5 (sessionOrder_nodup core) core a
  obtain ⟨sessions, hcore, _⟩ := requestStatistics_tables 5 (Process.sessionOrder core) core
  have hstages : core'.stagesOf a = core.stagesOf a := by
    rw [show core' = _ from hcore]
    rfl
  have hqueue : core'.localToDataQueue = core.localToDataQueue := by rw [show core' = _ from hcore]
  cases hl : core.localSessions.lookup a with
  | none =>
    rw [hl, Option.map_none] at hlookup
    exact .inl (link_eq hstages (by rw [hqueue]) (sessionOf_congr (hlookup.trans hl.symm)))
  | some session =>
    have hsession : session = .new := (sessionOf_of_lookup hl).symm.trans hnew
    have hmem : a ∈ Process.sessionOrder core :=
      mem_sessionOrder.mpr (AList.lookup_isSome.mp (by rw [hl]; rfl))
    rw [hl, Option.map_some] at hlookup
    by_cases hn : core.stagesOf a = []
    · rw [if_neg fun h => h.2 hn, ← hl] at hlookup
      exact .inl (link_eq hstages (by rw [hqueue]) (sessionOf_congr hlookup))
    · rw [if_pos ⟨hmem, hn⟩, hsession] at hlookup
      have hlink : link core' process a = { link core process a with requests := [.report] } := by
        simp only [link, hstages, hqueue, show sessionOf core' a = _ from sessionOf_of_lookup hlookup, hnew,
          LocalControllerSession.submitRule, LocalControllerSession.new, List.nil_append, List.map_cons,
          List.map_nil, requestOf_collectStatistics]
      obtain ⟨k, hk⟩ := List.exists_mem_of_ne_nil _ hn
      right
      rw [hlink]
      exact .ask (quiet_of_new hnew) ⟨k, hk⟩

theorem link_purge {address rule : String} {response : StageResponse} {collection collection' : Collection}
    (htakes : Takes p address rule response core)
    (h : collectStatisticsResult address response collection core = .ok (core', collection'))
    (process : LocalFeedbackLoop.LocalProcess) (a : String) :
    link core' process a = link p.core process a ∨ (link p.core process a).Step (link core' process a) := by
  obtain ⟨responseType, rates, rfl, hpurged, hstages, _⟩ := collectStatisticsResult_ok h
  have hqueue : core'.localToDataQueue = p.core.localToDataQueue := by
    rw [(collectStatisticsResult_forgets h).frame, htakes.tables]
  have hkept : core.stagesOf a = p.core.stagesOf a := by
    rw [htakes.tables]
    rfl
  have hsame : sessionOf core' a = sessionOf core a := sessionOf_congr (by rw [hpurged.localSessions])
  obtain ⟨session', hcompletion, hsubmission, hsession⟩ := takes_sessionOf htakes a
  rw [hsession] at hsame
  have hstages := hstages a
  by_cases ha : a = address
  · subst ha
    rw [if_pos rfl] at hsame hstages
    have hlink : link core' process a = { link p.core process a with
        listed := {k | k ∈ (link p.core process a).listed ∧ {k | k ∈ rates}.Nonempty ∧
          k ∉ {k | rates.lookup k = some (-1)}}
        answers := session'.completionQueue.map (answerOf ·.2) } := by
      simp only [link, hqueue, hsame, hsubmission, Link.mk.injEq, and_true]
      ext k
      exact mem_stages_purged hkept (by rw [hstages, hkept]) k
    right
    rw [hlink]
    exact .purge _ _ _ (by simp only [link, hcompletion, List.map_cons, answerOf])
  · rw [if_neg ha] at hsame hstages
    exact .inl (link_eq (hstages.trans hkept) (by rw [hqueue]) hsame)

theorem link_computed {updated : List String} (hnew : sessionOf core a = .new) (h : Computes core core' updated)
    (process : LocalFeedbackLoop.LocalProcess) : (link core process a).Step (link core' process a) := by
  obtain ⟨core₁, operation, rules, hprepared, hr⟩ := h.requests
  have hsessions : core₁.localSessions = core.localSessions := by
    obtain ⟨_, _, _, _, _, rfl, _⟩ := hprepared
    rfl
  have hlookup : core'.localSessions.lookup a = _ := hr.sessions a
  have hafter : (sessionOf core' a).completionQueue = [] ∧
      ∀ rule ∈ (sessionOf core' a).submissionQueue, requestOf rule = .other := by
    rw [sessionOf, hlookup, hsessions]
    cases hl : core.localSessions.lookup a with
    | none => exact ⟨rfl, fun rule hrule => absurd hrule List.not_mem_nil⟩
    | some session =>
      obtain rfl : session = .new := (sessionOf_of_lookup hl).symm.trans hnew
      constructor
      · rfl
      · intro rule hrule
        obtain ⟨sent, _, rfl⟩ := List.mem_map.mp hrule
        rw [EnforcementRule.request]
        exact requestOf_other (by rw [operationType_enforcementRule]; decide)
          (by rw [operationType_enforcementRule]; decide)
  exact link_tell hnew (h.frame.stagesOf a) h.frame.localToDataQueue hafter.1 hafter.2

theorem loopStep_link (h : LoopStep p q) (halive : ¬ q.Crashed) (hd : Drained p)
    (hplain : ∀ info ∈ p.core.localToDataQueue, '|' ∉ info.key.toList)
    (htype : p.core.controlType ≠ .dynamicLeftover) (process : LocalFeedbackLoop.LocalProcess) (a : String) :
    link q.core process a = link p.core process a ∨ (link p.core process a).Step (link q.core process a) := by
  have hidle (hquiet : ∀ outstanding, p.Awaited a outstanding → outstanding = []) : sessionOf p.core a = .new :=
    Drained.sessionOf_new hd hquiet
  cases h with
  | goes point h => exact .inl rfl
  | localTaken address rest session hpoint hpending hqueue hsession =>
    subst hsession
    exact link_localTaken (hidle fun o ho => by rwa [Process.Awaited, hpoint] at ho) process
  | handshaken address rule response core hpoint htakes =>
    obtain ⟨rest, hawaited, hanswers, _⟩ := htakes.holds hd.holds
    simp only [Process.Awaited, hpoint, if_true] at hawaited
    refine link_receive htakes (answerOf_ack hanswers ?_) rfl rfl rfl process a
    rw [(List.cons.inj hawaited).1, operationType_handshake]
    decide
  | stageTaken info rest session hpoint hpending hqueue hsession =>
    exact link_stageTaken (hidle fun o ho => by rwa [Process.Awaited, hpoint] at ho)
      (hplain info (by rw [hqueue]; exact List.mem_cons_self)) hqueue hsession process
  | marked info rule response core hpoint htakes =>
    obtain ⟨rest, hawaited, hanswers, _⟩ := htakes.holds hd.holds
    simp only [Process.Awaited, hpoint, if_true] at hawaited
    refine link_receive htakes (answerOf_ack hanswers ?_) rfl rfl rfl process a
    rw [(List.cons.inj hawaited).1, operationType_stageReady]
    decide
  | control hpoint h =>
    cases h with
    | requested h =>
      exact link_requestStatistics (hidle fun o ho => by rwa [Process.Awaited, hpoint] at ho) process
    | idle h => exact .inl rfl
    | sent h _ => exact absurd h htype
    | counted h _ => exact absurd h htype
    | gathered h _ => exact absurd h htype
  | collectDone collection active point hpoint hgone hactive hnext => exact .inl rfl
  | collectResult address rule rest collection collection' response core core' hpoint hcollects htakes h =>
    exact link_purge htakes h process a
  | collectFault address rule rest collection response core fault hpoint hcollects htakes h =>
    exact absurd ⟨fault, rfl⟩ halive
  | computed dStats core updated hpoint h =>
    exact .inr (link_computed (hidle fun o ho => by rwa [Process.Awaited, hpoint] at ho)
      (computeAndEnforce_computes h) process)
  | enforced job address rule rest response core hpoint htakes =>
    obtain ⟨tail, hawaited, hanswers, _⟩ := htakes.holds hd.holds
    rw [Process.Awaited, hpoint] at hawaited
    refine link_receive htakes (answerOf_ack hanswers ?_) rfl rfl rfl process a
    rw [hawaited.1 rule List.mem_cons_self]
    decide
  | finished hpoint => exact .inl rfl

end Cheferd.ControlPlane
