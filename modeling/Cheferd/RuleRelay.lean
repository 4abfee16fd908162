import Cheferd.FaultFreedom
import Cheferd.RuleReplay

namespace Cheferd

open Library

namespace CoreControlApplication

open LocalControllerSession

def instructionsTo (address : String) : List Event → List Instruction
  | [] => []
  | .registered info :: history =>
    instructionsTo address history ++ if info.localAddress = address then [.ready info] else []
  | .enforced rule :: history =>
    instructionsTo address history ++ if address ∈ rule.localToEnvs then [.enforce rule] else []
  | .removed _ :: history | .computed :: history => instructionsTo address history

def Instructs (request : String) : Prop := operationType request = some 1 ∨ operationType request = some 6

instance (request : String) : Decidable (Instructs request) := inferInstanceAs (Decidable (_ ∨ _))

variable {address : String}

theorem instructs_request (address : String) (i : Instruction) : Instructs (i.request address) := by
  cases i with
  | ready info => exact .inl (operationType_stageReady info)
  | enforce rule =>
    right
    rw [Instruction.request, EnforcementRule.request, operationType_enforcementRule]

theorem not_instructs_collectStatistics (subtype : ℤ) : ¬ Instructs (collectStatisticsRule subtype) := by
  rw [Instructs, operationType_collectStatistics]
  decide

theorem instructionsTo_removed (infos : List StageInfo) (history : List Event) :
    instructionsTo address (infos.map .removed ++ history) = instructionsTo address history := by
  induction infos with
  | nil => rfl
  | cons info infos ih => exact ih

theorem instructionsTo_enforced (rules : List EnforcementRule) (history : List Event) :
    instructionsTo address ((rules.map .enforced).reverse ++ history) =
      instructionsTo address history ++ (rules.filter (address ∈ ·.localToEnvs)).map .enforce := by
  induction rules generalizing history with
  | nil => simp
  | cons rule rules ih =>
    rw [List.map_cons, List.reverse_cons, List.append_assoc, List.singleton_append, ih, instructionsTo,
      List.append_assoc, List.filter_cons]
    congr 1
    by_cases ha : address ∈ rule.localToEnvs <;> simp [ha]

theorem mem_instructionsTo {rule : EnforcementRule} {history : List Event}
    (h : .enforce rule ∈ instructionsTo address history) : .enforced rule ∈ history := by
  induction history with
  | nil => cases h
  | cons event history ih =>
    cases event with
    | registered info =>
      rcases List.mem_append.mp h with h | h
      · exact List.mem_cons_of_mem _ (ih h)
      · split at h <;> simp at h
    | enforced other =>
      rcases List.mem_append.mp h with h | h
      · exact List.mem_cons_of_mem _ (ih h)
      · split at h
        · rw [Instruction.enforce.inj (List.mem_singleton.mp h)]
          exact List.mem_cons_self
        · cases h
    | removed info => exact List.mem_cons_of_mem _ (ih h)
    | computed => exact List.mem_cons_of_mem _ (ih h)

end CoreControlApplication

namespace ControlPlane

open CoreControlApplication FeedbackLoop LocalControllerSession Library.Membership

variable {p q : FeedbackLoop.Process} {a : String}

def queued (core : CoreControlApplication) (address : String) : List String :=
  (sessionOf core address).submissionQueue.filter (Instructs ·)

theorem queued_congr {core core' : CoreControlApplication} (h : sessionOf core' a = sessionOf core a) :
    queued core' a = queued core a := by
  rw [queued, queued, h]

theorem queued_nil {core : CoreControlApplication} (h : sessionOf core a = .new) : queued core a = [] := by
  rw [queued, h]
  rfl

structure Tells (p q : FeedbackLoop.Process) (address : String) (instructions : List Instruction) : Prop where
  log : instructionsTo address q.core.history = instructionsTo address p.core.history ++ instructions
  queue : queued q.core address = queued p.core address ++ instructions.map (Instruction.request address)
  tracker : q.core.jobLocationTracker = p.core.jobLocationTracker ∨ queued p.core address = []
  ready : ∀ info, .ready info ∈ instructions → info.key ∉ p.core.stagesOf address ∧ '|' ∉ info.key.toList
  enforce : ∀ rule, .enforce rule ∈ instructions →
    q.core.jobLocationTracker.lookup rule.appName = some rule.localToEnvs

theorem Tells.nothing (hlog : instructionsTo a q.core.history = instructionsTo a p.core.history)
    (hqueue : queued q.core a = queued p.core a)
    (htracker : q.core.jobLocationTracker = p.core.jobLocationTracker ∨ queued p.core a = []) :
    Tells p q a [] where
  log := by rw [hlog, List.append_nil]
  queue := by rw [hqueue, List.map_nil, List.append_nil]
  tracker := htracker
  ready _ h := nomatch h
  enforce _ h := nomatch h

theorem takes_queued {address rule : String} {response : StageResponse} {core : CoreControlApplication}
    (h : Takes p address rule response core) (a : String) : queued core a = queued p.core a := by
  obtain ⟨session', _, hsubmission, hsession⟩ := takes_sessionOf h a
  rw [queued, queued, hsession]
  split
  case isTrue ha => rw [ha, hsubmission]
  case isFalse => rfl

theorem submitted_queued (core : CoreControlApplication) (address rule : String)
    {core' : CoreControlApplication}
    (hlookup : ∀ a, core'.localSessions.lookup a =
      if a = address then some ((sessionOf core address).submitRule rule) else core.localSessions.lookup a)
    (a : String) :
    queued core' a = queued core a ++ if a = address ∧ Instructs rule then [rule] else [] := by
  have hsession : sessionOf core' a =
      if a = address then (sessionOf core address).submitRule rule else sessionOf core a := by
    rw [sessionOf, hlookup]
    split <;> rfl
  rw [queued, hsession, queued]
  by_cases ha : a = address
  · subst ha
    rw [if_pos rfl, LocalControllerSession.submitRule, List.filter_append, List.filter_cons, List.filter_nil]
    simp
  · simp [ha]

theorem requestStatistics_queued (a : String) :
    queued (Process.requestStatistics 5 (Process.sessionOrder p.core) p.core) a = queued p.core a := by
  rw [queued, sessionOf, requestStatistics_lookup 5 (sessionOrder_nodup p.core), queued, sessionOf]
  cases p.core.localSessions.lookup a with
  | none => rfl
  | some session =>
    rw [Option.map_some, Option.getD_some, Option.getD_some]
    split
    · rw [LocalControllerSession.submitRule, List.filter_append, List.filter_cons_of_neg
        (by simpa using not_instructs_collectStatistics 5), List.filter_nil, List.append_nil]
    · rfl

theorem tells_computed {dStats : Assoc String Rates} {core : CoreControlApplication} {updated : List String}
    (h : computeAndEnforce dStats p.sessionsSent p.core = .ok (core, updated))
    (hnew : sessionOf p.core a = .new)
    (point : FeedbackLoop.Point) (roundsCounter : ℕ) : ∃ instructions, Tells p { p with
      core := { core with history := .computed :: core.history }
      point := point
      roundsCounter := roundsCounter } a instructions := by
  have hcomputes := computeAndEnforce_computes h
  obtain ⟨core₁, operation, rules, hprepared, hr⟩ := hcomputes.requests
  obtain ⟨_, _, _, _, _, rfl, _⟩ := hprepared
  have hhistory : core.history = (rules.map .enforced).reverse ++ p.core.history := hr.history
  have hlookup : core.localSessions.lookup a = _ := hr.sessions a
  refine ⟨(rules.filter (a ∈ ·.localToEnvs)).map .enforce, ?_, ?_,
    .inl hcomputes.frame.jobLocationTracker, ?_, ?_⟩
  · dsimp only
    rw [instructionsTo, hhistory, instructionsTo_enforced]
  · dsimp only
    rw [queued_nil hnew, List.nil_append, List.map_map]
    cases hl : p.core.localSessions.lookup a with
    | none =>
      have hnone : rules.filter (a ∈ ·.localToEnvs) = [] := by
        refine List.filter_eq_nil_iff.mpr fun rule hrule ha => ?_
        exact AList.lookup_eq_none.mp hl (hr.hosted rule hrule a (by simpa using ha))
      rw [hl, Option.map_none] at hlookup
      rw [hnone, queued, sessionOf, hlookup]
      rfl
    | some session =>
      obtain rfl : session = .new := (sessionOf_of_lookup hl).symm.trans hnew
      rw [hl, Option.map_some] at hlookup
      rw [queued, sessionOf, hlookup]
      refine List.filter_eq_self.mpr fun request hrequest => ?_
      obtain ⟨rule, _, rfl⟩ := List.mem_map.mp hrequest
      exact decide_eq_true (instructs_request a (.enforce rule))
  · simp
  · intro rule hrule
    obtain ⟨rule', hrule', hinj⟩ := List.mem_map.mp hrule
    obtain rfl := Instruction.enforce.inj hinj
    have happ := hr.sublist.subset
      (List.mem_map_of_mem (f := EnforcementRule.app) (List.mem_of_mem_filter hrule'))
    dsimp only
    rw [hcomputes.frame.jobLocationTracker]
    exact Assoc.lookup_of_mem_entries happ

theorem loopStep_tells (h : LoopStep p q) (halive : ¬ q.Crashed) (hd : Drained p)
    (htype : p.core.controlType ≠ .dynamicLeftover)
    (hplain : ∀ info ∈ p.core.localToDataQueue, '|' ∉ info.key.toList)
    (hnew : p.point = .stages → p.core.pendingDataPlaneSessions > 0 →
      ∀ info ∈ p.core.localToDataQueue.head?, ∀ address, info.key ∉ p.core.stagesOf address) (a : String) :
    ∃ instructions, Tells p q a instructions := by
  have hidle (hquiet : ∀ outstanding, p.Awaited a outstanding → outstanding = []) : sessionOf p.core a = .new :=
    Drained.sessionOf_new hd hquiet
  cases h with
  | goes point h => exact ⟨[], .nothing rfl rfl (.inl rfl)⟩
  | localTaken address rest session hpoint hpending hqueue hsession =>
    refine ⟨[], .nothing rfl ?_ (.inl rfl)⟩
    have hother : ¬ Instructs p.core.localHandshakeRule := by
      rw [Instructs, operationType_handshake]
      decide
    refine (submitted_queued p.core address p.core.localHandshakeRule (fun a => ?_) a).trans ?_
    · rw [Assoc.lookup_insert_eq, Assoc.lookup_emplace, hsession]
      split <;> rfl
    · rw [if_neg (And.right.mt hother), List.append_nil]
  | handshaken address rule response core hpoint htakes =>
    refine ⟨[], .nothing ?_ (takes_queued htakes a) (.inl htakes.sameTables.jobLocationTracker)⟩
    exact congrArg _ htakes.sameTables.history
  | stageTaken info rest session hpoint hpending hqueue hsession =>
    obtain ⟨_, _, _, hjob⟩ := emplaceJob_frame info.stageName { p.core with
      localToDataQueue := rest
      pendingDataPlaneSessions := p.core.pendingDataPlaneSessions - 1 }
    have hhistory : instructionsTo a (Event.registered info :: p.core.history) =
        instructionsTo a p.core.history ++ if a = info.localAddress then [.ready info] else [] := by
      rw [instructionsTo]
      simp only [eq_comm]
    have hlookup (a : String) :
        (p.core.localSessions.insert info.localAddress (session.submitRule (stageReadyRule info))).lookup a =
          if a = info.localAddress then some
            ((sessionOf p.core info.localAddress).submitRule (stageReadyRule info))
          else p.core.localSessions.lookup a := by
      rw [Assoc.lookup_insert_eq, sessionOf_of_lookup hsession]
    have hnil := queued_nil (hidle fun o ho => by rwa [Process.Awaited, hpoint] at ho)
    simp only [registerStage, hjob]
    refine ⟨if a = info.localAddress then [.ready info] else [], hhistory, ?_, .inr hnil, ?_, ?_⟩
    · refine (submitted_queued p.core info.localAddress (stageReadyRule info) hlookup a).trans ?_
      congr 1
      by_cases ha : a = info.localAddress
      · rw [if_pos ha, if_pos ⟨ha, instructs_request a (.ready info)⟩]
        rfl
      · rw [if_neg ha, if_neg fun h => ha h.1]
        rfl
    · intro other hother
      split at hother
      · obtain rfl := Instruction.ready.inj (List.mem_singleton.mp hother)
        exact ⟨hnew hpoint hpending _ (by rw [hqueue]; rfl) a,
          hplain _ (by rw [hqueue]; exact List.mem_cons_self)⟩
      · cases hother
    · intro rule hrule
      split at hrule <;> simp at hrule
  | marked info rule response core hpoint htakes =>
    exact ⟨[], .nothing (congrArg _ htakes.sameTables.history) (takes_queued htakes a)
      (.inl htakes.sameTables.jobLocationTracker)⟩
  | control hpoint h =>
    cases h with
    | requested h =>
      obtain ⟨sessions, hcore, _⟩ := requestStatistics_tables 5 (Process.sessionOrder p.core) p.core
      refine ⟨[], .nothing ?_ (requestStatistics_queued a) (.inl ?_)⟩ <;> simp only [hcore]
    | idle h => exact ⟨[], .nothing rfl rfl (.inl rfl)⟩
    | sent h _ => exact absurd h htype
    | counted h _ => exact absurd h htype
    | gathered h _ => exact absurd h htype
  | collectDone collection active point hpoint hgone hactive hnext => exact ⟨[], .nothing rfl rfl (.inl rfl)⟩
  | collectResult address rule rest collection collection' response core core' hpoint hcollects htakes h =>
    have hforgets := collectStatisticsResult_forgets h
    obtain ⟨infos, hhistory, _⟩ := hforgets.events
    have hsession : sessionOf core' a = sessionOf core a := sessionOf_congr (by rw [hforgets.frame])
    refine ⟨[], .nothing ?_ ((queued_congr hsession).trans (takes_queued htakes a)) (.inr ?_)⟩
    · dsimp only
      rw [hhistory, instructionsTo_removed, htakes.sameTables.history]
    · rw [queued]
      refine List.filter_eq_nil_iff.mpr fun request hrequest => ?_
      cases hl : p.core.localSessions.lookup a with
      | none =>
        rw [sessionOf, hl] at hrequest
        cases hrequest
      | some session =>
        have hawaited := hd.awaited a session hl
        rw [Process.Awaited, hpoint] at hawaited
        rw [sessionOf_of_lookup hl] at hrequest
        have hmem : request ∈ session.outstanding := List.mem_append_right _ hrequest
        rw [hawaited] at hmem
        split at hmem
        · rw [List.mem_singleton.mp hmem]
          simpa using not_instructs_collectStatistics 5
        · cases hmem
  | collectFault address rule rest collection response core fault hpoint hcollects htakes h =>
    exact absurd ⟨fault, rfl⟩ halive
  | computed dStats core updated hpoint h =>
    exact tells_computed h (hidle fun o ho => by rwa [Process.Awaited, hpoint] at ho) _ _
  | enforced job address rule rest response core hpoint htakes =>
    exact ⟨[], .nothing (congrArg _ htakes.sameTables.history) (takes_queued htakes a)
      (.inl htakes.sameTables.jobLocationTracker)⟩
  | finished hpoint => exact ⟨[], .nothing rfl rfl (.inl rfl)⟩

end ControlPlane

end Cheferd
