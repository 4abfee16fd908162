import Cheferd.ResponsePairing

namespace Cheferd.FeedbackLoop

open Library CoreControlApplication LocalControllerSession

variable {p q : Process}

/-- What a controller's session can have outstanding, by the place of the loop, where no request stays open
between two rounds. While rules are enforced a controller has no more requests than the loop waits for. -/
def Process.Awaited (p : Process) (address : String) (outstanding : List String) : Prop :=
  match p.point with
  | .localHandshake a => outstanding = if address = a then [p.core.localHandshakeRule] else []
  | .markReady info => outstanding = if address = info.localAddress then [stageReadyRule info] else []
  | .collect todo _ =>
    outstanding = if address ∈ todo ∧ p.core.stagesOf address ≠ [] then [collectStatisticsRule 5] else []
  | .enforce todo => (∀ rule ∈ outstanding, operationType rule = some 6) ∧
    outstanding.length ≤ (todo.filter (·.2 = address)).length
  | _ => outstanding = []

structure Drained (p : Process) : Prop where
  awaited : ∀ address session, p.core.localSessions.lookup address = some session →
    p.Awaited address session.outstanding
  answered : ∀ address session, p.core.localSessions.lookup address = some session →
    ∀ e ∈ session.completionQueue, Answers e.1 e.2
  collecting : ∀ todo collection, p.point = .collect todo collection → todo.Nodup

theorem supported_of_operationType {rule : String} (h : operationType rule = some 6) : Supported rule := by
  intro reply
  simp only [sendRule, h]
  rfl

theorem Process.Awaited.supported {address : String} {outstanding : List String}
    (h : p.Awaited address outstanding) : ∀ rule ∈ outstanding, Supported rule := by
  intro rule hr reply
  unfold Process.Awaited at h
  split at h
  · rw [h] at hr
    split at hr
    · rw [List.mem_singleton.mp hr, sendRule_handshake]
      rfl
    · cases hr
  · rw [h] at hr
    split at hr
    · rw [List.mem_singleton.mp hr, sendRule_stageReady]
      rfl
    · cases hr
  · rw [h] at hr
    split at hr
    · rw [List.mem_singleton.mp hr, sendRule_collectStatistics (.inl rfl)]
      rfl
    · cases hr
  · exact supported_of_operationType (h.1 rule hr) reply
  · rw [h] at hr
    cases hr

theorem Drained.holds (hp : Drained p) : Holds p.core.localSessions p.Awaited :=
  fun address session hs => ⟨hp.awaited address session hs, hp.answered address session hs⟩

theorem Drained.of_holds (h : Holds q.core.localSessions q.Awaited)
    (hcollecting : ∀ todo collection, q.point = .collect todo collection → todo.Nodup) : Drained q where
  awaited address session hs := (h address session hs).1
  answered address session hs := (h address session hs).2
  collecting := hcollecting

theorem requests_le_waits {core core₁ core' : CoreControlApplication} {operation : String}
    {rules : List EnforcementRule} {updated : List String}
    (hr : Requests operation core.jobLocationTracker.entries rules (core₁, []) (core', updated))
    (hf : Frame core core') (address : String) :
    (rules.filter (address ∈ ·.localToEnvs)).length ≤
    ((waitList core' updated).filter (·.2 = address)).length := by
  have hnodup : ((rules.filter (address ∈ ·.localToEnvs)).map fun rule => (rule.appName, address)).Nodup := by
    have hsub := hr.sublist.map Sigma.fst
    rw [List.map_map] at hsub
    have hnames : (rules.map EnforcementRule.appName).Nodup := core.jobLocationTracker.keys_nodup.sublist hsub
    refine List.Nodup.of_map Prod.fst ?_
    rw [List.map_map]
    exact hnames.sublist (List.filter_sublist.map _)
  have hsubset : ((rules.filter (address ∈ ·.localToEnvs)).map fun rule => (rule.appName, address)) ⊆
      (waitList core' updated).filter (·.2 = address) := by
    intro e he
    obtain ⟨rule, hrule, rfl⟩ := List.mem_map.mp he
    obtain ⟨hrule, ha⟩ := List.mem_filter.mp hrule
    have ha : address ∈ rule.localToEnvs := by simpa using ha
    have happ := hr.sublist.subset (List.mem_map_of_mem (f := EnforcementRule.app) hrule)
    refine List.mem_filter.mpr ⟨List.mem_flatMap.mpr ⟨rule.app, ?_, ?_⟩, by simp⟩
    · rw [hf.jobLocationTracker]
      exact happ
    · refine List.mem_map.mpr ⟨address, List.mem_filter.mpr ⟨mem_order.mpr ha, ?_⟩, rfl⟩
      rw [decide_eq_true_iff, show updated = _ from hr.updated, List.nil_append, List.mem_flatMap]
      exact ⟨rule, hrule, List.mem_map_of_mem (mem_order.mpr ha)⟩
  simpa using (List.subperm_of_subset hnodup hsubset).length_le

theorem Drained.moved {point : Point} (hp : Drained p)
    (hawaited : ∀ a outstanding, p.Awaited a outstanding →
      Process.Awaited { p with point := point } a outstanding)
    (hcollecting : ∀ todo collection, point = .collect todo collection → todo.Nodup) :
    Drained { p with point := point } :=
  ⟨fun a session hs => hawaited a _ (hp.awaited a session hs), hp.answered, hcollecting⟩

theorem Takes.drained_last {address rule own : String} {response : StageResponse}
    {core core' : CoreControlApplication}
    {point : Point} (h : Takes p address rule response core) (hp : Drained p)
    (hawaited : ∀ a outstanding, p.Awaited a outstanding → outstanding = if a = address then [own] else [])
    (hsessions : core'.localSessions = core.localSessions)
    (hpoint : ∀ a outstanding, outstanding = [] →
      Process.Awaited { p with core := core', point := point } a outstanding)
    (hcollecting : ∀ todo collection, point ≠ .collect todo collection) :
    Drained { p with core := core', point := point } := by
  obtain ⟨rest, hfirst, _, hrest⟩ := h.holds hp.holds
  have hnil : rest = [] := by
    have hown := hawaited _ _ hfirst
    rw [if_pos rfl] at hown
    exact (List.cons.inj hown).2
  rw [← hsessions] at hrest
  refine .of_holds (hrest.mono (fun _ _ hs => hs) fun a outstanding _ ho => hpoint a outstanding ?_)
    fun _ _ hc =>
    absurd hc (hcollecting _ _)
  by_cases ha : a = address
  · rw [if_pos ha] at ho
    rw [ho, hnil]
  · rw [if_neg ha] at ho
    rw [hawaited _ _ ho, if_neg ha]

theorem Drained.control (hp : Drained p) (hpoint : p.point = .control) (h : Controls p q)
    (htype : p.core.controlType ≠ .dynamicLeftover) : Drained q := by
  have hquiet : ∀ a outstanding, p.Awaited a outstanding → outstanding = [] := by
    intro a outstanding ho
    rwa [Process.Awaited, hpoint] at ho
  cases h with
  | requested h =>
    obtain ⟨sessions, hcore, _⟩ := requestStatistics_tables 5 (Process.sessionOrder p.core) p.core
    refine .of_holds ((hp.holds.requested hquiet 5).mono (fun _ _ hs => hs) fun a outstanding _ ho => ?_) ?_
    · obtain ⟨hmem, hout⟩ := ho
      rw [hout]
      simp only [Process.Awaited, hmem, hcore, true_and]
      rfl
    · rintro _ _ ⟨⟩
      exact sessionOrder_nodup p.core
  | idle h => exact hp.moved hquiet (by simp)
  | sent h _ => exact absurd h htype
  | counted h _ => exact absurd h htype
  | gathered h _ => exact absurd h htype

theorem Drained.collectResult {address rule : String} {rest : List String} {collection collection' : Collection}
    {response : StageResponse} {core core' : CoreControlApplication} (hp : Drained p)
    (hpoint : p.point = .collect (address :: rest) collection) (htakes : Takes p address rule response core)
    (h : collectStatisticsResult address response collection core = .ok (core', collection')) :
    Drained { p with core := core', point := .collect rest collection' } := by
  obtain ⟨hnotin, hnodup⟩ := List.nodup_cons.mp (hp.collecting _ _ hpoint)
  obtain ⟨tail, hfirst, _, hrest⟩ := htakes.holds hp.holds
  have hawaited : ∀ a outstanding, p.Awaited a outstanding → outstanding =
      if a ∈ address :: rest ∧ p.core.stagesOf a ≠ [] then [collectStatisticsRule 5] else [] := by
    intro a outstanding ho
    rwa [Process.Awaited, hpoint] at ho
  have hnil : tail = [] := by
    have hown := hawaited _ _ hfirst
    split at hown
    · exact (List.cons.inj hown).2
    · cases hown
  obtain ⟨_, _, _, hpurged, hstages, _⟩ := collectStatisticsResult_ok h
  rw [← hpurged.localSessions] at hrest
  refine .of_holds (hrest.mono (fun _ _ hs => hs) fun a outstanding _ ho => ?_) ?_
  · simp only [Process.Awaited]
    by_cases ha : a = address
    · rw [if_pos ha, hnil] at ho
      rw [ho, if_neg fun h => hnotin (ha ▸ h.1)]
    · rw [if_neg ha] at ho
      rw [hawaited _ _ ho, hstages, if_neg ha, htakes.still.stagesOf]
      simp only [List.mem_cons, ha, false_or]
  · rintro _ _ ⟨⟩
    exact hnodup

theorem Drained.computed {dStats : Assoc String Rates} {core : CoreControlApplication} {updated : List String}
    (hp : Drained p) (hpoint : p.point = .compute dStats)
    (h : computeAndEnforce dStats p.sessionsSent p.core = .ok (core, updated)) : Drained { p with
      core := { core with history := .computed :: core.history }
      point := .enforce (waitList core updated)
      roundsCounter := 0 } := by
  have hcomputes := computeAndEnforce_computes h
  obtain ⟨core₁, operation, rules, hprepared, hr⟩ := hcomputes.requests
  have hruled := hp.holds.ruled (fun a outstanding ho => by rwa [Process.Awaited, hpoint] at ho) hprepared hr
  refine .of_holds (hruled.mono (fun _ _ hs => hs) fun a outstanding _ ho => ?_) (by simp)
  rw [ho]
  constructor
  · intro request hrequest
    obtain ⟨rule, _, rfl⟩ := List.mem_map.mp hrequest
    rw [EnforcementRule.request, operationType_enforcementRule]
  · rw [List.length_map]
    exact requests_le_waits hr hcomputes.frame a

theorem Drained.enforced {job address rule : String} {rest : List (String × String)} {response : StageResponse}
    {core : CoreControlApplication} (hp : Drained p) (hpoint : p.point = .enforce ((job, address) :: rest))
    (htakes : Takes p address rule response core) :
    Drained { p with core := core, point := .enforce rest } := by
  obtain ⟨tail, hfirst, _, hrest⟩ := htakes.holds hp.holds
  have hawaited : ∀ a outstanding, p.Awaited a outstanding →
      (∀ rule ∈ outstanding, operationType rule = some 6) ∧
      outstanding.length ≤ (((job, address) :: rest).filter (·.2 = a)).length := by
    intro a outstanding ho
    rwa [Process.Awaited, hpoint] at ho
  refine .of_holds (hrest.mono (fun _ _ hs => hs) fun a outstanding _ ho => ?_) (by simp)
  by_cases ha : a = address
  · rw [if_pos ha] at ho
    subst ha
    obtain ⟨htypes, hlength⟩ := hawaited _ _ hfirst
    rw [List.filter_cons_of_pos (by simp)] at hlength
    rw [ho]
    exact ⟨fun r hr => htypes r (List.mem_cons_of_mem _ hr), Nat.le_of_succ_le_succ hlength⟩
  · rw [if_neg ha] at ho
    obtain ⟨htypes, hlength⟩ := hawaited _ _ ho
    rw [List.filter_cons_of_neg (by simpa using fun h => ha h.symm)] at hlength
    exact ⟨htypes, hlength⟩

theorem Drained.goes {point : Point} (hp : Drained p) (h : Goes p point) (hc : ∀ fault, point ≠ .crashed fault)
    (htype : p.core.controlType ≠ .dynamicLeftover) : Drained { p with point := point } := by
  cases h with
  | collectSkip address rest collection hpoint hskip =>
    obtain ⟨_, hnodup⟩ := List.nodup_cons.mp (hp.collecting _ _ hpoint)
    refine hp.moved (fun a outstanding ho => ?_) ?_
    · have hnone : p.core.stagesOf address = [] := by
        simpa [Process.collects, htype] using hskip
      rw [Process.Awaited, hpoint] at ho
      simp only [Process.Awaited, ho]
      by_cases ha : a = address
      · simp [ha, hnone]
      · simp only [List.mem_cons, ha, false_or]
    · rintro _ _ ⟨⟩
      exact hnodup
  | enforceDone hpoint =>
    refine hp.moved (fun a outstanding ho => ?_) (by simp)
    rw [Process.Awaited, hpoint] at ho
    exact List.eq_nil_of_length_eq_zero (Nat.le_zero.mp ho.2)
  | started hpoint | entered hpoint | exited hpoint | localsDone hpoint | stagesDone hpoint =>
    refine hp.moved (fun a outstanding ho => ?_) (by simp)
    rwa [Process.Awaited, hpoint] at ho
  | _ => exact absurd rfl (hc _)

theorem Drained.collected {collection : Collection} {active : ℤ} {point : Point} (hp : Drained p)
    (hpoint : p.point = .collect [] collection)
    (hnext : point = .finish ∧ p.core.controlType = .static ∨ point = .compute collection.collectedStats) :
    Drained { p with core := { p.core with activeLocalControllerSessions := active }, point := point } := by
  constructor
  · intro a session hs
    have hawaited := hp.awaited a session hs
    have hnil : session.outstanding = [] := by simpa [Process.Awaited, hpoint] using hawaited
    rcases hnext with ⟨rfl, _⟩ | rfl <;> exact hnil
  · exact hp.answered
  · rcases hnext with ⟨rfl, _⟩ | rfl <;> simp

theorem awaited_of_submitted {address own a : String} {outstanding : List String}
    (hquiet : ∀ a outstanding, p.Awaited a outstanding → outstanding = [])
    (h : if a = address then outstanding = [own] else p.Awaited a outstanding) :
    outstanding = if a = address then [own] else [] := by
  by_cases ha : a = address
  · rwa [if_pos ha] at h ⊢
  · rw [if_neg ha] at h ⊢
    exact hquiet a outstanding h

theorem Drained.step {action : Action} (h : Step p action q) (htype : p.core.controlType ≠ .dynamicLeftover)
    (hp : Drained p) : q.Crashed ∨ Drained q := by
  cases h with
  | served address reply session session' hsession hserve =>
    exact .inr (.of_holds (hp.holds.served (fun outstanding ho => ho.supported) hsession hserve) hp.collecting)
  | loop h =>
    cases h with
    | goes point h =>
      by_cases hc : ∃ fault, point = .crashed fault
      · exact .inl hc
      · exact .inr (hp.goes h (fun fault hf => hc ⟨fault, hf⟩) htype)
    | localTaken address rest session hpoint hpending hqueue hsession =>
      have hlookup : ∀ a, ((p.core.localSessions.emplace address .new).insert address
          (session.submitRule p.core.localHandshakeRule)).lookup a =
            if a = address then some (session.submitRule p.core.localHandshakeRule)
            else p.core.localSessions.lookup a := fun a => by
        rw [Assoc.lookup_insert_eq, Assoc.lookup_emplace]
        split <;> rfl
      have hquiet : ∀ a outstanding, p.Awaited a outstanding → outstanding = [] := by
        intro a outstanding ho
        rwa [Process.Awaited, hpoint] at ho
      have hq := hp.holds.submitted (hquiet address) hsession hlookup
      exact .inr (.of_holds (hq.mono (fun _ _ hs => hs) fun a outstanding _ =>
        awaited_of_submitted hquiet) (by simp))
    | handshaken address rule response core hpoint htakes =>
      exact .inr (htakes.drained_last hp (fun a o ho => by rw [Process.Awaited, hpoint] at ho; exact ho) rfl
        (fun a o ho => ho) (by simp))
    | stageTaken info rest session hpoint hpending hqueue hsession =>
      have hlookup := fun a => Assoc.lookup_insert_eq info.localAddress a
        (session.submitRule (stageReadyRule info))
        p.core.localSessions
      have hquiet : ∀ a outstanding, p.Awaited a outstanding → outstanding = [] := by
        intro a outstanding ho
        rwa [Process.Awaited, hpoint] at ho
      have hq := hp.holds.submitted (hquiet info.localAddress) (by rw [hsession]; rfl) hlookup
      exact .inr (.of_holds (hq.mono (fun _ _ hs => hs) fun a outstanding _ =>
        awaited_of_submitted hquiet) (by simp))
    | marked info rule response core hpoint htakes =>
      exact .inr (htakes.drained_last hp (fun a o ho => by rw [Process.Awaited, hpoint] at ho; exact ho) rfl
        (fun a o ho => ho) (by simp))
    | control hpoint h => exact .inr (hp.control hpoint h htype)
    | collectDone collection active point hpoint hgone hactive hnext => exact .inr (hp.collected hpoint hnext)
    | collectResult address rule rest collection collection' response core core' hpoint hcollects htakes h =>
      exact .inr (hp.collectResult hpoint htakes h)
    | collectFault address rule rest collection response core fault hpoint hcollects htakes h =>
      exact .inl ⟨fault, rfl⟩
    | computed dStats core updated hpoint h => exact .inr (hp.computed hpoint h)
    | enforced job address rule rest response core hpoint htakes => exact .inr (hp.enforced hpoint htakes)
    | finished hpoint =>
      refine .inr ⟨fun a session hs => ?_, hp.answered, by simp⟩
      have hawaited := hp.awaited a session hs
      rwa [Process.Awaited, hpoint] at hawaited
  | _ => exact .inr ⟨hp.awaited, hp.answered, hp.collecting⟩

theorem drained_reach {allowed : Process → Action → Prop} (h : machine.Reach allowed p)
    (htype : p.core.controlType ≠ .dynamicLeftover) : p.Crashed ∨ Drained p := by
  induction h with
  | start h =>
    obtain ⟨_, _, _, _, core, hops, rfl⟩ := h
    obtain ⟨ops, op, rfl⟩ := initializeOps_ok hops
    exact .inr ⟨by rintro _ _ ⟨⟩, by rintro _ _ ⟨⟩, by rintro _ _ ⟨⟩⟩
  | step _ _ hstep ih =>
    have hs := step_cases hstep
    rw [hs.configured.controlType] at htype
    rcases ih htype with hc | hp
    · exact .inl (hs.crashed hc)
    · exact hp.step hs htype

end Cheferd.FeedbackLoop
