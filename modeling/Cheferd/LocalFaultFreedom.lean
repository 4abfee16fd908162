import Cheferd.HandshakeAgreement
import Cheferd.WaitingInstructions

namespace Cheferd

open Library Strings

namespace LocalControlApplication

open CoreControlApplication

variable {app : LocalControlApplication} {key : String} {ruleId limit : ℤ} {s : Enforcing}

theorem localPassthru_total (stages : String → Stage) (channelObject : Int32 × Int32)
    (hid : Decimal.InRange 64 ruleId)
    (hlimit : Decimal.InRange 64 limit) (hkey : key ∈ app.dataSessions) :
    ∃ result, localPassthru stages key (enforcementRule ruleId channelObject limit) app = .ok result := by
  obtain ⟨session, hl⟩ := Option.isSome_iff_exists.mp (AList.lookup_isSome.mpr hkey)
  have hfill := (fillEnforcementRule_rate channelObject _).mpr ⟨⟨hid, hlimit⟩, rfl⟩
  have hsend : ∃ result, session.createEnforcementRule (stages key)
    (enforcementRule ruleId channelObject limit) =
      .ok result := by
    rw [DataPlaneSession.createEnforcementRule, parseRule_enforcementRule]
    simp only [hfill, Fault.ok_bind]
    split <;> exact ⟨_, rfl⟩
  obtain ⟨⟨session', value⟩, hsend⟩ := hsend
  unfold localPassthru
  simp only [hl, hsend, Fault.ok_bind]
  exact ⟨_, rfl⟩

theorem enforceChannel_total (stages : String → Stage) (channelObject : Int32 × Int32)
    (hid : Decimal.InRange 64 ruleId)
    (hlimit : Decimal.InRange 64 limit) (hkey : key ∈ s.app.dataSessions) :
    ∃ t, enforceChannel stages ruleId key limit s channelObject = .ok t := by
  unfold enforceChannel
  split
  · exact ⟨_, rfl⟩
  · obtain ⟨result, hpass⟩ := localPassthru_total stages channelObject hid hlimit hkey
    rw [hpass]
    exact ⟨_, rfl⟩

theorem enforceEnv_total (stages : String → Stage) (operation : String) {rules : EnforcementOpRules}
    {envRate : Σ _ : ℤ, ℤ}
    (hid : Decimal.InRange 64 rules.ruleId) (hlimit : envRate.2.natAbs ≤ 2 ^ 53)
    (hkey : stageKey rules.stageName envRate.1 ∈ s.app.dataSessions) :
    ∃ t, enforceEnv stages operation rules s envRate = .ok t := by
  unfold enforceEnv
  split
  · exact ⟨_, rfl⟩
  · split
    · exact ⟨_, rfl⟩
    · refine Lists.foldlM_total (I := fun u : Enforcing => SameKeys s.app u.app)
        (fun u channelObject _ hu => ?_)
        ⟨rfl, fun _ => Iff.rfl⟩
      obtain ⟨t, ht⟩ := enforceChannel_total stages channelObject hid
        (limitPerChannel_inRange hlimit _) ((hu.2 _).mpr hkey)
      exact ⟨t, ht, hu.trans (enforceChannel_keys ht)⟩

theorem createEnforcementRule_total (outside : Surroundings) {request : EnforcementRules}
    (h : ∀ rules ∈ request.entries, Decimal.InRange 64 rules.2.ruleId ∧ ∀ envRate ∈ rules.2.envRates.entries,
      envRate.2.natAbs ≤ 2 ^ 53 ∧ stageKey rules.2.stageName envRate.1 ∈ app.dataSessions) :
    ∃ t, createEnforcementRule outside request app = .ok t := by
  refine Lists.foldlM_total (I := fun u : Enforcing => SameKeys app u.app) (fun u rules hrules hu => ?_)
    ⟨rfl, fun _ => Iff.rfl⟩
  obtain ⟨hid, henvs⟩ := h rules ((outside.opOrder.perm _).mem_iff.mp hrules)
  have hinner : ∃ t, enforceOperation outside u rules = .ok t := by
    refine Lists.foldlM_total (I := fun w : Enforcing => SameKeys app w.app)
      (fun w envRate henvRate hw => ?_) hu
    obtain ⟨hlimit, hkey⟩ := henvs envRate ((outside.envOrder.perm _).mem_iff.mp henvRate)
    obtain ⟨t, ht⟩ := enforceEnv_total outside.stages rules.1 hid hlimit
      ((hw.2 _).mpr hkey)
    exact ⟨t, ht, hw.trans (enforceEnv_keys ht)⟩
  obtain ⟨t, ht⟩ := hinner
  refine ⟨t, ht, ?_⟩
  exact Lists.foldlM_invariant (I := fun w : Enforcing => SameKeys app w.app)
    (fun w envRate x hw hx => hw.trans (enforceEnv_keys hx)) hu ht

theorem call_enforce_total (outside : Surroundings) {rule : EnforcementRule} {address : String}
    (hrule : rule.Writable)
    (hnodup : (rule.envs address).Nodup) (hsessions : ∀ key ∈ rule.keys address, key ∈ app.dataSessions) :
    ∃ result, LocalInterface.call outside (rule.request address) app = .ok result := by
  obtain ⟨envRates, hperm, hrequest⟩ := request_enforce hrule hnodup
  have hrules : ∀ rules ∈ ((∅ : EnforcementRules).insert rule.operation ⟨0, rule.appName, envRates⟩).entries,
      Decimal.InRange 64 rules.2.ruleId ∧ ∀ envRate ∈ rules.2.envRates.entries,
        envRate.2.natAbs ≤ 2 ^ 53 ∧ stageKey rules.2.stageName envRate.1 ∈ app.dataSessions := by
    intro rules hrules
    obtain rfl : rules = ⟨rule.operation, ⟨0, rule.appName, envRates⟩⟩ := List.mem_singleton.mp hrules
    refine ⟨(by decide : Decimal.InRange 64 0), fun envRate henvRate => ?_⟩
    obtain ⟨env, henv, rfl⟩ := List.mem_map.mp (hperm.mem_iff.mp henvRate)
    exact ⟨hrule.limit, hsessions _ (List.mem_map_of_mem henv)⟩
  obtain ⟨t, ht⟩ := createEnforcementRule_total outside hrules
  unfold LocalInterface.call
  simp only [hrequest, Fault.ok_bind, LocalInterface.handle, ht]
  exact ⟨_, rfl⟩

end LocalControlApplication

namespace ControlPlane

open CoreControlApplication LocalControllerSession FeedbackLoop HousekeepingRule

variable {s t : ControlPlane} {rules : List HousekeepingRule} {address rule : String}

def Unserved (s : ControlPlane) : Prop :=
  ∀ info, s.core.point = .markReady info → (sessionOf s.core.core info.localAddress).submissionQueue ≠ [] →
    info.key ∉ (s.locals info.localAddress).app.dataSessions

theorem Unserved.loop {core : FeedbackLoop.Process} (h : LoopStep s.core core)
    (hguard : Orderly s (.core .loop))
    (hd : Drained s.core) (hagreement : s.core.registry.Agreement) (hagreed : ∀ a, (view s a).Agreed) :
    Unserved { s with core := core } := by
  intro info hpoint _ hin
  have hmarked : s.core.point = .stages ∧ s.core.core.pendingDataPlaneSessions > 0 ∧
      s.core.core.localToDataQueue.head? = some info := by
    cases h with
    | stageTaken info rest session hpoint' hpending hqueue hsession =>
      cases hpoint
      exact ⟨hpoint', hpending, by rw [hqueue]; rfl⟩
    | goes point h => cases h <;> cases hpoint
    | control hcontrol h => rcases h.point with h | h <;> simp [h] at hpoint
    | collectDone collection active point hpoint' hgone hactive hnext =>
      rcases hnext with ⟨rfl, _⟩ | rfl <;> cases hpoint
    | _ => cases hpoint
  obtain ⟨hstages, hpending, hhead⟩ := hmarked
  have hquiet : (view s info.localAddress).Quiet :=
    quiet_of_new (Drained.sessionOf_new hd fun o ho => by rwa [Process.Awaited, hstages] at ho)
  refine hguard.unlisted hagreement hstages hpending info hhead info.localAddress ?_
  exact (Set.ext_iff.mp ((hagreed info.localAddress).quiet hquiet) info.key).mpr hin

theorem Step.unserved {action : Action} (h : Step s action t) (hguard : Orderly s action) (hd : Drained s.core)
    (hagreement : s.core.registry.Agreement) (hagreed : ∀ a, (view s a).Agreed) (hs : Unserved s) :
    Unserved t := by
  cases h with
  | core action core hserve hstage h =>
    cases FeedbackLoop.step_cases h with
    | served address reply session session' hsession h => exact absurd rfl (hserve address reply)
    | enqueueStage info => exact absurd rfl (hstage info)
    | loop h => exact .loop h hguard hd hagreement hagreed
    | _ => exact hs
  | served address rule rest outside app reply session hsession hqueue hcall =>
    intro info hpoint hne
    have hpoint : s.core.point = .markReady info := hpoint
    by_cases ha : info.localAddress = address
    · subst ha
      have houtstanding : session.outstanding = [stageReadyRule info] := by
        have hawaited := hd.awaited info.localAddress session hsession
        rw [Process.Awaited, hpoint] at hawaited
        simpa using hawaited
      obtain ⟨-, rfl⟩ := outstanding_single houtstanding hqueue
      exfalso
      apply hne
      rw [sessionOf_of_lookup (AList.lookup_insert _)]
    · simp only [setLocal, Function.update_of_ne ha]
      refine hs info hpoint ?_
      rwa [sessionOf_congr (AList.lookup_insert_ne ha)] at hne
  | stage address action process h hquiet =>
    intro info hpoint hne
    by_cases ha : info.localAddress = address
    · subst ha
      have hkept : process.app.dataSessions = (s.locals info.localAddress).app.dataSessions := by
        cases Step.offers h hquiet <;> simp [*]
      simp only [setLocal, Function.update_self, hkept]
      exact hs info hpoint hne
    · simp only [setLocal, Function.update_of_ne ha]
      exact hs info hpoint hne
  | announced address info' acknowledged ready hconnecting =>
    intro info hpoint hne
    by_cases ha : info.localAddress = address
    · subst ha
      simp only [setLocal, Function.update_self]
      exact hs info hpoint hne
    · simp only [setLocal, Function.update_of_ne ha]
      exact hs info hpoint hne

theorem unserved_reach (h : machine.Reach Orderly s) (htype : s.core.core.controlType ≠ .dynamicLeftover) :
    Unserved s := by
  induction h with
  | start h =>
    obtain ⟨_, _, _, _, core, hops, hcore⟩ := h.1
    intro info hpoint
    rw [hcore] at hpoint
    cases hpoint
  | @step s t action hreach hguard hstep ih =>
    have hs := step_cases hstep
    have htype' : s.core.core.controlType ≠ .dynamicLeftover := by
      rcases hs.core_step with he | ⟨coreAction, he⟩
      · exact he ▸ htype
      · exact (FeedbackLoop.step_cases he).configured.controlType ▸ htype
    have hdistinct : machine.Reach PlainKeys s := hreach.mono fun _ _ => And.left
    have hsound := sound_reach hreach htype'
    have halive := alive_reach hsound
    exact hs.unserved hguard ((drained_reach (core_reach hreach) htype').resolve_left halive)
      (secure_reach hsound halive).agreement ((agreed_reach hdistinct htype').resolve_left halive).2 (ih htype')

theorem call_ready_total (outside : Surroundings) {info : StageInfo} (hplain : '|' ∉ info.key.toList)
    {app : LocalControlApplication} (hnew : info.key ∉ app.dataSessions) :
    ∃ result, LocalInterface.call outside (stageReadyRule info) app = .ok result := by
  have htype := operationType_stageReady info
  have hrequest := requestOf_stageReady hplain
  simp only [requestOf, htype] at hrequest
  split at hrequest
  case h_1 key hkey =>
    cases hrequest
    obtain ⟨marked, hmarked⟩ := app.markStageReady_replies hnew
    have hhandle : LocalInterface.handle outside app (.markStageReady info.key) = .ok (marked, ⟨1, ∅⟩) := by
      simp only [LocalInterface.handle, hmarked]
    unfold LocalInterface.call
    simp only [LocalInterface.request, htype, token_eq_ok.mpr hkey, Fault.ok_bind]
    exact ⟨_, hhandle⟩
  case h_2 => cases hrequest

theorem call_total (h : machine.Reach Orderly s)
    (htype : s.core.core.controlType ≠ .dynamicLeftover)
    (hrules : s.core.core.housekeepingRules = rules.map HousekeepingRule.convert)
    (hknown : ∀ rule ∈ rules, rule.Known) (hids : ∀ raw ∈ channels rules, Decimal.InRange 32 raw.channelId)
    (hwritable : ∀ rule, .enforced rule ∈ s.core.core.history → rule.Writable)
    {session : LocalControllerSession} {rest : List String}
    (hsession : s.core.core.localSessions.lookup address = some session)
    (hqueue : session.submissionQueue = rule :: rest) (outside : Surroundings) :
    ∃ result, LocalInterface.call outside rule (s.locals address).app = .ok result := by
  have hdistinct : machine.Reach PlainKeys s := h.mono fun _ _ => And.left
  have hsound := sound_reach h htype
  have halive := alive_reach hsound
  have hd := (drained_reach (core_reach h) htype).resolve_left halive
  obtain ⟨instructions, hw⟩ := waiting_reach h htype address
  rcases awaited_cases (hd.awaited address session hsession) hqueue with
    ⟨hpoint, rfl⟩ | ⟨info, hpoint, rfl, rfl, rfl⟩ | rfl | ⟨⟨todo, hpoint⟩, htype6⟩
  · obtain ⟨app, happ⟩ := (LocalControlApplication.localHandshake_succeeds_iff hknown
      (s.locals address).app).mpr hids
    rw [call_localHandshakeRule outside hknown hrules, happ]
    exact ⟨_, rfl⟩
  · obtain ⟨instruction, instructions', rfl, hinstruction, -⟩ :=
      hw.next hsession hqueue (.inl (operationType_stageReady info))
    cases instruction with
    | enforce rule =>
      have htype1 := operationType_stageReady info
      rw [← hinstruction, Instruction.request, EnforcementRule.request, operationType_enforcementRule] at htype1
      cases htype1
    | ready info' =>
      have hkeys : info'.key = info.key :=
        (String.append_right_inj _).mp ((String.append_left_inj _).mp hinstruction)
      have hplain : '|' ∉ info.key.toList := hkeys ▸ hw.plain info' List.mem_cons_self
      refine call_ready_total outside hplain (unserved_reach h htype info hpoint ?_)
      rw [sessionOf_of_lookup hsession, hqueue]
      exact List.cons_ne_nil _ _
  · rw [call_collectStatistics (.inl rfl)]
    exact ⟨_, rfl⟩
  · obtain ⟨instruction, instructions', rfl, rfl, -⟩ := hw.next hsession hqueue (.inr htype6)
    cases instruction with
    | ready info =>
      rw [Instruction.request, operationType_stageReady] at htype6
      cases htype6
    | enforce rule =>
      have hagreed := ((agreed_reach hdistinct htype).resolve_left halive).2 address
      obtain ⟨hnodup, hheld⟩ := keys_held hpoint hd (secure_reach hsound halive).agreement hagreed hsession
        (hw.tracked rule List.mem_cons_self)
      have hlogged := mem_instructionsTo (hw.logged.subset List.mem_cons_self)
      exact LocalControlApplication.call_enforce_total outside (hwritable rule hlogged) hnodup hheld

theorem serve_total (h : machine.Reach Orderly s) (htype : s.core.core.controlType ≠ .dynamicLeftover)
    (hrules : s.core.core.housekeepingRules = rules.map HousekeepingRule.convert)
    (hknown : ∀ rule ∈ rules, rule.Known) (hids : ∀ raw ∈ channels rules, Decimal.InRange 32 raw.channelId)
    (hwritable : ∀ rule, .enforced rule ∈ s.core.core.history → rule.Writable)
    (hnext : nextRule s.core address = some rule) (outside : Surroundings) :
    ∃ t, machine.step s (.serve address outside) = some t := by
  obtain ⟨session, hsession, hhead⟩ := Option.bind_eq_some_iff.mp hnext
  obtain ⟨rest, hqueue⟩ := List.head?_eq_some_iff.mp hhead
  obtain ⟨⟨app, reply⟩, hcall⟩ := call_total h htype hrules hknown hids hwritable hsession hqueue outside
  simp only [machine, step, serve, hnext, hcall, Process.step, hsession, LocalControllerSession.serve, hqueue,
    Option.map_some]
  exact ⟨_, rfl⟩

end ControlPlane

end Cheferd
