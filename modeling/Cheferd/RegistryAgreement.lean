import Cheferd.SessionSafety

namespace Cheferd

open Library

namespace Registry

open CoreControlApplication

structure Agreement (r : Registry) : Prop where
  located : r.Located
  owned : r.Owned
  entered : ∀ address key, key ∈ r.stages address →
    ∃ info, r.infos key = some info ∧ info.localAddress = address
  tracked : ∀ job address env, env ∈ r.envs job address →
    ∃ info, r.infos (stageKey job env) = some info ∧ info.localAddress = address
  stages_nodup : ∀ address, (r.stages address).Nodup
  envs_nodup : ∀ job address, (r.envs job address).Nodup

namespace Agreement

variable {r r' : Registry}

theorem empty : Registry.empty.Agreement where
  located _ _ h := nomatch h
  owned _ _ h := nomatch h
  entered _ _ h := nomatch h
  tracked _ _ _ h := nomatch h
  stages_nodup _ := List.nodup_nil
  envs_nodup _ _ := List.nodup_nil

theorem infos_iff_envs (h : r.Agreement) (job address : String) (env : ℤ) :
    (∃ info, r.infos (stageKey job env) = some info ∧ info.localAddress = address) ↔
      env ∈ r.envs job address := by
  constructor
  · rintro ⟨info, hi, rfl⟩
    obtain ⟨hkey, henv⟩ := h.located _ info hi
    obtain ⟨rfl, rfl⟩ := stageKey_inj hkey
    exact henv
  · exact h.tracked job address env

theorem stages_iff_infos (h : r.Agreement) (address key : String) :
    key ∈ r.stages address ↔ ∃ info, r.infos key = some info ∧ info.localAddress = address := by
  constructor
  · exact h.entered address key
  · rintro ⟨info, hi, rfl⟩
    exact h.owned key info hi

theorem register (h : r.Agreement) {info : StageInfo} (hnew : r.infos info.key = none) :
    (r.register info).Agreement := by
  have hold : ∀ key other, r.infos key = some other → (r.register info).infos key = some other := by
    intro key other ho
    have hne : key ≠ info.key := by
      rintro rfl
      rw [hnew] at ho
      cases ho
    simp only [Registry.register, if_neg hne, ho]
  have hself : (r.register info).infos info.key = some info := if_pos rfl
  refine ⟨h.located.register info, h.owned.register info, fun address key hk => ?_,
    fun job address env he => ?_, fun address => ?_, fun job address => ?_⟩
  · have hcases : key ∈ r.stages address ∨ key = info.key ∧ address = info.localAddress := by
      simp only [Registry.register] at hk
      split at hk
      case isTrue ha => simpa [ha] using List.mem_append.mp hk
      case isFalse => exact .inl hk
    rcases hcases with hk | ⟨rfl, rfl⟩
    · obtain ⟨other, ho, ha⟩ := h.entered address key hk
      exact ⟨other, hold key other ho, ha⟩
    · exact ⟨info, hself, rfl⟩
  · have hcases : env ∈ r.envs job address ∨
        env = info.stageEnv ∧ job = info.stageName ∧ address = info.localAddress := by
      simp only [Registry.register] at he
      split at he
      case isTrue ha => simpa [ha] using List.mem_append.mp he
      case isFalse => exact .inl he
    rcases hcases with he | ⟨rfl, rfl, rfl⟩
    · obtain ⟨other, ho, ha⟩ := h.tracked job address env he
      exact ⟨other, hold _ other ho, ha⟩
    · exact ⟨info, hself, rfl⟩
  · simp only [Registry.register]
    split
    · refine List.nodup_append.mpr ⟨h.stages_nodup address, List.nodup_singleton _, ?_⟩
      rintro key hk _ hk' rfl
      obtain ⟨other, ho, _⟩ := h.entered address key hk
      rw [List.mem_singleton.mp hk', hnew] at ho
      cases ho
    · exact h.stages_nodup address
  · simp only [Registry.register]
    split
    case isTrue ha =>
      refine List.nodup_append.mpr ⟨h.envs_nodup job address, List.nodup_singleton _, ?_⟩
      rintro env he _ he' rfl
      obtain ⟨other, ho, _⟩ := h.tracked job address env he
      rw [List.mem_singleton.mp he', ha.1, ← StageInfo.key, hnew] at ho
      cases ho
    case isFalse => exact h.envs_nodup job address

theorem purge (h : r.Agreement) {address : String} {dead : List String}
    (hp : Purge address dead r r') (hdead : ∀ key ∈ dead, key ∈ r.stages address) : r'.Agreement := by
  have hkept : ∀ key info, r.infos key = some info → key ∉ dead → r'.infos key = some info :=
    fun key info hi hk => by rw [hp.infos, if_neg hk, hi]
  refine ⟨h.located.filter hp.infos hp.envs, h.owned.purge hp, fun a key hk => ?_, fun job a env he => ?_,
    fun a => ?_, fun job a => ?_⟩
  · rw [hp.stages] at hk
    split at hk
    case isTrue =>
      obtain ⟨hk, hnot⟩ := List.mem_filter.mp hk
      obtain ⟨info, hi, ha⟩ := h.entered a key hk
      exact ⟨info, hkept key info hi (by simpa using hnot), ha⟩
    case isFalse hne =>
      obtain ⟨info, hi, ha⟩ := h.entered a key hk
      refine ⟨info, hkept key info hi fun hd => hne ?_, ha⟩
      obtain ⟨info', hi', ha'⟩ := h.entered address key (hdead key hd)
      rw [hi] at hi'
      cases hi'
      exact ha.symm.trans ha'
  · rw [hp.envs] at he
    obtain ⟨he, hnot⟩ := List.mem_filter.mp he
    obtain ⟨info, hi, ha⟩ := h.tracked job a env he
    refine ⟨info, hkept _ info hi fun hd => ?_, ha⟩
    obtain ⟨hname, henv⟩ := stageKey_inj (h.located _ info hi).1
    have hn := namesEnv_iff.mpr ⟨_, hd, info, hi, hname.symm, ha, henv.symm⟩
    simp [hn] at hnot
  · rw [hp.stages]
    split
    · exact (h.stages_nodup a).filter _
    · exact h.stages_nodup a
  · rw [hp.envs]
    exact (h.envs_nodup job a).filter _

end Agreement

end Registry

namespace FeedbackLoop

open CoreControlApplication

/-- A stage is taken under a key that no other stage has at that time, and a reply that is taken names
stages of its controller only. -/
def KeptApart (p : Process) : Action → Prop
  | .loop =>
    (p.point = .stages → p.core.pendingDataPlaneSessions > 0 →
      ∀ info ∈ p.core.localToDataQueue.head?, info.key ∉ p.core.stageInfoDetailed) ∧
    ∀ address ∈ p.point.asked, p.collects address = true →
      ∀ session ∈ p.core.localSessions.lookup address, ∀ result ∈ session.completionQueue.head?,
        ∀ key ∈ result.2.named, key ∈ p.core.stagesOf address
  | _ => True

instance : ∀ p action, Decidable (KeptApart p action)
  | _, .loop => inferInstanceAs (Decidable (_ ∧ _))
  | _, .enqueueLocal _ | _, .countLocal _ | _, .enqueueStage _ | _, .countStage | _, .enqueueRule _
  | _, .serve _ _ | _, .rehash _ => inferInstanceAs (Decidable True)

variable {p q : Process}

theorem deadOf_subset {core : CoreControlApplication} {address : String} {rates : Rates}
    (h : ∀ key ∈ rates.keys, key ∈ core.stagesOf address) :
    ∀ key ∈ core.deadOf address rates, key ∈ core.stagesOf address := by
  intro key hk
  unfold deadOf at hk
  split at hk
  · exact hk
  · obtain ⟨e, he, rfl⟩ := List.mem_map.mp hk
    exact h e.1 (List.mem_map_of_mem (List.mem_of_mem_filter he))

theorem KeptApart.named (h : KeptApart p .loop) {address rule : String} {rest : List String}
    {collection : Collection} {session session' : LocalControllerSession} {responseType : ℤ} {rates : Rates}
    (hpoint : p.point = .collect (address :: rest) collection) (hcollects : p.collects address = true)
    (hsession : p.core.localSessions.lookup address = some session)
    (hresult : session.getResult = some ((rule, .stats responseType rates), session')) :
    ∀ key ∈ rates.keys, key ∈ p.core.stagesOf address := by
  refine h.2 address (by rw [hpoint]; rfl) hcollects session hsession (rule, .stats responseType rates) ?_
  rw [(LocalControllerSession.getResult_eq_some hresult).1]
  rfl

theorem agreement_reach (h : machine.Reach KeptApart p) : p.Crashed ∨ p.registry.Agreement := by
  refine registry_invariant .empty ?_ ?_ h
  · intro p info rest hkept hpoint hpending hqueue hI
    have hp : p.registry = p.core.registry := registry_eq (by simp [hpoint])
    have hnew := hkept.1 hpoint hpending info (by rw [hqueue]; rfl)
    refine hI.register ?_
    rw [hp]
    exact AList.lookup_eq_none.mpr hnew
  · intro p r address rest collection session session' rule responseType rates hkept hpoint hcollects
      hsession hresult hpurge hI
    have hp : p.registry = p.core.registry := registry_eq (by simp [hpoint])
    refine hI.purge hpurge fun key hk => ?_
    rw [hp]
    exact deadOf_subset (hkept.named hpoint hcollects hsession hresult) key hk

structure Covered (p : Process) : Prop where
  waiting : (∀ todo collection, p.point ≠ .collect todo collection) →
    (∀ dStats, p.point ≠ .compute dStats) → ¬ p.Crashed → p.roundsCounter ≠ 0 →
    ∀ address ∈ p.sessionsSent, p.core.stagesOf address ≠ []
  collecting : ∀ todo collection, p.point = .collect todo collection → ∀ address ∈ p.sessionsSent,
    address ∈ todo ∨ address ∈ collection.collectedStats ∨ p.core.stagesOf address = []
  computing : ∀ dStats, p.point = .compute dStats → ∀ address ∈ p.sessionsSent,
    address ∈ dStats ∨ p.core.stagesOf address = []

theorem Covered.of_point
    (hwaiting : p.roundsCounter ≠ 0 → ∀ address ∈ p.sessionsSent, p.core.stagesOf address ≠ [])
    (hcollect : ∀ todo collection, p.point ≠ .collect todo collection)
    (hcompute : ∀ dStats, p.point ≠ .compute dStats) : Covered p :=
  ⟨fun _ _ _ => hwaiting, fun todo collection h => absurd h (hcollect todo collection),
    fun dStats h => absurd h (hcompute dStats)⟩

theorem Covered.of_crashed (h : p.Crashed) : Covered p := by
  obtain ⟨fault, hf⟩ := h
  refine ⟨fun _ _ hc => absurd ⟨fault, hf⟩ hc, ?_, ?_⟩ <;> simp [hf]

theorem Covered.goes {point : Point} (h : Goes p point) (hp : Covered p) :
    Covered { p with point := point } := by
  have halive := h.alive
  cases h with
  | collectSkip address rest collection hpoint h =>
    refine ⟨fun hc => absurd rfl (hc _ _), ?_, by simp⟩
    rintro _ _ ⟨⟩ a ha
    rcases hp.collecting _ _ hpoint a ha with hm | hm | hm
    · rcases List.mem_cons.mp hm with rfl | hm
      · refine .inr (.inr (by_contra fun hne => h ?_))
        exact decide_eq_true ⟨hne, fun _ => ha⟩
      · exact .inl hm
    · exact .inr (.inl hm)
    · exact .inr (.inr hm)
  | computeFault dStats fault hpoint h => exact .of_crashed ⟨fault, rfl⟩
  | collectLost address rest collection hpoint hcollects h => exact .of_crashed ⟨_, rfl⟩
  | _ => exact .of_point (hp.waiting (by simp_all) (by simp_all) halive) (by simp) (by simp)

theorem Covered.control (hpoint : p.point = .control) (h : Controls p q)
    (hl : p.core.controlType = .dynamicLeftover)
    (hhosted : Hosted p) (hp : Covered p) : Covered q := by
  have hwaits := hp.waiting (by simp [hpoint]) (by simp [hpoint]) (by simp [Process.Crashed, hpoint])
  cases h with
  | requested htype => simp [hl] at htype
  | sent htype hround =>
    obtain ⟨sessions, hcore, _⟩ := requestStatistics_tables 6 (Process.sessionOrder p.core) p.core
    refine .of_point (fun _ a ha => ?_) (by simp) (by simp)
    have hs : p.core.stagesOf a ≠ [] := by simpa using (List.mem_filter.mp ha).2
    rw [hcore]
    exact hs
  | counted htype hround => exact .of_point (fun _ => hwaits hround) (by simp) (by simp)
  | gathered htype hround =>
    have hne : p.roundsCounter ≠ 0 := by
      intro h0
      rw [h0] at hround
      cases hround
    refine ⟨fun hc => absurd rfl (hc _ _), ?_, by simp⟩
    rintro _ _ ⟨⟩ a ha
    exact .inl (mem_sessionOrder.mpr (hhosted.hosts a (hwaits hne a ha)))
  | idle htype => exact .of_point hwaits (by simp) (by simp)

theorem Covered.collectResult {address : String} {rest : List String} {collection collection' : Collection}
    {response : StageResponse} {core core' : CoreControlApplication}
    (hpoint : p.point = .collect (address :: rest) collection)
    (hsame : core.stagesOf = p.core.stagesOf)
    (h : collectStatisticsResult address response collection core = .ok (core', collection')) (hp : Covered p) :
    Covered { p with core := core', point := .collect rest collection' } := by
  refine ⟨fun hc => absurd rfl (hc _ _), ?_, by simp⟩
  rintro _ _ ⟨⟩ a ha
  obtain ⟨_, _, _, _, hstages, _, _, hdone, hkept⟩ := collectStatisticsResult_ok h
  rcases hp.collecting _ _ hpoint a ha with hm | hm | hm
  · rcases List.mem_cons.mp hm with rfl | hm
    · exact .inr hdone.symm
    · exact .inl hm
  · exact .inr (.inl (hkept a hm))
  · refine .inr (.inr ?_)
    show core'.stagesOf a = []
    rw [hstages, hsame, hm]
    split <;> rfl

theorem Covered.step {action : Action} (h : Step p action q) (hl : p.core.controlType = .dynamicLeftover)
    (hhosted : Hosted p) (hp : Covered p) : Covered q := by
  have hsame : ¬ p.Crashed → (∀ todo collection, p.point ≠ .collect todo collection) →
      (∀ dStats, p.point ≠ .compute dStats) → ¬ q.Crashed → q.roundsCounter = p.roundsCounter →
      q.sessionsSent = p.sessionsSent → q.roundsCounter ≠ 0 →
      ∀ address ∈ q.sessionsSent, q.core.stagesOf address ≠ [] := by
    intro halive hcollect hcompute hq hround hsent hne address ha
    rw [hround] at hne
    rw [hsent] at ha
    exact h.stagesOf_ne_nil hq hcollect (hp.waiting hcollect hcompute halive hne address ha)
  cases h with
  | loop h =>
    have halive := h.alive
    cases h with
    | goes point h => exact hp.goes h
    | localTaken _ _ _ hpoint | handshaken _ _ _ _ hpoint | stageTaken _ _ _ hpoint | marked _ _ _ _ hpoint
    | enforced _ _ _ _ _ _ hpoint =>
      exact .of_point (hsame halive (by simp [hpoint]) (by simp [hpoint]) (by simp [Process.Crashed]) rfl rfl)
        (by simp) (by simp)
    | control hpoint h => exact hp.control hpoint h hl hhosted
    | collectDone collection active point hpoint hgone hactive hnext =>
      rcases hnext with ⟨_, htype⟩ | rfl
      · rw [hl] at htype
        cases htype
      · refine ⟨fun _ hc => absurd rfl (hc _), by simp, ?_⟩
        rintro _ ⟨⟩ a ha
        exact (hp.collecting _ _ hpoint a ha).resolve_left List.not_mem_nil
    | collectResult address rule rest collection collection' response core core' hpoint hcollects htakes h =>
      exact hp.collectResult hpoint (funext htakes.still.stagesOf) h
    | collectFault address rule rest collection response core fault hpoint hcollects htakes h =>
      exact .of_crashed ⟨fault, rfl⟩
    | computed dStats core updated hpoint h => exact .of_point (fun hne => absurd rfl hne) (by simp) (by simp)
    | finished hpoint =>
      exact .of_point (hp.waiting (by simp [hpoint]) (by simp [hpoint]) halive) (by simp) (by simp)
  | _ => exact ⟨hp.waiting, hp.collecting, hp.computing⟩

theorem covered_reach {allowed : Process → Action → Prop} (h : machine.Reach allowed p)
    (hl : p.core.controlType = .dynamicLeftover) : Covered p := by
  induction h with
  | start h =>
    obtain ⟨_, _, _, _, core, _, rfl⟩ := h
    exact .of_point (fun hne => absurd rfl hne) (by simp [Process.start]) (by simp [Process.start])
  | step hreach _ hstep ih =>
    have hs := step_cases hstep
    rw [hs.configured.controlType] at hl
    exact (ih hl).step hs hl (hosted_reach hreach)

theorem stagesOf_ne_nil {core : CoreControlApplication} (hI : core.registry.Agreement) (hne : NoEmpty core)
    {app : Σ _ : String, Locations} (happ : app ∈ core.jobLocationTracker.entries) {address : String}
    (ha : address ∈ app.2) : core.stagesOf address ≠ [] := by
  obtain ⟨envs, henvs⟩ := Option.isSome_iff_exists.mp (AList.lookup_isSome.mpr ha)
  have hl := Assoc.lookup_of_mem_entries happ
  obtain ⟨env, henv⟩ := List.exists_mem_of_ne_nil _ ((hne _ _ hl).2 address envs henvs)
  have hmem : env ∈ core.envsOf app.1 address := by
    rw [envsOf_lookup hl, henvs]
    exact henv
  obtain ⟨info, hinfo, rfl⟩ := hI.tracked app.1 address env hmem
  exact List.ne_nil_of_mem (hI.owned _ info hinfo)

theorem deadOf_nodup {core : CoreControlApplication} (hI : core.registry.Agreement) (address : String)
    (rates : Rates) : (core.deadOf address rates).Nodup := by
  unfold deadOf
  split
  · exact hI.stages_nodup address
  · exact rates.keys_nodup.sublist (List.filter_sublist.map _)

theorem reply_taken {core : CoreControlApplication} (hI : core.registry.Agreement) {address : String}
    {rates : Rates} (hcollects : core.stagesOf address ≠ [])
    (hnamed : ∀ key ∈ rates.keys, key ∈ core.stagesOf address) (responseType : ℤ) (collection : Collection) :
    ∃ core' collection',
      collectStatisticsResult address (.stats responseType rates) collection core =
      .ok (core', collection') := by
  have hdead := deadOf_subset hnamed
  refine collectStatisticsResult_total responseType collection hI.located hcollects
    (deadOf_nodup hI address rates) (fun key hk => ?_) hdead
  obtain ⟨info, hinfo, _⟩ := hI.entered address key (hdead key hk)
  exact AList.lookup_isSome.mp (by rw [show core.stageInfoDetailed.lookup key = some info from hinfo]; rfl)

theorem LoopStep.lookups_found (h : LoopStep p q) (hkept : KeptApart p .loop) (hI : p.registry.Agreement)
    (hne : NoEmpty p.core) (hcovered : p.core.controlType = .dynamicLeftover → Covered p)
    {container : Container} (hq : q.point = .crashed (.outOfRange container)) : container = .localSessions := by
  cases h with
  | goes point h =>
    cases h with
    | computeFault dStats fault hpoint h =>
      cases hq
      obtain ⟨_, hl, app, happ, address, ha, hsent, hmissing⟩ := computeAndEnforce_outOfRange h
      have hp : p.registry = p.core.registry := registry_eq (by simp [hpoint])
      rcases (hcovered hl).computing _ hpoint address hsent with hin | hnil
      · exact absurd hin hmissing
      · exact absurd hnil (stagesOf_ne_nil (hp ▸ hI) hne happ ha)
    | stageUnknown info rest hpoint hpending hqueue h => cases hq; rfl
    | markLost info hpoint h => cases hq; rfl
    | _ => cases hq
  | control hpoint h => rcases h.point with h | h <;> simp [h] at hq
  | collectDone collection active point hpoint hgone hactive hnext =>
    rcases hnext with ⟨rfl, _⟩ | rfl <;> cases hq
  | collectFault address rule rest collection response core fault hpoint hcollects htakes h =>
    cases hq
    obtain ⟨session, session', hsession, hresult, rfl⟩ := htakes.exists_session
    cases response with
    | ack responseType value => simp [collectStatisticsResult] at h
    | handshake responseType => simp [collectStatisticsResult] at h
    | stats responseType rates =>
      have hp : p.registry = p.core.registry := registry_eq (by simp [hpoint])
      have hI' : (CoreControlApplication.registry { p.core with
          localSessions := p.core.localSessions.insert address session' }).Agreement := hp ▸ hI
      obtain ⟨core', collection', hok⟩ := reply_taken hI' (of_decide_eq_true hcollects).1
        (hkept.named hpoint hcollects hsession hresult) responseType collection
      rw [hok] at h
      cases h
  | _ => cases hq

theorem lookups_reach (h : machine.Reach KeptApart p) {container : Container}
    (hc : p.point = .crashed (.outOfRange container)) : container = .localSessions := by
  induction h with
  | start h =>
    obtain ⟨_, _, _, _, core, _, rfl⟩ := h
    cases hc
  | step hreach hkept hstep ih =>
    cases step_cases hstep with
    | loop h =>
      have hI := (agreement_reach hreach).resolve_left h.alive
      exact h.lookups_found hkept hI (noEmpty_reach hreach) (covered_reach hreach) hc
    | _ => exact ih hc

theorem registry_agreement (h : machine.Reach KeptApart p) :
    (¬ p.Crashed → (∀ info, p.point ≠ .markReady info) → ∀ address name env,
      (stageKey name env ∈ p.core.stagesOf address ↔
        ∃ info, p.core.stageInfoDetailed.lookup (stageKey name env) = some info ∧
          info.localAddress = address) ∧
      ((∃ info, p.core.stageInfoDetailed.lookup (stageKey name env) = some info ∧
          info.localAddress = address) ↔ env ∈ p.core.envsOf name address) ∧
      (p.core.stagesOf address).Nodup ∧ (p.core.envsOf name address).Nodup) ∧
    ∀ container ≠ .localSessions, p.point ≠ .crashed (.outOfRange container) := by
  refine ⟨fun hcrashed hpoint address name env => ?_, fun container hne hc => hne (lookups_reach h hc)⟩
  have hI := (agreement_reach h).resolve_left hcrashed
  rw [registry_eq hpoint] at hI
  exact ⟨hI.stages_iff_infos address _, hI.infos_iff_envs name address env, hI.stages_nodup address,
    hI.envs_nodup name address⟩

def churnRun : List Action :=
  let stage (env : ℤ) : List Action :=
    [.enqueueStage ⟨"j", env, "u", "A"⟩, .countStage, .loop, .serve "A" ⟨1, ∅⟩, .loop]
  firstController ++ [.loop] ++ stage 1 ++ stage 2 ++
    [.loop, .loop, .serve "A" ⟨0, ((∅ : Rates).insert "j+2" 5).insert "j+1" (-1)⟩, .loop, .loop, .loop]

theorem registry_agreement_churn :
    ∃ p, machine.Reach KeptApart p ∧ p.core.stagesOf "A" = ["j+2"] ∧
      ((stageKey "j" 2 ∈ p.core.stagesOf "A" ↔
        ∃ info, p.core.stageInfoDetailed.lookup (stageKey "j" 2) = some info ∧ info.localAddress = "A") ∧
      ((∃ info, p.core.stageInfoDetailed.lookup (stageKey "j" 2) = some info ∧ info.localAddress = "A") ↔
        2 ∈ p.core.envsOf "j" "A") ∧
      (p.core.stagesOf "A").Nodup ∧ (p.core.envsOf "j" "A").Nodup) ∧
      ∀ container ≠ .localSessions, p.point ≠ .crashed (.outOfRange container) := by
  obtain ⟨p, hp, hstages, hpoint⟩ : ∃ p, machine.Reach KeptApart p ∧ p.core.stagesOf "A" = ["j+2"] ∧
      p.point = .enforce [] :=
    reach_of_run .static 100 churnRun (by decide)
  obtain ⟨hagree, hfound⟩ := registry_agreement hp
  exact ⟨p, hp, hstages, hagree (by simp [Process.Crashed, hpoint]) (by simp [hpoint]) "A" "j" 2, hfound⟩

end FeedbackLoop

end Cheferd
