import Cheferd.ComputeRules

namespace Cheferd

open Library Strings

namespace EnforcementRule

open CoreControlApplication

def request (rule : EnforcementRule) (address : String) : String :=
  enforcementRule rule.appName rule.operation ((rule.localToEnvs.lookup address).getD []) rule.limitPerStage

def app (rule : EnforcementRule) : Σ _ : String, Locations := ⟨rule.appName, rule.localToEnvs⟩

end EnforcementRule

namespace CoreControlApplication

variable {core core' core'' : CoreControlApplication}

structure Frame (core core' : CoreControlApplication) : Prop where
  localQueue : core'.localQueue = core.localQueue
  localToDataQueue : core'.localToDataQueue = core.localToDataQueue
  controlType : core'.controlType = core.controlType
  localSessions : ∀ address, address ∈ core'.localSessions ↔ address ∈ core.localSessions
  localToStages : core'.localToStages = core.localToStages
  stageInfoDetailed : core'.stageInfoDetailed = core.stageInfoDetailed
  jobLocationTracker : core'.jobLocationTracker = core.jobLocationTracker
  maximumLimit : core'.maximumLimit = core.maximumLimit
  activeLocalControllerSessions : core'.activeLocalControllerSessions = core.activeLocalControllerSessions
  pendingLocalControllerSessions :
    core'.pendingLocalControllerSessions = core.pendingLocalControllerSessions
  pendingDataPlaneSessions : core'.pendingDataPlaneSessions = core.pendingDataPlaneSessions
  housekeepingRules : core'.housekeepingRules = core.housekeepingRules
  hash : core'.hash = core.hash

namespace Frame

theorem refl (core : CoreControlApplication) : Frame core core :=
  ⟨rfl, rfl, rfl, fun _ => Iff.rfl, rfl, rfl, rfl, rfl, rfl, rfl, rfl, rfl, rfl⟩

theorem trans (h : Frame core core') (h' : Frame core' core'') : Frame core core'' where
  localQueue := h'.localQueue.trans h.localQueue
  localToDataQueue := h'.localToDataQueue.trans h.localToDataQueue
  controlType := h'.controlType.trans h.controlType
  localSessions address := (h'.localSessions address).trans (h.localSessions address)
  localToStages := h'.localToStages.trans h.localToStages
  stageInfoDetailed := h'.stageInfoDetailed.trans h.stageInfoDetailed
  jobLocationTracker := h'.jobLocationTracker.trans h.jobLocationTracker
  maximumLimit := h'.maximumLimit.trans h.maximumLimit
  activeLocalControllerSessions := h'.activeLocalControllerSessions.trans h.activeLocalControllerSessions
  pendingLocalControllerSessions :=
    h'.pendingLocalControllerSessions.trans h.pendingLocalControllerSessions
  pendingDataPlaneSessions := h'.pendingDataPlaneSessions.trans h.pendingDataPlaneSessions
  housekeepingRules := h'.housekeepingRules.trans h.housekeepingRules
  hash := h'.hash.trans h.hash

theorem stagesOf (h : Frame core core') (address : String) :
    core'.stagesOf address = core.stagesOf address := by
  rw [CoreControlApplication.stagesOf, CoreControlApplication.stagesOf, h.localToStages]

theorem envsOf (h : Frame core core') (job address : String) :
    core'.envsOf job address = core.envsOf job address := by
  rw [CoreControlApplication.envsOf, CoreControlApplication.envsOf, h.jobLocationTracker]

end Frame

theorem submitEnforcementRules_ok {app operation : String} {locations : Locations} {limit : ℤ}
    {addresses updated updated' : List String} (hnodup : addresses.Nodup)
    (h : submitEnforcementRules app operation locations limit addresses core updated =
      .ok (core', updated')) :
    core' = { core with localSessions := core'.localSessions } ∧
      updated' = updated ++ addresses.map (updatedKey app) ∧
      (∀ a ∈ addresses, a ∈ core.localSessions) ∧
      ∀ a, core'.localSessions.lookup a = (core.localSessions.lookup a).map fun session =>
        if a ∈ addresses then
          session.submitRule (enforcementRule app operation ((locations.lookup a).getD []) limit)
        else session := by
  induction addresses generalizing core updated with
  | nil =>
    cases h
    refine ⟨rfl, by simp, by simp, fun a => ?_⟩
    cases core'.localSessions.lookup a <;> simp
  | cons address rest ih =>
    obtain ⟨hnotin, hnodup⟩ := List.nodup_cons.mp hnodup
    obtain ⟨core₁, h₁, h⟩ := Fault.bind_eq_ok.mp h
    unfold submitRule at h₁
    split at h₁
    · cases h₁
    case h_2 session hs =>
      cases h₁
      obtain ⟨hcore, hupdated, hmem, hlookup⟩ := ih hnodup h
      refine ⟨hcore, by simp [hupdated], fun a ha => ?_, fun a => ?_⟩
      · by_cases he : a = address
        · exact AList.lookup_isSome.mp (by rw [he, hs]; rfl)
        · have hrest : a ∈ rest := (List.mem_cons.mp ha).resolve_left he
          exact ((AList.mem_insert _).mp (hmem a hrest)).resolve_left he
      · rw [hlookup a]
        by_cases ha : a = address
        · subst ha
          simp [AList.lookup_insert, hs, hnotin]
        · simp [AList.lookup_insert_ne ha, ha]

theorem order_nodup (core : CoreControlApplication) (app : String) (locations : Locations) :
    (core.hash.order app locations.keys).Nodup :=
  (core.hash.perm _ _).nodup_iff.mpr locations.keys_nodup

theorem mem_order {app address : String} {locations : Locations} :
    address ∈ core.hash.order app locations.keys ↔ address ∈ locations := by
  rw [(core.hash.perm _ _).mem_iff, AList.mem_keys]

def limitPerStage (core : CoreControlApplication) (app : String) (locations : Locations) : ℤ :=
  Double.ofInt ((core.jobRates.read app).tdiv (totalStages locations))

structure Sent (app operation : String) (locations : Locations) (core core' : CoreControlApplication) :
    Prop where
  frame : Frame core core'
  jobRates : core'.jobRates = core.jobRates
  jobDemands : core'.jobDemands = core.jobDemands
  jobPreviousRates : core'.jobPreviousRates = core.jobPreviousRates.insert app (core.jobRates.read app)
  changeInSystem : core'.changeInSystem = core.changeInSystem
  activeOp : core'.activeOp = core.activeOp
  pendingRulesQueue : core'.pendingRulesQueue = core.pendingRulesQueue
  history : core'.history =
    .enforced ⟨app, operation, locations, limitPerStage core app locations⟩ :: core.history
  hosted : ∀ address ∈ locations, address ∈ core.localSessions
  sessions : ∀ address, core'.localSessions.lookup address =
    (core.localSessions.lookup address).map fun session =>
      if address ∈ locations then
        session.submitRule (enforcementRule app operation ((locations.lookup address).getD [])
          (limitPerStage core app locations))
      else session

theorem sendEnforcementRule_ok {app operation : String} {locations : Locations}
    {updated updated' : List String}
    (h : sendEnforcementRule app locations operation core updated = .ok (core', updated')) :
    Sent app operation locations core core' ∧
      updated' = updated ++ (core.hash.order app locations.keys).map (updatedKey app) := by
  unfold sendEnforcementRule at h
  dsimp only at h
  split at h
  · cases h
  · obtain ⟨hcore, hupdated, hmem, hlookup⟩ := submitEnforcementRules_ok (order_nodup core app locations) h
    refine ⟨?_, hupdated⟩
    simp only [mem_order] at hmem hlookup
    have hkeys : ∀ address, address ∈ core'.localSessions ↔ address ∈ core.localSessions := by
      intro address
      rw [← AList.lookup_isSome, ← AList.lookup_isSome, hlookup, Option.isSome_map]
    rw [hcore]
    exact ⟨⟨rfl, rfl, rfl, hkeys, rfl, rfl, rfl, rfl, rfl, rfl, rfl, rfl, rfl⟩, rfl, rfl, rfl, rfl, rfl, rfl,
      rfl, hmem, hlookup⟩

theorem submitEnforcementRules_total {app operation : String} {locations : Locations} {limit : ℤ}
    {addresses updated : List String} (hosted : ∀ a ∈ addresses, a ∈ core.localSessions) :
    ∃ s, submitEnforcementRules app operation locations limit addresses core updated = .ok s := by
  induction addresses generalizing core updated with
  | nil => exact ⟨_, rfl⟩
  | cons address rest ih =>
    obtain ⟨session, hs⟩ := Option.isSome_iff_exists.mp
      (AList.lookup_isSome.mpr (hosted address List.mem_cons_self))
    simp only [submitEnforcementRules, submitRule, hs, Fault.ok_bind]
    exact ih fun a ha => (AList.mem_insert _).mpr (.inr (hosted a (List.mem_cons_of_mem _ ha)))

theorem sendEnforcementRule_total {app operation : String} {locations : Locations} {updated : List String}
    (htotal : totalStages locations ≠ 0) (hosted : ∀ address ∈ locations, address ∈ core.localSessions) :
    ∃ s, sendEnforcementRule app locations operation core updated = .ok s := by
  simp only [sendEnforcementRule, if_neg htotal]
  exact submitEnforcementRules_total fun a ha => hosted a (mem_order.mp ha)

def withRates (rates : Assoc String ℤ) (core : CoreControlApplication) : CoreControlApplication :=
  { core with jobRates := rates }

inductive Turn (operation : String) (app : Σ _ : String, Locations) : Enforcement → Enforcement → Prop
  | kept {s : Enforcement} (rates : Assoc String ℤ) : Turn operation app s (withRates rates s.1, s.2)
  | sent {s s' : Enforcement} (rates : Assoc String ℤ)
      (hsent : Sent app.1 operation app.2 (withRates rates s.1) s'.1)
      (hupdated : s'.2 = s.2 ++ (s.1.hash.order app.1 app.2.keys).map (updatedKey app.1)) :
      Turn operation app s s'

inductive Turns (operation : String) : List (Σ _ : String, Locations) → Enforcement → Enforcement → Prop
  | nil (s : Enforcement) : Turns operation [] s s
  | cons {app : Σ _ : String, Locations} {apps : List (Σ _ : String, Locations)} {s t u : Enforcement} :
      Turn operation app s t → Turns operation apps t u → Turns operation (app :: apps) s u

theorem turns_of_foldlM {operation : String}
    {body : Enforcement → (Σ _ : String, Locations) → Except Fault Enforcement}
    (hbody : ∀ s app t, body s app = .ok t → Turn operation app s t)
    {apps : List (Σ _ : String, Locations)} {s t : Enforcement} (h : apps.foldlM body s = .ok t) :
    Turns operation apps s t := by
  induction apps generalizing s with
  | nil =>
    cases h
    exact .nil _
  | cons app apps ih =>
    rw [List.foldlM_cons] at h
    obtain ⟨u, hu, h⟩ := Fault.bind_eq_ok.mp h
    exact .cons (hbody s app u hu) (ih h)

theorem Turn.frame {operation : String} {app : Σ _ : String, Locations} {s t : Enforcement}
    (h : Turn operation app s t) : Frame s.1 t.1 := by
  have hrates : ∀ rates, Frame s.1 (withRates rates s.1) := fun _ =>
    ⟨rfl, rfl, rfl, fun _ => Iff.rfl, rfl, rfl, rfl, rfl, rfl, rfl, rfl, rfl, rfl⟩
  cases h with
  | kept rates => exact hrates rates
  | sent rates hsent => exact (hrates rates).trans hsent.frame

theorem Turns.frame {operation : String} {apps : List (Σ _ : String, Locations)} {s t : Enforcement}
    (h : Turns operation apps s t) : Frame s.1 t.1 := by
  induction h with
  | nil => exact .refl _
  | cons hturn _ ih => exact hturn.frame.trans ih

theorem enforceStatic_turn {operation : String} {app : Σ _ : String, Locations} {s t : Enforcement}
    (h : enforceStatic operation s app = .ok t) : Turn operation app s t := by
  unfold enforceStatic at h
  split at h
  · cases h
    exact .kept _
  · obtain ⟨hsent, hupdated⟩ := sendEnforcementRule_ok h
    exact .sent s.1.jobRates hsent hupdated

theorem enforceVanilla_turn {operation : String} {leftover : ℤ} {app : Σ _ : String, Locations}
    {s t : Enforcement} (h : enforceVanilla operation leftover s app = .ok t) : Turn operation app s t := by
  unfold enforceVanilla at h
  dsimp only at h
  split at h
  · cases h
    exact .kept _
  · obtain ⟨hsent, hupdated⟩ := sendEnforcementRule_ok h
    exact .sent _ hsent hupdated

theorem enforceLeftover_turn {operation : String} {kept : List String} {perc : ℚ}
    {app : Σ _ : String, Locations} {s t : Enforcement}
    (h : enforceLeftover operation kept perc s app = .ok t) : Turn operation app s t := by
  unfold enforceLeftover at h
  split at h
  · cases h
    exact .kept s.1.jobRates
  · obtain ⟨hsent, hupdated⟩ := sendEnforcementRule_ok h
    exact .sent _ hsent hupdated

section Requests

structure Requests (operation : String) (apps : List (Σ _ : String, Locations)) (rules : List EnforcementRule)
    (s t : Enforcement) : Prop where
  sublist : (rules.map EnforcementRule.app).Sublist apps
  operation : ∀ rule ∈ rules, rule.operation = operation
  history : t.1.history = (rules.map .enforced).reverse ++ s.1.history
  updated : t.2 = s.2 ++ rules.flatMap fun rule =>
    (s.1.hash.order rule.appName rule.localToEnvs.keys).map (updatedKey rule.appName)
  hosted : ∀ rule ∈ rules, ∀ address ∈ rule.localToEnvs, address ∈ s.1.localSessions
  sessions : ∀ address, t.1.localSessions.lookup address = (s.1.localSessions.lookup address).map
    fun session => { session with
      submissionQueue := session.submissionQueue ++
        (rules.filter (address ∈ ·.localToEnvs)).map (·.request address) }
  limits : ∀ rule ∈ rules, rule.limitPerStage =
    Double.ofInt ((t.1.jobPreviousRates.read rule.appName).tdiv (totalStages rule.localToEnvs))
  kept : ∀ job, (∀ rule ∈ rules, rule.appName ≠ job) →
    t.1.jobPreviousRates.lookup job = s.1.jobPreviousRates.lookup job
  changeInSystem : t.1.changeInSystem = s.1.changeInSystem
  jobDemands : t.1.jobDemands = s.1.jobDemands

theorem Turns.requests {operation : String} {apps : List (Σ _ : String, Locations)} {s t : Enforcement}
    (h : Turns operation apps s t) (hnodup : (apps.map Sigma.fst).Nodup) :
    ∃ rules, Requests operation apps rules s t := by
  -- The induction is over the turns; that no job comes twice keeps its last rate
  induction h with
  | nil s =>
    refine ⟨[], List.Sublist.slnil, by simp, rfl, by simp, by simp, fun address => ?_, by simp,
      fun _ _ => rfl, rfl, rfl⟩
    cases s.1.localSessions.lookup address <;> simp
  | @cons app apps s t u hturn hrest ih =>
    obtain ⟨hnotin, hnodup⟩ := List.nodup_cons.mp hnodup
    obtain ⟨rules, hr⟩ := ih hnodup
    cases hturn with
    | kept rates =>
      exact ⟨rules, hr.sublist.cons app, hr.operation, hr.history, hr.updated, hr.hosted,
        hr.sessions, hr.limits, hr.kept, hr.changeInSystem, hr.jobDemands⟩
    | sent rates hsent hupdated =>
      have hother : ∀ rule ∈ rules, rule.appName ≠ app.1 := by
        rintro rule hrule he
        refine hnotin (he ▸ List.mem_map.mpr ⟨rule.app, hr.sublist.subset (List.mem_map_of_mem hrule), rfl⟩)
      have hhash : t.1.hash = s.1.hash := hsent.frame.hash
      refine ⟨⟨app.1, operation, app.2, limitPerStage (withRates rates s.1) app.1 app.2⟩ :: rules,
        hr.sublist.cons_cons app, ?_, ?_, ?_, ?_, ?_, ?_, ?_, ?_, ?_⟩
      · rintro rule hrule
        rcases List.mem_cons.mp hrule with rfl | hrule
        · rfl
        · exact hr.operation rule hrule
      · rw [hr.history, hsent.history]
        simp [withRates]
      · rw [hr.updated, hupdated, hhash]
        simp
      · rintro rule hrule a ha
        rcases List.mem_cons.mp hrule with rfl | hrule
        · exact hsent.hosted a ha
        · exact (hsent.frame.localSessions a).mp (hr.hosted rule hrule a ha)
      · intro a
        rw [hr.sessions, hsent.sessions, Option.map_map]
        congr 1
        funext session
        by_cases ha : a ∈ app.2 <;> simp [ha, LocalControllerSession.submitRule, EnforcementRule.request]
      · rintro rule hrule
        rcases List.mem_cons.mp hrule with rfl | hrule
        · have hlast : u.1.jobPreviousRates.read app.1 = rates.read app.1 := by
            rw [Assoc.read, hr.kept app.1 hother, hsent.jobPreviousRates, AList.lookup_insert]
            rfl
          rw [hlast]
          rfl
        · exact hr.limits rule hrule
      · intro job hjob
        rw [hr.kept job fun rule hrule => hjob rule (List.mem_cons_of_mem _ hrule), hsent.jobPreviousRates,
          AList.lookup_insert_ne fun he => hjob _ List.mem_cons_self he.symm]
        rfl
      · exact hr.changeInSystem.trans hsent.changeInSystem
      · exact hr.jobDemands.trans hsent.jobDemands

end Requests

def Prepared (core core' : CoreControlApplication) : Prop :=
  ∃ queue demands rates op flag,
    core' = { core with
      pendingRulesQueue := queue
      jobDemands := demands
      jobRates := rates
      activeOp := op
      changeInSystem := flag } ∧ (core.changeInSystem = true → flag = true)

namespace Prepared

theorem refl (core : CoreControlApplication) : Prepared core core :=
  ⟨_, _, _, _, _, rfl, fun h => h⟩

theorem trans (h : Prepared core core') (h' : Prepared core' core'') : Prepared core core'' := by
  obtain ⟨_, _, _, _, _, rfl, hf⟩ := h
  obtain ⟨_, _, _, _, _, rfl, hf'⟩ := h'
  exact ⟨_, _, _, _, _, rfl, fun hc => hf' (hf hc)⟩

theorem frame (h : Prepared core core') : Frame core core' := by
  obtain ⟨_, _, _, _, _, rfl, _⟩ := h
  exact ⟨rfl, rfl, rfl, fun _ => Iff.rfl, rfl, rfl, rfl, rfl, rfl, rfl, rfl, rfl, rfl⟩

theorem tables (demands rates : Assoc String ℤ) :
    Prepared core { core with jobDemands := demands, jobRates := rates } :=
  ⟨_, _, _, _, _, rfl, fun h => h⟩

end Prepared

theorem updateJobDemands_prepared {operation : String} (h : updateJobDemands core = .ok (operation, core')) :
    Prepared core core' ∧ core'.jobRates = core.jobRates ∧ core'.changeInSystem = core.changeInSystem := by
  have hself : ∀ queue demands op, Prepared core
      { core with pendingRulesQueue := queue, jobDemands := demands, activeOp := op } := fun _ _ _ =>
    ⟨_, _, _, _, _, rfl, fun h => h⟩
  unfold updateJobDemands at h
  split at h
  · cases h
    exact ⟨.refl _, rfl, rfl⟩
  case h_2 rule rest =>
    dsimp only at h
    split at h
    · cases h
      exact ⟨hself _ _ _, rfl, rfl⟩
    · obtain ⟨kind, _, h⟩ := Fault.bind_eq_ok.mp h
      split at h
      · simp only [Fault.bind_eq_ok] at h
        obtain ⟨job, _, op, _, t, _, demand, _, h⟩ := h
        cases h
        exact ⟨hself _ _ _, rfl, rfl⟩
      · cases h
        exact ⟨hself _ _ _, rfl, rfl⟩

theorem ratesFromDemands_frame (core : CoreControlApplication) :
    ratesFromDemands core = { core with jobRates := (ratesFromDemands core).jobRates } := by
  have hfold : ∀ (entries : List (Σ _ : String, ℤ)) (core : CoreControlApplication),
      ∃ rates, entries.foldl (fun core e => if e.2 = -1 then core else setRate e.1 e.2 core) core =
        { core with jobRates := rates } := by
    intro entries
    induction entries with
    | nil => exact fun core => ⟨core.jobRates, rfl⟩
    | cons e entries ih =>
      intro core
      rw [List.foldl_cons]
      obtain ⟨rates, hr⟩ := ih (if e.2 = -1 then core else setRate e.1 e.2 core)
      refine ⟨rates, hr.trans ?_⟩
      split <;> rfl
  obtain ⟨rates, hr⟩ := hfold core.jobDemands.entries core
  rw [ratesFromDemands, hr]

theorem assignShares_frame (names : List String) (currentJobs left : ℤ) (core : CoreControlApplication) :
    (assignShares names currentJobs left core).1 = { core with
      jobDemands := (assignShares names currentJobs left core).1.jobDemands
      jobRates := (assignShares names currentJobs left core).1.jobRates } := by
  induction names generalizing currentJobs left core with
  | nil => rfl
  | cons job rest ih =>
    unfold assignShares
    dsimp only
    split
    · exact ih _ _ _
    · exact ih _ _ _

theorem assignUsage_frame {dStats : Assoc String Rates} {sessionsSent : List String}
    {apps : List (Σ _ : String, Locations)} {currentJobs : ℤ} {usage usage' : Usage}
    (h : assignUsage dStats sessionsSent apps currentJobs core usage = .ok (core', usage')) :
    core' = { core with jobRates := core'.jobRates } := by
  induction apps generalizing core currentJobs usage with
  | nil =>
    cases h
    rfl
  | cons app rest ih =>
    obtain ⟨total, _, h⟩ := Fault.bind_eq_ok.mp h
    have hrest := ih h
    exact hrest

theorem distributeLeftover_frame (usage : Usage) (core : CoreControlApplication) :
    distributeLeftover usage core = { core with jobRates := (distributeLeftover usage core).jobRates } := by
  unfold distributeLeftover
  split
  · rfl
  · generalize usage.perAppUsage = shares
    induction shares generalizing core with
    | nil => rfl
    | cons share shares ih =>
      rw [List.foldl_cons]
      exact ih _

theorem ratesFromDemands_prepared : Prepared core (ratesFromDemands core) := by
  rw [ratesFromDemands_frame]
  exact .tables _ _

theorem assignShares_prepared (names : List String) (currentJobs leftIops : ℤ) :
    Prepared core (assignShares names currentJobs leftIops core).1 := by
  rw [assignShares_frame]
  exact .tables _ _

theorem assignUsage_prepared {dStats : Assoc String Rates} {sessionsSent : List String}
    {apps : List (Σ _ : String, Locations)} {currentJobs : ℤ} {usage usage' : Usage}
    (h : assignUsage dStats sessionsSent apps currentJobs core usage = .ok (core', usage')) :
    Prepared core core' := by
  rw [assignUsage_frame h]
  exact .tables _ _

theorem distributeLeftover_prepared (usage : Usage) : Prepared core (distributeLeftover usage core) := by
  rw [distributeLeftover_frame]
  exact .tables _ _

theorem computeAndEnforceStaticRules_cases {updated : List String}
    (h : computeAndEnforceStaticRules core = .ok (core', updated)) :
    ∃ operation core₁ flag, updateJobDemands core = .ok (operation, core₁) ∧
      (flag = true ↔ core.changeInSystem = true ∨ operation ≠ "") ∧
      ((flag = false ∨ core.jobLocationTracker.entries = []) ∧
          core' = { core₁ with changeInSystem := flag } ∧ updated = [] ∨
        flag = true ∧ core.jobLocationTracker.entries.foldlM (enforceStatic core₁.activeOp)
          (ratesFromDemands { core₁ with changeInSystem := flag }, []) = .ok (core', updated)) := by
  obtain ⟨⟨operation, core₁⟩, h₁, h⟩ := Fault.bind_eq_ok.mp h
  obtain ⟨hprepared, _, hflag₁⟩ := updateJobDemands_prepared h₁
  obtain ⟨flag, hflag, hcore₂⟩ : ∃ flag, (flag = true ↔ core.changeInSystem = true ∨ operation ≠ "") ∧
      (if operation = "" then core₁ else { core₁ with changeInSystem := true }) =
        { core₁ with changeInSystem := flag } := by
    by_cases hop : operation = ""
    · exact ⟨core₁.changeInSystem, by simp [hop, hflag₁], by rw [if_pos hop]⟩
    · exact ⟨true, by simp [hop], by rw [if_neg hop]⟩
  refine ⟨operation, core₁, flag, h₁, hflag, ?_⟩
  rw [← hprepared.frame.jobLocationTracker]
  dsimp only at h
  rw [hcore₂] at h
  split at h
  case isTrue hquiet =>
    cases h
    exact .inl ⟨hquiet, rfl, rfl⟩
  case isFalse hrun => exact .inr ⟨by simpa using (not_or.mp hrun).1, h⟩

theorem computeAndEnforceDynamicVanillaRules_cases {updated : List String}
    (h : computeAndEnforceDynamicVanillaRules core = .ok (core', updated)) :
    ∃ operation core₁, updateJobDemands core = .ok (operation, core₁) ∧
      (core.jobs = [] ∧ core' = core₁ ∧ updated = [] ∨
        core.jobs ≠ [] ∧ ∃ core₂ left,
          assignShares core₁.jobs core₁.jobs.length core₁.maximumLimit core₁ = (core₂, left) ∧
          core₂ = { core₁ with jobDemands := core₂.jobDemands, jobRates := core₂.jobRates } ∧
          core.jobLocationTracker.entries.foldlM
            (enforceVanilla core₁.activeOp (left.tdiv core₁.jobs.length)) (core₂, []) =
            .ok (core', updated)) := by
  obtain ⟨⟨operation, core₁⟩, h₁, h⟩ := Fault.bind_eq_ok.mp h
  have htracker := (updateJobDemands_prepared h₁).1.frame.jobLocationTracker
  refine ⟨operation, core₁, h₁, ?_⟩
  rw [jobs, ← htracker]
  dsimp only at h
  split at h
  case isTrue hnil =>
    cases h
    exact .inl ⟨List.eq_nil_of_length_eq_zero (by exact_mod_cast hnil), rfl, rfl⟩
  case isFalse hjobs =>
    have hframe := assignShares_frame core₁.jobs core₁.jobs.length core₁.maximumLimit core₁
    have hactive := congrArg activeOp hframe
    have hsame := congrArg jobLocationTracker hframe
    refine .inr ⟨fun hnil => hjobs (by rw [jobs, hnil]; rfl), _, _, rfl, hframe, ?_⟩
    rw [← hsame, ← hactive]
    exact h

theorem computeAndEnforceDynamicLeftoverRules_cases {dStats : Assoc String Rates}
    {sessionsSent updated : List String}
    (h : computeAndEnforceDynamicLeftoverRules dStats sessionsSent core = .ok (core', updated)) :
    ∃ operation core₁, updateJobDemands core = .ok (operation, core₁) ∧
      (core.jobs = [] ∧ core' = core₁ ∧ updated = [] ∨
        core.jobs ≠ [] ∧ ∃ core₂ usage core₃,
          assignUsage dStats sessionsSent core.jobLocationTracker.entries core₁.jobs.length core₁
            ⟨[], 0, unsigned core₁.maximumLimit⟩ = .ok (core₂, usage) ∧
          core₃ = distributeLeftover usage core₂ ∧
          core₃ = { core₁ with jobRates := core₃.jobRates } ∧
          core.jobLocationTracker.entries.foldlM
            (enforceLeftover core₁.activeOp (core₃.jobs.filter (maintained usage.systemTotalRate core₃))
              (variedPerc usage.systemTotalRate core₃)) (core₃, []) = .ok (core', updated)) := by
  obtain ⟨⟨operation, core₁⟩, h₁, h⟩ := Fault.bind_eq_ok.mp h
  have htracker := (updateJobDemands_prepared h₁).1.frame.jobLocationTracker
  refine ⟨operation, core₁, h₁, ?_⟩
  rw [jobs, ← htracker]
  dsimp only at h
  split at h
  case isTrue hnil =>
    cases h
    exact .inl ⟨hnil, rfl, rfl⟩
  case isFalse hjobs =>
    obtain ⟨⟨core₂, usage⟩, h₂, h⟩ := Fault.bind_eq_ok.mp h
    have hframe : distributeLeftover usage core₂ =
        { core₁ with jobRates := (distributeLeftover usage core₂).jobRates } := by
      rw [distributeLeftover_frame, assignUsage_frame h₂]
    have hactive := congrArg activeOp hframe
    have hsame := congrArg jobLocationTracker hframe
    refine .inr ⟨hjobs, core₂, usage, _, h₂, rfl, hframe, ?_⟩
    rw [← hsame, ← hactive]
    exact h

def Computes (core core' : CoreControlApplication) (updated : List String) : Prop :=
  ∃ core₁ operation, Prepared core core₁ ∧ (core' = core₁ ∧ updated = [] ∨
    Turns operation core.jobLocationTracker.entries (core₁, []) (core', updated))

theorem Computes.frame {updated : List String} (h : Computes core core' updated) : Frame core core' := by
  obtain ⟨core₁, _, hp, ⟨rfl, _⟩ | ht⟩ := h
  · exact hp.frame
  · exact hp.frame.trans ht.frame

theorem Computes.requests {updated : List String} (h : Computes core core' updated) :
    ∃ core₁ operation rules, Prepared core core₁ ∧
      Requests operation core.jobLocationTracker.entries rules (core₁, []) (core', updated) := by
  obtain ⟨core₁, operation, hp, ⟨rfl, rfl⟩ | ht⟩ := h
  · refine ⟨core', operation, [], hp, by simp, by simp, rfl, by simp, by simp, fun address => ?_, by simp,
      fun _ _ => rfl, rfl, rfl⟩
    cases core'.localSessions.lookup address <;> simp
  · obtain ⟨rules, hr⟩ := ht.requests core.jobLocationTracker.keys_nodup
    exact ⟨core₁, operation, rules, hp, hr⟩

theorem computeAndEnforceStaticRules_computes {updated : List String}
    (h : computeAndEnforceStaticRules core = .ok (core', updated)) : Computes core core' updated := by
  obtain ⟨operation, core₁, flag, h₁, hflag, hcases⟩ := computeAndEnforceStaticRules_cases h
  obtain ⟨hprepared, _, hflag₁⟩ := updateJobDemands_prepared h₁
  have hp : Prepared core { core₁ with changeInSystem := flag } := by
    apply hprepared.trans
    exact ⟨_, _, _, _, _, rfl, fun hset => hflag.mpr (.inl (hflag₁ ▸ hset))⟩
  rcases hcases with ⟨_, hcore', hupdated⟩ | ⟨_, hfold⟩
  · exact ⟨_, "", hp, .inl ⟨hcore', hupdated⟩⟩
  · exact ⟨_, _, hp.trans ratesFromDemands_prepared,
      .inr (turns_of_foldlM (fun _ _ _ => enforceStatic_turn) hfold)⟩

theorem computeAndEnforceDynamicVanillaRules_computes {updated : List String}
    (h : computeAndEnforceDynamicVanillaRules core = .ok (core', updated)) :
    Computes core core' updated := by
  obtain ⟨operation, core₁, h₁, ⟨_, hcore', hupdated⟩ | ⟨_, core₂, left, hshares, _, hfold⟩⟩ :=
    computeAndEnforceDynamicVanillaRules_cases h
  · exact ⟨_, "", (updateJobDemands_prepared h₁).1, .inl ⟨hcore', hupdated⟩⟩
  · have hp₂ := (updateJobDemands_prepared h₁).1.trans
      (assignShares_prepared core₁.jobs core₁.jobs.length core₁.maximumLimit)
    rw [hshares] at hp₂
    exact ⟨_, _, hp₂, .inr (turns_of_foldlM (fun _ _ _ => enforceVanilla_turn) hfold)⟩

theorem computeAndEnforceDynamicLeftoverRules_computes {dStats : Assoc String Rates}
    {sessionsSent updated : List String}
    (h : computeAndEnforceDynamicLeftoverRules dStats sessionsSent core = .ok (core', updated)) :
    Computes core core' updated := by
  obtain ⟨operation, core₁, h₁, ⟨_, hcore', hupdated⟩ | ⟨_, core₂, usage, core₃, h₂, rfl, _, hfold⟩⟩ :=
    computeAndEnforceDynamicLeftoverRules_cases h
  · exact ⟨_, "", (updateJobDemands_prepared h₁).1, .inl ⟨hcore', hupdated⟩⟩
  · have hp₂ := ((updateJobDemands_prepared h₁).1.trans (assignUsage_prepared h₂)).trans
      (distributeLeftover_prepared usage)
    exact ⟨_, _, hp₂, .inr (turns_of_foldlM (fun _ _ _ => enforceLeftover_turn) hfold)⟩

theorem computeAndEnforce_computes {dStats : Assoc String Rates} {sessionsSent updated : List String}
    (h : computeAndEnforce dStats sessionsSent core = .ok (core', updated)) :
    Computes core core' updated := by
  unfold computeAndEnforce at h
  split at h
  · exact computeAndEnforceStaticRules_computes h
  · exact computeAndEnforceDynamicVanillaRules_computes h
  · exact computeAndEnforceDynamicLeftoverRules_computes h
  · cases h
    exact ⟨_, "", .refl _, .inl ⟨rfl, rfl⟩⟩
  · cases h
    exact ⟨_, "", .refl _, .inl ⟨rfl, rfl⟩⟩

section Faults

theorem updateJobDemands_error {e : Fault} (h : updateJobDemands core = .error e) :
    e = .missingToken ∨ e = .invalidArgument := by
  unfold updateJobDemands at h
  split at h
  · cases h
  · dsimp only at h
    split at h
    · cases h
    · rcases Fault.bind_eq_error.mp h with h | ⟨kind, _, h⟩
      · exact .inl (token_eq_error h)
      · split at h
        · rcases Fault.bind_eq_error.mp h with h | ⟨job, _, h⟩
          · exact .inl (token_eq_error h)
          rcases Fault.bind_eq_error.mp h with h | ⟨op, _, h⟩
          · exact .inl (token_eq_error h)
          rcases Fault.bind_eq_error.mp h with h | ⟨t, _, h⟩
          · exact .inl (token_eq_error h)
          rcases Fault.bind_eq_error.mp h with h | ⟨demand, _, h⟩
          · exact .inr (number_eq_error h)
          · cases h
        · cases h

theorem submitEnforcementRules_error {app operation : String} {locations : Locations} {limit : ℤ}
    {addresses updated : List String} {e : Fault}
    (h : submitEnforcementRules app operation locations limit addresses core updated = .error e) :
    e = .nullPointer := by
  induction addresses generalizing core updated with
  | nil => cases h
  | cons address rest ih =>
    rcases Fault.bind_eq_error.mp h with h | ⟨core₁, _, h⟩
    · unfold submitRule at h
      split at h <;> cases h
      rfl
    · exact ih h

theorem sendEnforcementRule_error {app operation : String} {locations : Locations} {updated : List String}
    {e : Fault} (h : sendEnforcementRule app locations operation core updated = .error e) :
    e = .nullPointer ∨ e = .divisionByZero := by
  unfold sendEnforcementRule at h
  dsimp only at h
  split at h
  · cases h
    exact .inr rfl
  · exact .inl (submitEnforcementRules_error h)

theorem foldlM_error {σ α : Type} {body : σ → α → Except Fault σ} {e : Fault} {l : List α} {s : σ}
    (h : l.foldlM body s = .error e) : ∃ s a, body s a = .error e := by
  induction l generalizing s with
  | nil => cases h
  | cons a l ih =>
    rw [List.foldlM_cons] at h
    rcases Fault.bind_eq_error.mp h with h | ⟨t, _, h⟩
    · exact ⟨s, a, h⟩
    · exact ih h

theorem totalAppRate_error {dStats : Assoc String Rates} {sessionsSent : List String} {job : String}
    {locations : Locations} {addresses : List String} {total : ℤ} {e : Fault}
    (h : totalAppRate dStats sessionsSent core job locations addresses total = .error e) :
    e = .outOfRange .dStats ∧ ∃ address ∈ addresses, address ∈ sessionsSent ∧ address ∉ dStats := by
  induction addresses generalizing total with
  | nil => cases h
  | cons address rest ih =>
    unfold totalAppRate at h
    dsimp only at h
    split at h
    case isTrue hsent =>
      split at h
      case h_1 hl =>
        cases h
        exact ⟨rfl, address, List.mem_cons_self, hsent, AList.lookup_eq_none.mp hl⟩
      case h_2 =>
        obtain ⟨he, a, ha, hs⟩ := ih h
        exact ⟨he, a, List.mem_cons_of_mem _ ha, hs⟩
    case isFalse =>
      obtain ⟨he, a, ha, hs⟩ := ih h
      exact ⟨he, a, List.mem_cons_of_mem _ ha, hs⟩

theorem assignUsage_error {dStats : Assoc String Rates} {sessionsSent : List String}
    {apps : List (Σ _ : String, Locations)} {currentJobs : ℤ} {usage : Usage} {e : Fault}
    (h : assignUsage dStats sessionsSent apps currentJobs core usage = .error e) :
    e = .outOfRange .dStats ∧
      ∃ app ∈ apps, ∃ address ∈ app.2, address ∈ sessionsSent ∧ address ∉ dStats := by
  induction apps generalizing core currentJobs usage with
  | nil => cases h
  | cons app rest ih =>
    rcases Fault.bind_eq_error.mp h with h | ⟨total, _, h⟩
    · obtain ⟨he, a, ha, hs⟩ := totalAppRate_error h
      exact ⟨he, app, List.mem_cons_self, a, mem_order.mp ha, hs⟩
    · obtain ⟨he, other, ho, hs⟩ := ih h
      exact ⟨he, other, List.mem_cons_of_mem _ ho, hs⟩

theorem computeAndEnforce_outOfRange {dStats : Assoc String Rates} {sessionsSent : List String}
    {container : Container}
    (h : computeAndEnforce dStats sessionsSent core = .error (.outOfRange container)) :
    container = .dStats ∧ core.controlType = .dynamicLeftover ∧
      ∃ app ∈ core.jobLocationTracker.entries, ∃ address ∈ app.2,
        address ∈ sessionsSent ∧ address ∉ dStats := by
  have hdemands : ∀ core : CoreControlApplication, updateJobDemands core ≠ .error (.outOfRange container) := by
    intro core h
    rcases updateJobDemands_error h with he | he <;> cases he
  have hsend : ∀ {core : CoreControlApplication} {app locations operation updated},
      sendEnforcementRule app locations operation core updated ≠ .error (.outOfRange container) := by
    intro core app locations operation updated h
    rcases sendEnforcementRule_error h with he | he <;> cases he
  unfold computeAndEnforce at h
  split at h
  · rcases Fault.bind_eq_error.mp h with h | ⟨⟨operation, core₁⟩, _, h⟩
    · exact absurd h (hdemands _)
    · dsimp only at h
      generalize (if operation = "" then core₁ else { core₁ with changeInSystem := true }) = core₂ at h
      split at h
      · cases h
      · obtain ⟨s, app, h⟩ := foldlM_error h
        unfold enforceStatic at h
        split at h
        · cases h
        · exact absurd h hsend
  · rcases Fault.bind_eq_error.mp h with h | ⟨⟨operation, core₁⟩, _, h⟩
    · exact absurd h (hdemands _)
    · dsimp only at h
      split at h
      · cases h
      · obtain ⟨s, app, h⟩ := foldlM_error h
        unfold enforceVanilla at h
        dsimp only at h
        split at h
        · cases h
        · exact absurd h hsend
  case h_3 hcontrol =>
    rcases Fault.bind_eq_error.mp h with h | ⟨⟨operation, core₁⟩, h₁, h⟩
    · exact absurd h (hdemands _)
    · dsimp only at h
      split at h
      · cases h
      · rcases Fault.bind_eq_error.mp h with h | ⟨⟨core₂, usage⟩, _, h⟩
        · obtain ⟨he, hmissing⟩ := assignUsage_error h
          rw [(updateJobDemands_prepared h₁).1.frame.jobLocationTracker] at hmissing
          exact ⟨by cases he; rfl, hcontrol, hmissing⟩
        · dsimp only at h
          obtain ⟨s, app, h⟩ := foldlM_error h
          unfold enforceLeftover at h
          split at h
          · cases h
          · exact absurd h hsend
  · cases h
  · cases h

end Faults

end CoreControlApplication

end Cheferd
