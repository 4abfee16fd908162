import Cheferd.PolicyOperations
import Cheferd.TrackedJobs

namespace Cheferd

open Library Strings

namespace CoreControlApplication

variable {core core' core₁ : CoreControlApplication}

inductive Note
  | processed (rule : String)
  | event (event : Event)
deriving DecidableEq

def Note.rule : Note → Option String
  | .processed rule => some rule
  | .event _ => none

def demandNamed (rule : String) : Option (String × ℤ) :=
  match parseRule '|' rule with
  | _ :: kind :: job :: _ :: demand :: _ =>
    if kind = "demand" ∨ kind = "job" then (Decimal.signed 64 demand).map fun v => (job, v) else none
  | _ => none

def placed (job : String) : List Note → List (String × ℤ)
  | [] => []
  | .processed _ :: rest => placed job rest
  | .event event :: rest =>
    match event with
    | .registered info =>
      if info.stageName = job then placed job rest ++ [(info.localAddress, info.stageEnv)] else placed job rest
    | .removed info =>
      if info.stageName = job then (placed job rest).filter (· ≠ (info.localAddress, info.stageEnv))
      else placed job rest
    | .enforced _ | .computed => placed job rest

/-- The demand of the latest rule for the job; -1 where the job came without one, and nothing once its last
stage is gone. -/
def demandOf (job : String) : List Note → Option ℤ
  | [] => none
  | .processed rule :: rest =>
    match demandNamed rule with
    | some (named, demand) => if named = job then some demand else demandOf job rest
    | none => demandOf job rest
  | .event event :: rest =>
    match event with
    | .registered info =>
      if info.stageName = job then some ((demandOf job rest).getD (-1)) else demandOf job rest
    | .removed info =>
      if info.stageName = job ∧ placed job (.event (.removed info) :: rest) = [] then none
      else demandOf job rest
    | .enforced _ | .computed => demandOf job rest

def notesOf (taken : List String) : List Note := (taken.filter (· ≠ "")).reverse.map .processed

theorem demandNamed_eq {rule kind : String} (hkind : token (parseRule '|' rule) 1 = .ok kind) :
    (∀ job operation text demand, kind = "demand" ∨ kind = "job" → token (parseRule '|' rule) 2 = .ok job →
      token (parseRule '|' rule) 3 = .ok operation → token (parseRule '|' rule) 4 = .ok text →
      stol text = .ok demand → demandNamed rule = some (job, demand)) ∧
    (¬ (kind = "demand" ∨ kind = "job") → demandNamed rule = none) := by
  unfold demandNamed
  rw [token_eq_ok] at hkind
  split
  case h_1 first kind' job' operation' text' rest hparse =>
    simp only [hparse, token_eq_ok] at hkind ⊢
    cases hkind
    refine ⟨fun job operation text demand hk hjob hoperation htext hdemand => ?_, fun hk => if_neg hk⟩
    cases hjob
    cases htext
    rw [if_pos hk, number_eq_ok.mp hdemand]
    rfl
  case h_2 hparse =>
    refine ⟨fun job operation text demand hk hjob hoperation htext hdemand => ?_, fun _ => rfl⟩
    rw [token_eq_ok] at hjob hoperation htext
    generalize parseRule '|' rule = tokens at *
    match tokens with
    | [] | [_] | [_, _] | [_, _, _] | [_, _, _, _] => simp at htext
    | first :: kind :: job :: operation :: text :: rest =>
      exact absurd rfl (hparse first kind job operation text rest)

inductive Updates (job : String) (taken : List String) (core core' : CoreControlApplication) : Prop
  | kept (hdemand : core'.jobDemands.lookup job = core.jobDemands.lookup job)
      (hlog : ∀ log, demandOf job (notesOf taken ++ log) = demandOf job log)
  | named (demand : ℤ) (hdemand : core'.jobDemands.lookup job = some demand)
      (hlog : ∀ log, demandOf job (notesOf taken ++ log) = some demand)

theorem updateJobDemands_updates {operation : String} (h : updateJobDemands core = .ok (operation, core')) :
    ∃ taken, core.pendingRulesQueue = taken ++ core'.pendingRulesQueue ∧
      ∀ job, Updates job taken core core' := by
  unfold updateJobDemands at h
  split at h
  case h_1 =>
    cases h
    exact ⟨[], rfl, fun job => .kept rfl fun _ => rfl⟩
  case h_2 rule rest hqueue =>
    refine ⟨[rule], ?_⟩
    dsimp only at h
    split at h
    case isTrue hempty =>
      cases h
      exact ⟨hqueue, fun job => .kept rfl fun log => by simp [notesOf, hempty]⟩
    case isFalse hempty =>
      have hnote : ∀ log, notesOf [rule] ++ log = .processed rule :: log := by simp [notesOf, hempty]
      obtain ⟨kind, hkind, h⟩ := Fault.bind_eq_ok.mp h
      split at h
      case isTrue hk =>
        simp only [Fault.bind_eq_ok] at h
        obtain ⟨named, hnamed, _, hop, text, htext, demand, hdemand, h⟩ := h
        cases h
        have hrule := (demandNamed_eq hkind).1 named _ text demand hk hnamed hop htext hdemand
        refine ⟨hqueue, fun job => ?_⟩
        by_cases hj : named = job
        · refine .named demand (by simp [hj]) fun log => ?_
          simp [hnote, demandOf, hrule, hj]
        · refine .kept (AList.lookup_insert_ne (Ne.symm hj)) fun log => ?_
          simp [hnote, demandOf, hrule, hj]
      case isFalse hk =>
        cases h
        have hrule := (demandNamed_eq hkind).2 hk
        exact ⟨hqueue, fun job => .kept rfl fun log => by simp [hnote, demandOf, hrule]⟩

def Counts (controlType : ControlType) (x y : Option ℤ) : Prop :=
  x.map settle = y.map settle ∧ (controlType ≠ .dynamicVanilla → x = y)

theorem Counts.refl (controlType : ControlType) (x : Option ℤ) : Counts controlType x x := ⟨rfl, fun _ => rfl⟩

theorem Counts.trans {controlType : ControlType} {x y z : Option ℤ} (h : Counts controlType x y)
    (h' : Counts controlType y z) : Counts controlType x z :=
  ⟨h.1.trans h'.1, fun hne => (h.2 hne).trans (h'.2 hne)⟩

theorem Counts.getD {controlType : ControlType} {x y : Option ℤ} (h : Counts controlType x y) (v : ℤ) :
    Counts controlType (some (x.getD v)) (some (y.getD v)) := by
  refine ⟨?_, fun hne => by rw [h.2 hne]⟩
  have hsettle := h.1
  cases x <;> cases y <;> simp_all

structure Replayed (core : CoreControlApplication) (log : List Note) : Prop where
  placed : ∀ job address env, Tracked core job address env ↔ (address, env) ∈ placed job log
  demands : ∀ job, Counts core.controlType (core.jobDemands.lookup job) (demandOf job log)

theorem Replayed.congr {log : List Note} (h : Replayed core log) (htype : core'.controlType = core.controlType)
    (htracker : core'.jobLocationTracker = core.jobLocationTracker)
    (hdemands : core'.jobDemands = core.jobDemands) :
    Replayed core' log := by
  refine ⟨fun job address env => ?_, fun job => ?_⟩
  · rw [← h.placed, Tracked, Tracked, envsOf, envsOf, htracker]
  · rw [htype, hdemands]
    exact h.demands job

theorem tracked_iff (hne : NoEmpty core) (job : String) :
    job ∈ core.jobLocationTracker ↔ ∃ address env, Tracked core job address env := by
  constructor
  · intro hj
    obtain ⟨locations, hl⟩ := Option.isSome_iff_exists.mp (AList.lookup_isSome.mpr hj)
    obtain ⟨hentries, henvs⟩ := hne job locations hl
    obtain ⟨⟨address, envs⟩, hmem⟩ := List.exists_mem_of_ne_nil _ hentries
    have hlookup := Assoc.lookup_of_mem_entries hmem
    obtain ⟨env, henv⟩ := List.exists_mem_of_ne_nil _ (henvs address envs hlookup)
    exact ⟨address, env, by rwa [Tracked, envsOf_lookup hl, hlookup]⟩
  · rintro ⟨address, env, henv⟩
    obtain ⟨locations, _, hl, _, _⟩ := lookup_of_envsOf (List.ne_nil_of_mem henv)
    exact AList.lookup_isSome.mp (by rw [hl]; rfl)

theorem eq_nil_iff_untracked (hne : NoEmpty core) {job : String} {stages : List (String × ℤ)}
    (h : ∀ address env, Tracked core job address env ↔ (address, env) ∈ stages) :
    stages = [] ↔ job ∉ core.jobLocationTracker := by
  rw [tracked_iff hne, List.eq_nil_iff_forall_not_mem]
  constructor
  · rintro hnone ⟨address, env, henv⟩
    exact hnone _ ((h address env).mp henv)
  · rintro hnone ⟨address, env⟩ hmem
    exact hnone ⟨address, env, (h address env).mpr hmem⟩

structure Purges (core core' : CoreControlApplication) (infos : List StageInfo) : Prop where
  history : core'.history = infos.map .removed ++ core.history
  noEmpty : NoEmpty core → NoEmpty core'
  replayed : NoEmpty core → ∀ log, Replayed core log →
    Replayed core' (infos.map (fun info => .event (.removed info)) ++ log)

theorem Purges.trans {infos infos' : List StageInfo} (h : Purges core core₁ infos)
    (h' : Purges core₁ core' infos') :
    Purges core core' (infos' ++ infos) where
  history := by rw [h'.history, h.history, List.map_append, List.append_assoc]
  noEmpty hne := h'.noEmpty (h.noEmpty hne)
  replayed hne log hlog := by
    rw [List.map_append, List.append_assoc]
    exact h'.replayed (h.noEmpty hne) _ (h.replayed hne log hlog)

theorem purges_stages (core : CoreControlApplication) (stages : Assoc String (List String)) :
    Purges core { core with localToStages := stages } [] :=
  ⟨rfl, fun hne => hne.congr rfl, fun _ _ hlog => hlog.congr rfl rfl rfl⟩

theorem removeStage_tracked {key : String} (h : removeStage key core = .ok core') :
    ∃ info, info.stageName ∈ core.jobLocationTracker ∧ core'.history = .removed info :: core.history := by
  unfold removeStage at h
  split at h
  · cases h
  case h_2 info hinfo =>
    split at h
    · cases h
    case h_2 locations hl =>
      split at h
      · cases h
      case h_2 envs he =>
        cases h
        exact ⟨info, AList.lookup_isSome.mp (by rw [hl]; rfl), rfl⟩

theorem removeStage_purges {key : String} (h : removeStage key core = .ok core') :
    ∃ info, Purges core core' [info] := by
  obtain ⟨info, -, hremoved, -, -, hhistory⟩ := removeStage_ok h
  obtain ⟨info', htracked, hsame⟩ := removeStage_tracked h
  obtain rfl : info = info' := by simpa [hhistory] using hsame
  have hforgets := removeStage_forgets h
  refine ⟨info, hhistory, hremoved.noEmpty, fun hne log hlog => ?_⟩
  have hplaced : ∀ job address env, Tracked core' job address env ↔
      (address, env) ∈ placed job (.event (.removed info) :: log) := by
    intro job address env
    have hold := hlog.placed job address env
    simp only [Tracked, placed] at hold ⊢
    rw [hremoved.envsOf]
    by_cases hj : job = info.stageName
    · subst hj
      by_cases ha : address = info.localAddress
      · subst ha
        simp [hold]
      · simp [ha, hold]
    · simp [hj, Ne.symm hj, hold]
  refine ⟨hplaced, fun job => ?_⟩
  have hdemand := hlog.demands job
  have hgone := eq_nil_iff_untracked (hremoved.noEmpty hne) (hplaced job)
  rw [← show core'.controlType = core.controlType by rw [hforgets.frame]] at hdemand
  simp only [List.map_cons, List.map_nil, List.singleton_append, demandOf, hgone]
  by_cases hj : info.stageName = job
  · subst hj
    by_cases hleft : info.stageName ∈ core'.jobLocationTracker
    · rwa [if_neg (fun h => h.2 hleft), (hforgets.kept _ fun _ => hleft).1]
    · rw [if_pos ⟨rfl, hleft⟩, (hforgets.forgotten _ htracked hleft).1]
      exact .refl _ _
  · obtain ⟨infos, hinfos, -, hother⟩ := hforgets.events
    obtain rfl : infos = [info] := by
      rw [hhistory, ← List.singleton_append, List.append_cancel_right_eq] at hinfos
      cases infos with
      | nil => cases hinfos
      | cons first rest => simp_all
    have hlookup := hother job (by simpa using hj)
    have hkept := hforgets.kept job fun hm => by rwa [← AList.lookup_isSome, hlookup, AList.lookup_isSome]
    rwa [if_neg (fun h => hj h.1), hkept.1]

theorem removeStages_purges {dead : List String} (h : removeStages dead core = .ok core') :
    ∃ infos, Purges core core' infos := by
  induction dead generalizing core with
  | nil =>
    cases h
    exact ⟨[], purges_stages _ _⟩
  | cons key rest ih =>
    obtain ⟨core₁, h₁, h⟩ := Fault.bind_eq_ok.mp h
    obtain ⟨info, hpurges⟩ := removeStage_purges h₁
    obtain ⟨infos, hrest⟩ := ih h
    exact ⟨_, hpurges.trans hrest⟩

theorem removeDead_purges {address : String} {entries : List (Σ _ : String, ℚ)}
    {sessionsToDelete sessionsToDelete' : List String}
    (h : removeDead address entries core sessionsToDelete = .ok (core', sessionsToDelete')) :
    ∃ infos, Purges core core' infos := by
  induction entries generalizing core sessionsToDelete with
  | nil =>
    cases h
    exact ⟨[], purges_stages _ _⟩
  | cons e rest ih =>
    unfold removeDead at h
    split at h
    · obtain ⟨core₁, h₁, h⟩ := Fault.bind_eq_ok.mp h
      obtain ⟨info, hpurges⟩ := removeStage_purges h₁
      split at h
      · cases h
      · dsimp only at h
        split at h
        all_goals
          obtain ⟨infos, hrest⟩ := ih h
          exact ⟨_, hpurges.trans ((purges_stages _ _).trans hrest)⟩
    · exact ih h

theorem collectStatisticsResult_purges {address : String} {response : StageResponse}
    {collection collection' : Collection}
    (h : collectStatisticsResult address response collection core = .ok (core', collection')) :
    ∃ infos, Purges core core' infos := by
  unfold collectStatisticsResult at h
  split at h
  · cases h
  · cases h
  · split at h
    · split at h
      · cases h
      · obtain ⟨core₁, h₁, h⟩ := Fault.bind_eq_ok.mp h
        cases h
        obtain ⟨infos, hpurges⟩ := removeStages_purges h₁
        exact ⟨_, hpurges.trans (purges_stages _ _)⟩
    · obtain ⟨⟨core₁, del⟩, h₁, h⟩ := Fault.bind_eq_ok.mp h
      cases h
      exact removeDead_purges h₁

theorem Replayed.registerStage {log : List Note} (h : Replayed core log) (he : Entered core)
    (info : StageInfo) :
    Replayed (registerStage info core) (.event (.registered info) :: log) := by
  have hregisters := registerStage_registers info core
  have htype : (CoreControlApplication.registerStage info core).controlType = core.controlType := by
    obtain ⟨_, _, _, hframe⟩ := emplaceJob_frame info.stageName core
    simp only [CoreControlApplication.registerStage, hframe]
  refine ⟨fun job address env => ?_, fun job => ?_⟩
  · have hold := h.placed job address env
    simp only [Tracked, CoreControlApplication.placed] at hold ⊢
    rw [registerStage_envsOf]
    by_cases hj : job = info.stageName
    · subst hj
      by_cases ha : address = info.localAddress
      · subst ha
        simp [hold]
      · simp [ha, hold]
    · simp [hj, Ne.symm hj, hold]
  · have hdemand := h.demands job
    rw [htype]
    simp only [demandOf]
    by_cases hj : info.stageName = job
    · subst hj
      rw [if_pos rfl]
      by_cases hm : info.stageName ∈ core.jobLocationTracker
      · obtain ⟨demand, hentered⟩ := Option.isSome_iff_exists.mp (AList.lookup_isSome.mpr (he _ hm).1)
        rw [(hregisters.kept _ (.inl hm)).1]
        simpa [hentered] using hdemand.getD (-1)
      · have hemplaced : (CoreControlApplication.registerStage info core).jobDemands.lookup info.stageName =
            some ((core.jobDemands.lookup info.stageName).getD (-1)) := by
          simp [CoreControlApplication.registerStage, emplaceJob, hm, Assoc.lookup_emplace]
        rw [hemplaced]
        exact hdemand.getD (-1)
    · rwa [if_neg hj, (hregisters.kept job (.inr (Ne.symm hj))).1]

section Passes

structure Passes (core core' : CoreControlApplication) : Prop where
  controlType : core'.controlType = core.controlType
  jobLocationTracker : core'.jobLocationTracker = core.jobLocationTracker
  pendingRulesQueue : core'.pendingRulesQueue = core.pendingRulesQueue
  demands : ∀ job, Counts core.controlType (core'.jobDemands.lookup job) (core.jobDemands.lookup job)

theorem Turns.passes {core₂ : CoreControlApplication} {operation : String} {updated : List String}
    {apps : List (Σ _ : String, Locations)} (h : Turns operation apps (core₂, []) (core', updated))
    (hnodup : (apps.map Sigma.fst).Nodup) (hcore : Passes core core₂) : Passes core core' := by
  obtain ⟨rules, hr⟩ := h.requests hnodup
  refine ⟨h.frame.controlType.trans hcore.controlType,
    h.frame.jobLocationTracker.trans hcore.jobLocationTracker,
    h.policy.1.trans hcore.pendingRulesQueue, fun job => ?_⟩
  rw [hr.jobDemands]
  exact hcore.demands job

theorem Passes.of_demands (htype : core'.controlType = core.controlType)
    (htracker : core'.jobLocationTracker = core.jobLocationTracker)
    (hqueue : core'.pendingRulesQueue = core.pendingRulesQueue)
    (hdemands : core'.jobDemands = core.jobDemands) :
    Passes core core' :=
  ⟨htype, htracker, hqueue, fun _ => by rw [hdemands]; exact .refl _ _⟩

theorem assignShares_counts {names : List String} (currentJobs left : ℤ)
    (hnames : ∀ job ∈ names, job ∈ core.jobDemands)
    (job : String) : ((assignShares names currentJobs left core).1.jobDemands.lookup job).map settle =
      (core.jobDemands.lookup job).map settle := by
  induction names generalizing currentJobs left core with
  | nil => rfl
  | cons first rest ih =>
    unfold assignShares
    dsimp only
    split
    · rw [ih _ _ fun j hj => mem_insert_of_mem _ _ (hnames j (List.mem_cons_of_mem _ hj))]
      simp only [setRate]
      obtain ⟨demand, hdemand⟩ := Option.isSome_iff_exists.mp
        (AList.lookup_isSome.mpr (hnames first List.mem_cons_self))
      rw [Assoc.lookup_insert_eq]
      split
      case isTrue hj =>
        rw [hj, hdemand, Assoc.read, hdemand]
        simp only [Option.map_some, Option.getD_some]
        exact congrArg some (settle_settle demand)
      case isFalse => rfl
    · exact ih _ _ fun j hj => hnames j (List.mem_cons_of_mem _ hj)

theorem computeAndEnforce_passes {dStats : Assoc String Rates} {sessionsSent updated : List String}
    (he : Entered core)
    (h : computeAndEnforce dStats sessionsSent core = .ok (core', updated)) :
    (core.controlType = .mds ∨ core.controlType = .noop) ∧ core' = core ∨
      ∃ operation core₁, updateJobDemands core = .ok (operation, core₁) ∧ Passes core₁ core' := by
  have hnodup := core.jobLocationTracker.keys_nodup
  unfold computeAndEnforce at h
  split at h
  case h_1 =>
    obtain ⟨operation, core₁, flag, h₁, _, ⟨_, rfl, rfl⟩ | ⟨_, hfold⟩⟩ := computeAndEnforceStaticRules_cases h
    · exact .inr ⟨operation, core₁, h₁, .of_demands rfl rfl rfl rfl⟩
    · refine .inr ⟨operation, core₁, h₁,
        (turns_of_foldlM (fun _ _ _ => enforceStatic_turn) hfold).passes hnodup ?_⟩
      rw [ratesFromDemands_frame]
      exact .of_demands rfl rfl rfl rfl
  case h_2 htype =>
    obtain ⟨operation, core₁, h₁, ⟨_, rfl, rfl⟩ | ⟨_, core₂, left, hshares, hframe, hfold⟩⟩ :=
      computeAndEnforceDynamicVanillaRules_cases h
    · exact .inr ⟨operation, core', h₁, .of_demands rfl rfl rfl rfl⟩
    · refine .inr ⟨operation, core₁, h₁,
        (turns_of_foldlM (fun _ _ _ => enforceVanilla_turn) hfold).passes hnodup ?_⟩
      have hentered : ∀ job ∈ core₁.jobs, job ∈ core₁.jobDemands := fun job hj =>
        (he.grows (updateJobDemands_grows h₁) (updateJobDemands_prepared h₁).1.frame.jobLocationTracker job
          (AList.mem_keys.mp hj)).1
      have htype₁ := (updateJobDemands_prepared h₁).1.frame.controlType.trans htype
      have hcounts := assignShares_counts core₁.jobs.length core₁.maximumLimit hentered
      rw [hshares] at hcounts
      rw [hframe]
      exact ⟨rfl, rfl, rfl, fun job => ⟨hcounts job, fun hne => absurd htype₁ hne⟩⟩
  case h_3 =>
    obtain ⟨operation, core₁, h₁, ⟨_, rfl, rfl⟩ | ⟨_, core₂, usage, core₃, _, _, hframe, hfold⟩⟩ :=
      computeAndEnforceDynamicLeftoverRules_cases h
    · exact .inr ⟨operation, core', h₁, .of_demands rfl rfl rfl rfl⟩
    · refine .inr ⟨operation, core₁, h₁,
        (turns_of_foldlM (fun _ _ _ => enforceLeftover_turn) hfold).passes hnodup ?_⟩
      rw [hframe]
      exact .of_demands rfl rfl rfl rfl
  case h_4 htype =>
    cases h
    exact .inl ⟨.inl htype, rfl⟩
  case h_5 htype =>
    cases h
    exact .inl ⟨.inr htype, rfl⟩

end Passes

theorem placed_notesOf (job : String) (taken : List String) (log : List Note) :
    placed job (notesOf taken ++ log) = placed job log := by
  unfold notesOf
  generalize (taken.filter (· ≠ "")).reverse = rules
  induction rules with
  | nil => rfl
  | cons rule rules ih => exact ih

theorem Replayed.updated {operation : String} {log : List Note} (hlog : Replayed core log)
    (h : updateJobDemands core = .ok (operation, core₁)) :
    ∃ taken, core.pendingRulesQueue = taken ++ core₁.pendingRulesQueue ∧
      Replayed core₁ (notesOf taken ++ log) := by
  obtain ⟨taken, hqueue, hupdates⟩ := updateJobDemands_updates h
  have hframe := (updateJobDemands_prepared h).1.frame
  refine ⟨taken, hqueue, fun job address env => ?_, fun job => ?_⟩
  · rw [placed_notesOf, ← hlog.placed, Tracked, Tracked, hframe.envsOf]
  · rw [hframe.controlType]
    cases hupdates job with
    | kept hdemand hnotes =>
      rw [hdemand, hnotes]
      exact hlog.demands job
    | named demand hdemand hnotes =>
      rw [hdemand, hnotes]
      exact .refl _ _

theorem Replayed.computed {dStats : Assoc String Rates} {sessionsSent updated : List String} {log : List Note}
    (hlog : Replayed core log) (he : Entered core)
    (h : computeAndEnforce dStats sessionsSent core = .ok (core', updated)) :
    ∃ taken, core.pendingRulesQueue = taken ++ core'.pendingRulesQueue ∧
      Replayed core' (notesOf taken ++ log) := by
  rcases computeAndEnforce_passes he h with ⟨_, rfl⟩ | ⟨operation, core₁, h₁, hpasses⟩
  · exact ⟨[], rfl, hlog⟩
  · obtain ⟨taken, hqueue, hreplayed⟩ := hlog.updated h₁
    refine ⟨taken, by rw [hqueue, hpasses.pendingRulesQueue], fun job address env => ?_, fun job => ?_⟩
    · rw [← hreplayed.placed, Tracked, Tracked, envsOf, envsOf, hpasses.jobLocationTracker]
    · rw [hpasses.controlType]
      exact (hpasses.demands job).trans (hreplayed.demands job)

end CoreControlApplication

namespace FeedbackLoop

open CoreControlApplication

variable {p q : Process} {log : List Note}

def noted (p q : Process) : List Note :=
  (q.core.history.take (q.core.history.length - p.core.history.length)).map .event ++
    notesOf (p.core.pendingRulesQueue.take (p.core.pendingRulesQueue.length - q.core.pendingRulesQueue.length))

theorem noted_eq (events : List Event) (taken later : List String)
    (hhistory : q.core.history = events ++ p.core.history)
    (hqueue : p.core.pendingRulesQueue ++ later = taken ++ q.core.pendingRulesQueue)
    (hone : later = [] ∨ taken = []) :
    noted p q = events.map .event ++ notesOf taken := by
  have hevents : q.core.history.take (q.core.history.length - p.core.history.length) = events := by
    rw [hhistory, List.length_append, Nat.add_sub_cancel, List.take_left]
  have htaken :
      p.core.pendingRulesQueue.take (p.core.pendingRulesQueue.length - q.core.pendingRulesQueue.length) =
      taken := by
    rcases hone with rfl | rfl
    · rw [List.append_nil] at hqueue
      rw [hqueue, List.length_append, Nat.add_sub_cancel, List.take_left]
    · have hlength := congrArg List.length hqueue
      simp only [List.length_append, List.length_nil] at hlength
      rw [Nat.sub_eq_zero_of_le (by omega), List.take_zero]
  rw [noted, hevents, htaken]

theorem noted_of_steady (h : Steady p.core q.core) (events : List Event)
    (hhistory : q.core.history = events ++ p.core.history) : noted p q = events.map .event := by
  obtain ⟨later, hqueue⟩ := h.queue
  rw [noted_eq events [] later hhistory hqueue (.inr rfl)]
  exact List.append_nil _

def journal : Machine (Process × List Note) Action :=
  machine.observed (fun _ => []) fun p q log => noted p q ++ log

theorem replayed_kept (hlog : Replayed p.core log) (hsteady : Steady p.core q.core)
    (hhistory : q.core.history = p.core.history) (htype : q.core.controlType = p.core.controlType)
    (htracker : q.core.jobLocationTracker = p.core.jobLocationTracker)
    (hdemands : q.core.jobDemands = p.core.jobDemands) : Replayed q.core (noted p q ++ log) := by
  rw [noted_of_steady hsteady [] hhistory]
  exact hlog.congr htype htracker hdemands

theorem replayed_computes {dStats : Assoc String Rates} {sessionsSent updated : List String}
    {core : CoreControlApplication} (hlog : Replayed p.core log) (he : Entered p.core)
    (h : computeAndEnforce dStats sessionsSent p.core = .ok (core, updated))
    (hq : q.core = { core with history := .computed :: core.history }) :
    Replayed q.core (noted p q ++ log) := by
  obtain ⟨taken, hqueue, hreplayed⟩ := hlog.computed he h
  obtain ⟨_, rules, hcarries⟩ := computeAndEnforce_carries h
  have hhistory : q.core.history = (.computed :: (rules.map .enforced).reverse) ++ p.core.history := by
    rw [hq, List.cons_append, ← hcarries.history]
  have hnotes : ∀ (rules : List EnforcementRule) (notes : List Note), Replayed core notes →
      Replayed core ((rules.map Event.enforced).map Note.event ++ notes) := by
    intro rules notes hreplayed
    induction rules with
    | nil => exact hreplayed
    | cons rule rules ih => exact ⟨ih.placed, ih.demands⟩
  rw [noted_eq _ taken [] hhistory (by rw [List.append_nil, hqueue, hq]) (.inl rfl), List.append_assoc,
    ← List.map_reverse, hq]
  obtain ⟨hplaced, hdemands⟩ := hnotes rules.reverse _ hreplayed
  exact ⟨hplaced, hdemands⟩

theorem LoopStep.replayed (h : LoopStep p q) (hne : NoEmpty p.core) (he : Entered p.core)
    (hlog : Replayed p.core log) : Replayed q.core (noted p q ++ log) := by
  have htype : q.core.controlType = p.core.controlType := (Step.loop h).configured.controlType
  rcases h.steady with hsteady | ⟨dStats, core, updated, hc, hq⟩
  · cases h with
    | stageTaken info rest session hpoint hpending hqueue hsession =>
      rw [noted_of_steady hsteady [.registered info] rfl]
      have hbefore : Replayed { p.core with
          localToDataQueue := rest
          pendingDataPlaneSessions := p.core.pendingDataPlaneSessions - 1 } log := hlog.congr rfl rfl rfl
      exact (hbefore.registerStage he info).congr rfl rfl rfl
    | collectResult address rule rest collection collection' response core core' hpoint hcollects htakes h =>
      obtain ⟨infos, hpurges⟩ := collectStatisticsResult_purges h
      have hsame := htakes.sameTables
      have hcore : core.controlType = p.core.controlType := by rw [htakes.tables]
      have hhistory : core'.history = infos.map .removed ++ p.core.history := by
        rw [hpurges.history, hsame.history]
      rw [noted_of_steady hsteady _ hhistory, List.map_map]
      exact hpurges.replayed (hne.congr hsame.jobLocationTracker) log
        (hlog.congr hcore hsame.jobLocationTracker hsame.jobDemands)
    | computed dStats core updated hpoint h => exact replayed_computes hlog he h rfl
    | control hpoint h =>
      obtain ⟨sessions, hcore, _⟩ := h.tables
      refine replayed_kept hlog hsteady ?_ htype ?_ ?_ <;> rw [hcore]
    | handshaken address rule response core hpoint htakes
    | marked info rule response core hpoint htakes
    | collectFault address rule rest collection response core fault hpoint hcollects htakes
    | enforced job address rule rest response core hpoint htakes =>
      have hsame := htakes.sameTables
      exact replayed_kept hlog hsteady hsame.history htype hsame.jobLocationTracker hsame.jobDemands
    | _ => exact replayed_kept hlog hsteady rfl rfl rfl rfl
  · exact replayed_computes hlog he hc hq

def TakesRules (p q : Process) : Prop :=
  ∃ (events : List Event) (taken : List String), p.core.pendingRulesQueue = taken ++ q.core.pendingRulesQueue ∧
    noted p q = events.map .event ++ notesOf taken

theorem takesRules_of_computes {dStats : Assoc String Rates} {sessionsSent updated : List String}
    {core : CoreControlApplication} (h : computeAndEnforce dStats sessionsSent p.core = .ok (core, updated))
    (hq : q.core = { core with history := .computed :: core.history }) : TakesRules p q := by
  obtain ⟨taken, rules, hcarries⟩ := computeAndEnforce_carries h
  have hhistory : q.core.history = (.computed :: (rules.map .enforced).reverse) ++ p.core.history := by
    rw [hq, List.cons_append, ← hcarries.history]
  have hqueue : p.core.pendingRulesQueue = taken ++ q.core.pendingRulesQueue := by rw [hcarries.queue, hq]
  exact ⟨_, taken, hqueue, noted_eq _ taken [] hhistory (by rw [List.append_nil, hqueue]) (.inl rfl)⟩

theorem takesRules_of_kept (hsteady : Steady p.core q.core)
    (hqueue : q.core.pendingRulesQueue = p.core.pendingRulesQueue) : TakesRules p q := by
  obtain ⟨events, hhistory, -⟩ := hsteady.history
  refine ⟨events, [], hqueue.symm, ?_⟩
  rw [noted_of_steady hsteady events hhistory]
  exact (List.append_nil _).symm

theorem LoopStep.takesRules (h : LoopStep p q) : TakesRules p q := by
  rcases h.steady with hsteady | ⟨dStats, core, updated, hc, hq⟩
  · cases h with
    | computed dStats core updated hpoint h => exact takesRules_of_computes h rfl
    | stageTaken info rest session hpoint hpending hqueue hsession =>
      refine takesRules_of_kept hsteady ?_
      obtain ⟨_, _, _, hframe⟩ := emplaceJob_frame info.stageName { p.core with
        localToDataQueue := rest
        pendingDataPlaneSessions := p.core.pendingDataPlaneSessions - 1 }
      simp only [registerStage, hframe]
    | collectResult address rule rest collection collection' response core core' hpoint hcollects htakes h =>
      refine takesRules_of_kept hsteady ?_
      dsimp only
      rw [(collectStatisticsResult_forgets h).frame, htakes.samePolicy.pendingRulesQueue]
    | control hpoint h =>
      obtain ⟨sessions, hcore, _⟩ := h.tables
      exact takesRules_of_kept hsteady (by rw [hcore])
    | handshaken address rule response core hpoint htakes
    | marked info rule response core hpoint htakes
    | collectFault address rule rest collection response core fault hpoint hcollects htakes
    | enforced job address rule rest response core hpoint htakes =>
      exact takesRules_of_kept hsteady htakes.samePolicy.pendingRulesQueue
    | _ => exact takesRules_of_kept hsteady rfl
  · exact takesRules_of_computes hc hq

theorem Step.takesRules {action : Action} (h : Step p action q) (hquiet : ∀ rule, action ≠ .enqueueRule rule) :
    TakesRules p q := by
  cases h with
  | loop h => exact h.takesRules
  | enqueueRule rule => exact absurd rfl (hquiet rule)
  | _ => exact takesRules_of_kept (SamePolicy.steady ⟨rfl, rfl, rfl⟩) rfl

theorem Step.replayed {action : Action} (h : Step p action q) (hne : NoEmpty p.core) (he : Entered p.core)
    (hlog : Replayed p.core log) : Replayed q.core (noted p q ++ log) := by
  cases h with
  | loop h => exact h.replayed hne he hlog
  | enqueueRule rule => exact replayed_kept hlog ⟨List.prefix_append _ _, rfl, [], rfl, by simp⟩ rfl rfl rfl rfl
  | _ => exact replayed_kept hlog (SamePolicy.steady ⟨rfl, rfl, rfl⟩) rfl rfl rfl rfl

theorem replayed_reach (allowed : Process → Action → Prop) {s : Process × List Note}
    (h : journal.Reach (fun s => allowed s.1) s) : Replayed s.1.core s.2 := by
  have hI : machine.Reach allowed s.1 ∧ Replayed s.1.core s.2 := by
    refine Machine.Reach.observed_invariant (m := machine)
      (I := fun p log => machine.Reach allowed p ∧ Replayed p.core log) (fun p hstart => ⟨.start hstart, ?_⟩)
      (fun p q action log hp ha hstep => ⟨hp.1.step ha hstep, ?_⟩) h
    · obtain ⟨controlType, rules, limit, hash, core, hops, rfl⟩ := hstart
      obtain ⟨ops, op, rfl⟩ := initializeOps_ok hops
      exact ⟨fun job address env => by simp [Tracked, envsOf, placed, Process.start, new],
        fun job => ⟨rfl, fun _ => rfl⟩⟩
    · exact (step_cases hstep).replayed (noEmpty_reach hp.1) (entered_reach hp.1) hp.2
  exact hI.2

theorem demands_replayed {s : Process × List Note} (h : journal.Reach (fun _ _ => True) s) (job : String) :
    (∀ address env, Tracked s.1.core job address env ↔ (address, env) ∈ placed job s.2) ∧
      (s.1.core.jobDemands.lookup job).map settle = (demandOf job s.2).map settle ∧
      (s.1.core.controlType ≠ .dynamicVanilla → s.1.core.jobDemands.lookup job = demandOf job s.2) := by
  have hreplayed := replayed_reach (fun _ _ => True) h
  exact ⟨hreplayed.placed job, hreplayed.demands job⟩

def journalRun (controlType : ControlType) (actions : List Action) : Option (Process × List Note) :=
  let rules := ["4|1|create_channel|1000|posix|1000|data|no_op|"]
  match (CoreControlApplication.new controlType rules 1000 .id).initializeOps with
  | .ok core => journal.exec (fun _ _ => True) (Process.start core, []) actions
  | .error _ => none

theorem reach_of_journalRun {controlType : ControlType} {actions : List Action} {s : Process × List Note}
    (h : journalRun controlType actions = some s) : journal.Reach (fun _ _ => True) s := by
  unfold journalRun at h
  dsimp only at h
  split at h
  case h_1 core hops =>
    have hstart : journal.start (Process.start core, []) := ⟨⟨_, _, _, _, core, hops, rfl⟩, rfl⟩
    exact Machine.Reach.exec (.start hstart) h
  case h_2 => cases h

def returned : List Action :=
  firstController ++ [.loop, .enqueueRule "|1|job|tensor|read|1000|", .enqueueStage ⟨"tensor", 1, "u", "A"⟩,
    .countStage, .loop, .serve "A" ⟨1, ∅⟩, .loop, .enqueueStage ⟨"other", 9, "u", "A"⟩, .countStage, .loop,
    .serve "A" ⟨1, ∅⟩, .loop, .loop, .loop,
    .serve "A" ⟨0, (AList.singleton "tensor+1" 5).insert "other+9" 3⟩, .loop, .loop, .loop,
    .serve "A" ⟨1, ∅⟩, .loop, .loop, .loop, .loop, .loop, .loop, .loop,
    .serve "A" ⟨0, (AList.singleton "tensor+1" (-1)).insert "other+9" 3⟩, .loop, .loop, .loop, .loop, .loop,
    .enqueueLocal "B", .countLocal "B", .loop, .loop, .serve "B" ⟨1, ∅⟩, .loop, .loop,
    .enqueueStage ⟨"tensor", 2, "u", "B"⟩, .countStage, .loop]

theorem demands_replayed_returned : ∃ s, journal.Reach (fun _ _ => True) s ∧
    s.2.filterMap Note.rule = ["|1|job|tensor|read|1000|"] ∧ Tracked s.1.core "tensor" "B" 2 ∧
      s.1.core.jobDemands.lookup "tensor" = some (-1) := by
  obtain ⟨s, hs, hrules, hplaced, hdemand, htype⟩ := Machine.exists_of_any (P := fun s =>
    s.2.filterMap Note.rule = ["|1|job|tensor|read|1000|"] ∧ placed "tensor" s.2 = [("B", 2)] ∧
      demandOf "tensor" s.2 = some (-1) ∧ s.1.core.controlType = .static)
    (show (journalRun .static returned).any _ = true by decide)
  obtain ⟨htracked, -, hdemands⟩ := demands_replayed (reach_of_journalRun hs) "tensor"
  refine ⟨s, reach_of_journalRun hs, hrules,
    (htracked "B" 2).mpr (by rw [hplaced]; exact List.mem_singleton.mpr rfl), ?_⟩
  rw [hdemands (by rw [htype]; decide), hdemand]

end FeedbackLoop

end Cheferd
