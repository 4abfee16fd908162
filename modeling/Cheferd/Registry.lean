import Cheferd.CoreControlApplication
import Mathlib.Data.List.Basic

namespace Cheferd

open Library

theorem stageKey_inj {name name' : String} {env env' : ℤ} (h : stageKey name env = stageKey name' env') :
    name = name' ∧ env = env' := by
  have hplus : ∀ v : ℤ, '+' ∉ (toString v).toList := fun v =>
    Decimal.notMem_toString v '+' (by decide) (by decide)
  have hl : (toString env).toList.reverse ++ '+' :: name.toList.reverse =
      (toString env').toList.reverse ++ '+' :: name'.toList.reverse := by
    simpa [stageKey] using congrArg (fun s : String => s.toList.reverse) h
  obtain ⟨he, hn⟩ := Tokens.append_cons_inj
    (fun h => hplus env (List.mem_reverse.mp h)) (fun h => hplus env' (List.mem_reverse.mp h)) hl
  refine ⟨String.toList_inj.mp (List.reverse_injective hn), ?_⟩
  have hs := String.toList_inj.mp (List.reverse_injective he)
  have hi := Decimal.integer_toString env
  rw [hs, Decimal.integer_toString] at hi
  exact (Option.some.inj hi).symm

namespace CoreControlApplication

variable {core core' : CoreControlApplication}

def Tracked (core : CoreControlApplication) (job address : String) (env : ℤ) : Prop :=
  env ∈ core.envsOf job address

def NoEmpty (core : CoreControlApplication) : Prop :=
  ∀ job locations, core.jobLocationTracker.lookup job = some locations →
    locations.entries ≠ [] ∧ ∀ address envs, locations.lookup address = some envs → envs ≠ []

theorem envsOf_lookup {job address : String} {locations : Locations}
    (hl : core.jobLocationTracker.lookup job = some locations) :
    core.envsOf job address = (locations.lookup address).getD [] := by
  simp [envsOf, hl]

theorem lookup_of_envsOf {job address : String} (h : core.envsOf job address ≠ []) :
    ∃ locations envs, core.jobLocationTracker.lookup job = some locations ∧
      locations.lookup address = some envs ∧ core.envsOf job address = envs := by
  cases hl : core.jobLocationTracker.lookup job with
  | none => simp [envsOf, hl] at h
  | some locations =>
    rw [envsOf_lookup hl] at h ⊢
    cases he : locations.lookup address with
    | none => simp [he] at h
    | some envs => exact ⟨locations, envs, rfl, he, rfl⟩

section RegisterStage

variable (info : StageInfo)

theorem emplaceJob_frame (job : String) (core : CoreControlApplication) :
    ∃ demands rates previousRates, emplaceJob job core =
      { core with jobDemands := demands, jobRates := rates, jobPreviousRates := previousRates } := by
  unfold emplaceJob
  split
  · exact ⟨_, _, _, rfl⟩
  · exact ⟨_, _, _, rfl⟩

@[simp] theorem emplaceJob_localToStages (job : String) :
    (emplaceJob job core).localToStages = core.localToStages := by
  unfold emplaceJob; split <;> rfl

@[simp] theorem emplaceJob_stageInfoDetailed (job : String) :
    (emplaceJob job core).stageInfoDetailed = core.stageInfoDetailed := by
  unfold emplaceJob; split <;> rfl

@[simp] theorem emplaceJob_localSessions (job : String) :
    (emplaceJob job core).localSessions = core.localSessions := by
  unfold emplaceJob; split <;> rfl

theorem registerStage_stageInfoDetailed :
    (registerStage info core).stageInfoDetailed = core.stageInfoDetailed := by
  simp [registerStage]

theorem registerStage_localSessions :
    (registerStage info core).localSessions = core.localSessions := by
  simp [registerStage]

theorem registerStage_stagesOf (address : String) :
    (registerStage info core).stagesOf address =
      if address = info.localAddress then core.stagesOf address ++ [info.key]
      else core.stagesOf address := by
  simp only [stagesOf, registerStage, Assoc.lookup_insert_eq]
  split
  case isTrue h => rw [h, Option.getD_some]
  case isFalse => rfl

theorem registerStage_envsOf (job address : String) :
    (registerStage info core).envsOf job address =
      if job = info.stageName ∧ address = info.localAddress then
        core.envsOf job address ++ [info.stageEnv]
      else core.envsOf job address := by
  by_cases hj : job = info.stageName
  · subst hj
    simp only [envsOf, registerStage, trackStage, Assoc.lookup_insertSorted, if_true,
      Option.bind_some, Assoc.lookup_insert_eq, true_and]
    by_cases ha : address = info.localAddress
    · subst ha
      cases core.jobLocationTracker.lookup info.stageName <;> simp
    · cases core.jobLocationTracker.lookup info.stageName <;> simp [ha]
  · simp [envsOf, registerStage, trackStage, Assoc.lookup_insertSorted, hj]

theorem NoEmpty.congr (h : NoEmpty core) (htracker : core'.jobLocationTracker = core.jobLocationTracker) :
    NoEmpty core' := by
  intro job locations hl
  rw [htracker] at hl
  exact h job locations hl

theorem NoEmpty.registerStage (h : NoEmpty core) : NoEmpty (registerStage info core) := by
  intro job locations hl
  simp only [CoreControlApplication.registerStage, trackStage, Assoc.lookup_insertSorted] at hl
  split at hl
  · cases hl
    refine ⟨by simp [AList.entries_insert], fun address envs he => ?_⟩
    rw [Assoc.lookup_insert_eq] at he
    split at he
    · cases he
      simp
    · cases ht : core.jobLocationTracker.lookup info.stageName with
      | none => simp [ht] at he
      | some locations => exact (h _ _ ht).2 address envs (by simpa [ht] using he)
  · exact h job locations hl

end RegisterStage

section RemoveStage

structure Removed (info : StageInfo) (core core' : CoreControlApplication) : Prop where
  localToStages : core'.localToStages = core.localToStages
  localSessions : core'.localSessions = core.localSessions
  envsOf : ∀ job address, core'.envsOf job address =
    if job = info.stageName ∧ address = info.localAddress then
      (core.envsOf job address).filter (· ≠ info.stageEnv)
    else core.envsOf job address
  noEmpty : NoEmpty core → NoEmpty core'

theorem removed_of_tracker (core' : CoreControlApplication) {info : StageInfo}
    {locations locations' : Locations} {envs : List ℤ}
    (hl : core.jobLocationTracker.lookup info.stageName = some locations)
    (he : locations.lookup info.localAddress = some envs)
    (htracker : ∀ job, core'.jobLocationTracker.lookup job =
      if job = info.stageName then
        if locations'.entries = [] then none else some locations'
      else core.jobLocationTracker.lookup job)
    (hlocations : ∀ address, locations'.lookup address =
      if address = info.localAddress then
        if envs.filter (· ≠ info.stageEnv) = [] then none else some (envs.filter (· ≠ info.stageEnv))
      else locations.lookup address) :
    (∀ job address, core'.envsOf job address =
      if job = info.stageName ∧ address = info.localAddress then
        (core.envsOf job address).filter (· ≠ info.stageEnv)
      else core.envsOf job address) ∧ (NoEmpty core → NoEmpty core') := by
  have henvs : ∀ address, (locations'.lookup address).getD [] =
      if address = info.localAddress then (core.envsOf info.stageName address).filter (· ≠ info.stageEnv)
      else core.envsOf info.stageName address := by
    intro address
    rw [hlocations address, envsOf_lookup hl]
    split
    case isTrue h =>
      rw [h, he, Option.getD_some]
      split
      case isTrue hnil => rw [hnil, Option.getD_none]
      case isFalse => rfl
    case isFalse => rfl
  refine ⟨fun job address => ?_, fun hne job locs hlocs => ?_⟩
  · by_cases hj : job = info.stageName
    · subst hj
      have h := htracker info.stageName
      rw [if_pos rfl] at h
      simp only [true_and]
      rw [← henvs address]
      by_cases hnil : locations'.entries = []
      · rw [if_pos hnil] at h
        simp [CoreControlApplication.envsOf, h, Assoc.lookup_of_entries_nil hnil]
      · rw [if_neg hnil] at h
        exact envsOf_lookup h
    · simp [CoreControlApplication.envsOf, htracker job, hj]
  · rw [htracker job] at hlocs
    split at hlocs
    case isTrue hj =>
      split at hlocs
      · cases hlocs
      case isFalse hnil =>
        cases hlocs
        refine ⟨hnil, fun address envs' he' => ?_⟩
        rw [hlocations address] at he'
        split at he'
        · split at he'
          · cases he'
          case isFalse hf => cases he'; exact hf
        · exact (hne _ _ hl).2 address envs' he'
    case isFalse => exact hne job locs hlocs

theorem untrackStage_removed {info : StageInfo} {locations : Locations} {envs : List ℤ}
    (hl : core.jobLocationTracker.lookup info.stageName = some locations)
    (he : locations.lookup info.localAddress = some envs) :
    Removed info core (untrackStage info locations envs core) := by
  unfold untrackStage
  by_cases hnil : envs.filter (· ≠ info.stageEnv) = []
  · have hlookup : ∀ address, (locations.erase info.localAddress).lookup address =
        if address = info.localAddress then
          if envs.filter (· ≠ info.stageEnv) = [] then none else some (envs.filter (· ≠ info.stageEnv))
        else locations.lookup address := by
      intro address
      rw [Assoc.lookup_erase_eq, if_pos hnil]
    simp only [hnil, if_true]
    by_cases hempty : (locations.erase info.localAddress).entries = []
    · obtain ⟨henvs, hne⟩ := removed_of_tracker (eraseJob info.stageName core) hl he
        (fun job => by simp [eraseJob, Assoc.lookup_erase_eq, hempty]) hlookup
      rw [if_pos hempty]
      exact ⟨rfl, rfl, henvs, hne⟩
    · rw [if_neg hempty]
      obtain ⟨henvs, hne⟩ := removed_of_tracker
        { core with
          jobLocationTracker := core.jobLocationTracker.insertSorted info.stageName
            (locations.erase info.localAddress) } hl he
        (fun job => by simp [Assoc.lookup_insertSorted, hempty]) hlookup
      exact ⟨rfl, rfl, henvs, hne⟩
  · simp only [hnil, if_false]
    have hlookup : ∀ address,
        (locations.insert info.localAddress (envs.filter (· ≠ info.stageEnv))).lookup address =
          if address = info.localAddress then
            if envs.filter (· ≠ info.stageEnv) = [] then none
            else some (envs.filter (· ≠ info.stageEnv))
          else locations.lookup address := by
      intro address
      rw [Assoc.lookup_insert_eq, if_neg hnil]
    obtain ⟨henvs, hne⟩ := removed_of_tracker
      { core with
        jobLocationTracker := core.jobLocationTracker.insertSorted info.stageName
          (locations.insert info.localAddress (envs.filter (· ≠ info.stageEnv))) } hl he
      (fun job => by simp [Assoc.lookup_insertSorted, AList.entries_insert]) hlookup
    exact ⟨rfl, rfl, henvs, hne⟩

theorem removeStage_ok {key : String} (h : removeStage key core = .ok core') :
    ∃ info, core.stageInfoDetailed.lookup key = some info ∧ Removed info core core' ∧
      core'.stageInfoDetailed = core.stageInfoDetailed.erase key ∧ core'.changeInSystem = true ∧
      core'.history = .removed info :: core.history := by
  unfold removeStage at h
  split at h
  · cases h
  case h_2 info hinfo =>
    split at h
    · cases h
    case h_2 locations hl =>
      split at h
      · cases h
      case h_2 envs he =>
        cases h
        obtain ⟨h1, h2, h3, h4⟩ := untrackStage_removed hl he
        exact ⟨info, hinfo, ⟨h1, h2, h3, h4⟩, rfl, rfl, rfl⟩

theorem removeStage_total {key : String} {info : StageInfo}
    (hinfo : core.stageInfoDetailed.lookup key = some info)
    (henvs : core.envsOf info.stageName info.localAddress ≠ []) :
    ∃ core', removeStage key core = .ok core' := by
  obtain ⟨locations, envs, hl, he, _⟩ := lookup_of_envsOf henvs
  exact ⟨_, by simp only [removeStage, hinfo, hl, he]; rfl⟩

end RemoveStage

section CollectStatisticsResult

def namesEnv (infos : String → Option StageInfo) (dead : List String) (job address : String) (env : ℤ) :
    Bool :=
  dead.any fun key => (infos key).any fun info =>
    info.stageName = job ∧ info.localAddress = address ∧ info.stageEnv = env

theorem namesEnv_iff {infos : String → Option StageInfo} {dead : List String} {job address : String}
    {env : ℤ} : namesEnv infos dead job address env = true ↔ ∃ key ∈ dead, ∃ info,
      infos key = some info ∧ info.stageName = job ∧ info.localAddress = address ∧ info.stageEnv = env := by
  simp [namesEnv, List.any_eq_true, Option.any_eq_true]

structure Purged (dead : List String) (core core' : CoreControlApplication) : Prop where
  nodup : dead.Nodup
  known : ∀ key ∈ dead, key ∈ core.stageInfoDetailed
  stageInfoDetailed : ∀ key, core'.stageInfoDetailed.lookup key =
    if key ∈ dead then none else core.stageInfoDetailed.lookup key
  envsOf : ∀ job address, core'.envsOf job address =
    (core.envsOf job address).filter (! namesEnv core.stageInfoDetailed.lookup dead job address ·)
  localSessions : core'.localSessions = core.localSessions
  noEmpty : NoEmpty core → NoEmpty core'

theorem Purged.nil : Purged [] core core where
  nodup := List.nodup_nil
  known := by simp
  stageInfoDetailed := by simp
  envsOf := by simp [namesEnv]
  localSessions := rfl
  noEmpty := fun h => h

theorem Purged.cons {key : String} {dead : List String} {core₁ core₂ : CoreControlApplication}
    (h : removeStage key core = .ok core₁) (hrest : Purged dead core₂ core')
    (hinfo : core₂.stageInfoDetailed = core₁.stageInfoDetailed)
    (htracker : core₂.jobLocationTracker = core₁.jobLocationTracker)
    (hsessions : core₂.localSessions = core₁.localSessions) : Purged (key :: dead) core core' := by
  obtain ⟨info, hlookup, hremoved, herase, _, _⟩ := removeStage_ok h
  have hlookup₂ : ∀ k, core₂.stageInfoDetailed.lookup k =
      if k = key then none else core.stageInfoDetailed.lookup k := by
    intro k
    rw [hinfo, herase, Assoc.lookup_erase_eq]
  have hnotin : key ∉ dead := by
    intro hk
    have := AList.lookup_isSome.mpr (hrest.known key hk)
    rw [hlookup₂, if_pos rfl] at this
    cases this
  have henvs₂ : ∀ job address, core₂.envsOf job address = core₁.envsOf job address := fun _ _ => by
    rw [CoreControlApplication.envsOf, CoreControlApplication.envsOf, htracker]
  have hnames : ∀ job address env, namesEnv core.stageInfoDetailed.lookup (key :: dead) job address env =
      (decide (info.stageName = job ∧ info.localAddress = address ∧ info.stageEnv = env) ||
        namesEnv core₂.stageInfoDetailed.lookup dead job address env) := by
    intro job address env
    have hrest : namesEnv core.stageInfoDetailed.lookup dead job address env =
        namesEnv core₂.stageInfoDetailed.lookup dead job address env := by
      rw [Bool.eq_iff_iff, namesEnv_iff, namesEnv_iff]
      refine exists_congr fun k => and_congr_right fun hk => ?_
      rw [hlookup₂, if_neg fun he : k = key => hnotin (he ▸ hk)]
    rw [← hrest]
    simp [namesEnv, hlookup]
  refine ⟨?_, ?_, ?_, ?_, ?_, ?_⟩
  · exact List.nodup_cons.mpr ⟨hnotin, hrest.nodup⟩
  · intro k hk
    rcases List.mem_cons.mp hk with rfl | hk
    · exact AList.lookup_isSome.mp (by rw [hlookup]; rfl)
    · have := AList.lookup_isSome.mpr (hrest.known k hk)
      rw [hlookup₂, if_neg fun he : k = key => hnotin (he ▸ hk)] at this
      exact AList.lookup_isSome.mp this
  · intro k
    rw [hrest.stageInfoDetailed, hlookup₂]
    by_cases hk : k = key <;> simp [hk]
  · intro job address
    rw [hrest.envsOf, henvs₂, hremoved.envsOf]
    split
    case isTrue hja =>
      obtain ⟨rfl, rfl⟩ := hja
      rw [List.filter_filter]
      refine List.filter_congr fun env _ => ?_
      rw [hnames]
      simp [eq_comm, Bool.and_comm]
    case isFalse hja =>
      refine List.filter_congr fun env _ => ?_
      rw [hnames, decide_eq_false fun hd => hja ⟨hd.1.symm, hd.2.1.symm⟩, Bool.false_or]
  · rw [hrest.localSessions, hsessions, hremoved.localSessions]
  · intro hne
    refine hrest.noEmpty ?_
    have hne₁ := hremoved.noEmpty hne
    unfold NoEmpty at hne₁ ⊢
    rwa [htracker]

theorem removeStages_ok {dead : List String} (h : removeStages dead core = .ok core') :
    Purged dead core core' ∧ core'.localToStages = core.localToStages := by
  induction dead generalizing core with
  | nil =>
    cases h
    exact ⟨.nil, rfl⟩
  | cons key rest ih =>
    obtain ⟨core₁, h₁, hrest⟩ := Fault.bind_eq_ok.mp h
    obtain ⟨hpurged, hstages⟩ := ih hrest
    obtain ⟨_, _, hremoved, _⟩ := removeStage_ok h₁
    exact ⟨.cons h₁ hpurged rfl rfl rfl, hstages.trans hremoved.localToStages⟩

def deadKeys (entries : List (Σ _ : String, ℚ)) : List String :=
  (entries.filter (·.2 = -1)).map Sigma.fst

theorem stagesOf_writeBack (key : String) {address : String} {stages : List String}
    {core₁ : CoreControlApplication}
    (hl : core₁.localToStages.lookup address = some stages) (a : String) :
    stagesOf (if stages.filter (· ≠ key) = [] then
        { core₁ with localToStages := core₁.localToStages.erase address }
      else { core₁ with localToStages := core₁.localToStages.insert address (stages.filter (· ≠ key)) }) a =
      if a = address then (core₁.stagesOf a).filter (· ≠ key) else core₁.stagesOf a := by
  by_cases hnil : stages.filter (· ≠ key) = []
  · rw [if_pos hnil]
    by_cases ha : a = address
    · subst ha
      simp only [stagesOf, AList.lookup_erase, Option.getD_none, if_true, hl, Option.getD_some, hnil]
    · simp only [stagesOf, AList.lookup_erase_ne ha, if_neg ha]
  · rw [if_neg hnil]
    by_cases ha : a = address
    · subst ha
      simp only [stagesOf, AList.lookup_insert, Option.getD_some, if_true, hl]
    · simp only [stagesOf, AList.lookup_insert_ne ha, if_neg ha]

theorem removeDead_ok {address : String} {entries : List (Σ _ : String, ℚ)}
    {sessionsToDelete sessionsToDelete' : List String}
    (h : removeDead address entries core sessionsToDelete = .ok (core', sessionsToDelete')) :
    Purged (deadKeys entries) core core' ∧
      (∀ a, core'.stagesOf a =
        if a = address then (core.stagesOf a).filter (· ∉ deadKeys entries) else core.stagesOf a) ∧
      (∀ a, a ≠ address → core'.localToStages.lookup a = core.localToStages.lookup a) ∧
      ∀ a ∈ sessionsToDelete', a ∈ sessionsToDelete ∨ a = address ∧ core'.stagesOf address = [] := by
  induction entries generalizing core sessionsToDelete with
  | nil =>
    cases h
    exact ⟨.nil, fun a => by simp [deadKeys], fun _ _ => rfl, fun a ha => .inl ha⟩
  | cons e rest ih =>
    obtain ⟨key, rate⟩ := e
    unfold removeDead at h
    by_cases hrate : rate = -1
    · rw [if_pos hrate] at h
      obtain ⟨core₁, h₁, h⟩ := Fault.bind_eq_ok.mp h
      have hdead : deadKeys (⟨key, rate⟩ :: rest) = key :: deadKeys rest := by simp [deadKeys, hrate]
      obtain ⟨info, _, hremoved, _⟩ := removeStage_ok h₁
      split at h
      · cases h
      case h_2 stages hl =>
        have hback := stagesOf_writeBack key hl
        have hrest : ∃ core₂ del₂, removeDead address rest core₂ del₂ = .ok (core', sessionsToDelete') ∧
            core₂.stageInfoDetailed = core₁.stageInfoDetailed ∧
            core₂.jobLocationTracker = core₁.jobLocationTracker ∧
            core₂.localSessions = core₁.localSessions ∧
            (∀ a, core₂.stagesOf a =
              if a = address then (core₁.stagesOf a).filter (· ≠ key) else core₁.stagesOf a) ∧
            (∀ a, a ≠ address → core₂.localToStages.lookup a = core₁.localToStages.lookup a) ∧
            ∀ a ∈ del₂, a ∈ sessionsToDelete ∨ a = address ∧ core₂.stagesOf address = [] := by
          dsimp only at h
          split at h
          case isTrue hnil =>
            simp only [if_pos hnil] at hback
            refine ⟨_, _, h, rfl, rfl, rfl, hback, fun a ha => AList.lookup_erase_ne ha, fun a ha => ?_⟩
            rcases List.mem_append.mp ha with ha | ha
            · exact .inl ha
            · refine .inr ⟨List.mem_singleton.mp ha, ?_⟩
              simp [stagesOf, AList.lookup_erase]
          case isFalse hnil =>
            simp only [if_neg hnil] at hback
            exact ⟨_, _, h, rfl, rfl, rfl, hback, fun a ha => AList.lookup_insert_ne ha, fun a ha => .inl ha⟩
        obtain ⟨core₂, del₂, h₂, hinfo, htracker, hsessions, hstages, hother, hdel⟩ := hrest
        obtain ⟨hpurged, hstages', hother', hdel'⟩ := ih h₂
        rw [hdead]
        refine ⟨.cons h₁ hpurged hinfo htracker hsessions, fun a => ?_, fun a ha => ?_, fun a ha => ?_⟩
        · have hkeep : core₁.stagesOf a = core.stagesOf a := by
            rw [stagesOf, stagesOf, hremoved.localToStages]
          rw [hstages' a, hstages a, hkeep]
          split
          · rw [List.filter_filter]
            exact List.filter_congr fun k _ => by simp [Bool.and_comm]
          · rfl
        · rw [hother' a ha, hother a ha, hremoved.localToStages]
        · rcases hdel' a ha with ha | ha
          · rcases hdel a ha with ha | ⟨rfl, hnil⟩
            · exact .inl ha
            · refine .inr ⟨rfl, ?_⟩
              rw [hstages' a, hnil, if_pos rfl, List.filter_nil]
          · exact .inr ha
    · rw [if_neg hrate] at h
      have hdead : deadKeys (⟨key, rate⟩ :: rest) = deadKeys rest := by simp [deadKeys, hrate]
      rw [hdead]
      exact ih h

def deadOf (core : CoreControlApplication) (address : String) (rates : Rates) : List String :=
  if rates.entries = [] then core.stagesOf address else deadKeys rates.entries

theorem collectStatisticsResult_ok {address : String} {response : StageResponse}
    {collection collection' : Collection}
    (h : collectStatisticsResult address response collection core = .ok (core', collection')) :
    ∃ responseType rates, response = .stats responseType rates ∧
      Purged (core.deadOf address rates) core core' ∧
      (∀ a, core'.stagesOf a =
        if a = address then (core.stagesOf a).filter (· ∉ core.deadOf address rates)
        else core.stagesOf a) ∧
      (∀ a, a ≠ address → core'.localToStages.lookup a = core.localToStages.lookup a) ∧
      (∀ a ∈ collection'.sessionsToDelete,
        a ∈ collection.sessionsToDelete ∨ a = address ∧ core'.stagesOf address = []) ∧
      (core'.stagesOf address = [] ∨ address ∈ collection'.collectedStats) ∧
      ∀ a ∈ collection.collectedStats, a ∈ collection'.collectedStats := by
  unfold collectStatisticsResult at h
  split at h
  · cases h
  · cases h
  case h_3 responseType rates =>
    refine ⟨responseType, rates, rfl, ?_⟩
    unfold deadOf
    split at h
    case isTrue hnil =>
      rw [if_pos hnil]
      split at h
      · cases h
      case h_2 stages hl =>
        obtain ⟨core₁, h₁, h⟩ := Fault.bind_eq_ok.mp h
        cases h
        have hstages : core.stagesOf address = stages := by simp [stagesOf, hl]
        obtain ⟨hpurged, hsame⟩ := removeStages_ok h₁
        have hgone : ∀ a, stagesOf { core₁ with localToStages := core₁.localToStages.erase address } a =
            if a = address then [] else core.stagesOf a := by
          intro a
          simp only [stagesOf, Assoc.lookup_erase_eq, hsame]
          split <;> rfl
        rw [hstages]
        refine ⟨⟨hpurged.1, hpurged.2, hpurged.3, hpurged.4, hpurged.5, hpurged.6⟩,
          fun a => ?_, fun a ha => ?_, fun a ha => ?_, ?_, fun a ha => ha⟩
        · rw [hgone]
          split
          case isTrue ha => simp [ha, hstages]
          case isFalse => rfl
        · rw [AList.lookup_erase_ne ha, hsame]
        · rcases List.mem_append.mp ha with ha | ha
          · exact .inl ha
          · exact .inr ⟨List.mem_singleton.mp ha, by rw [hgone, if_pos rfl]⟩
        · exact .inl (by rw [hgone, if_pos rfl])
    case isFalse hnil =>
      rw [if_neg hnil]
      obtain ⟨⟨core₁, del⟩, h₁, h⟩ := Fault.bind_eq_ok.mp h
      cases h
      obtain ⟨hpurged, hstages, hother, hdel⟩ := removeDead_ok h₁
      refine ⟨hpurged, hstages, hother, hdel, .inr ?_, fun a ha => ?_⟩
      · rw [← AList.lookup_isSome, Assoc.lookup_emplace, if_pos rfl]
        rfl
      · rw [← AList.lookup_isSome] at ha ⊢
        rw [Assoc.lookup_emplace]
        split
        · rfl
        · exact ha

end CollectStatisticsResult

section Forgets

structure Forgets (core core' : CoreControlApplication) : Prop where
  frame : core' = { core with
    changeInSystem := core'.changeInSystem
    localToStages := core'.localToStages
    stageInfoDetailed := core'.stageInfoDetailed
    jobLocationTracker := core'.jobLocationTracker
    jobDemands := core'.jobDemands
    jobRates := core'.jobRates
    jobPreviousRates := core'.jobPreviousRates
    history := core'.history }
  tracked : ∀ job ∈ core'.jobLocationTracker, job ∈ core.jobLocationTracker
  kept : ∀ job, (job ∈ core.jobLocationTracker → job ∈ core'.jobLocationTracker) →
    core'.jobDemands.lookup job = core.jobDemands.lookup job ∧
      core'.jobRates.lookup job = core.jobRates.lookup job ∧
      core'.jobPreviousRates.lookup job = core.jobPreviousRates.lookup job
  forgotten : ∀ job ∈ core.jobLocationTracker, job ∉ core'.jobLocationTracker →
    core'.jobDemands.lookup job = none ∧ core'.jobRates.lookup job = none ∧
      core'.jobPreviousRates.lookup job = none
  events : ∃ infos : List StageInfo, core'.history = infos.map .removed ++ core.history ∧
    core'.changeInSystem = (core.changeInSystem || !infos.isEmpty) ∧
    ∀ job, (∀ info ∈ infos, info.stageName ≠ job) →
      core'.jobLocationTracker.lookup job = core.jobLocationTracker.lookup job
  still : core'.history = core.history → core'.jobLocationTracker = core.jobLocationTracker

namespace Forgets

theorem refl (core : CoreControlApplication) : Forgets core core where
  frame := rfl
  tracked _ h := h
  kept _ _ := ⟨rfl, rfl, rfl⟩
  forgotten _ h h' := absurd h h'
  events := ⟨[], rfl, by simp, fun _ _ => rfl⟩
  still _ := rfl

theorem trans {core'' : CoreControlApplication} (h : Forgets core core') (h' : Forgets core' core'') :
    Forgets core core'' where
  frame := by
    rw [h'.frame, h.frame]
  tracked job hj := h.tracked job (h'.tracked job hj)
  kept job hj := by
    by_cases hm : job ∈ core.jobLocationTracker
    · have hm'' := hj hm
      obtain ⟨h1, h2, h3⟩ := h.kept job fun _ => h'.tracked job hm''
      obtain ⟨h1', h2', h3'⟩ := h'.kept job fun _ => hm''
      exact ⟨h1'.trans h1, h2'.trans h2, h3'.trans h3⟩
    · have hm' : job ∉ core'.jobLocationTracker := fun hm' => hm (h.tracked job hm')
      obtain ⟨h1, h2, h3⟩ := h.kept job fun hm' => absurd hm' hm
      obtain ⟨h1', h2', h3'⟩ := h'.kept job fun hm => absurd hm hm'
      exact ⟨h1'.trans h1, h2'.trans h2, h3'.trans h3⟩
  forgotten job hm hm'' := by
    by_cases hm' : job ∈ core'.jobLocationTracker
    · exact h'.forgotten job hm' hm''
    · obtain ⟨h1, h2, h3⟩ := h.forgotten job hm hm'
      obtain ⟨h1', h2', h3'⟩ := h'.kept job fun hm => absurd hm hm'
      exact ⟨h1'.trans h1, h2'.trans h2, h3'.trans h3⟩
  events := by
    obtain ⟨infos, hh, hc, hl⟩ := h.events
    obtain ⟨infos', hh', hc', hl'⟩ := h'.events
    refine ⟨infos' ++ infos, by rw [hh', hh, List.map_append, List.append_assoc], ?_, fun job hj => ?_⟩
    · rw [hc', hc]
      cases infos' <;> cases infos <;> simp
    · rw [hl' job fun info hi => hj info (List.mem_append_left _ hi),
        hl job fun info hi => hj info (List.mem_append_right _ hi)]
  still he := by
    obtain ⟨infos, hh, _⟩ := h.events
    obtain ⟨infos', hh', _⟩ := h'.events
    rw [hh', hh] at he
    have hnil : infos'.map Event.removed = [] ∧ infos.map Event.removed = [] := by
      have hlength := congrArg List.length he
      simp only [List.length_append] at hlength
      exact ⟨List.eq_nil_of_length_eq_zero (by omega), List.eq_nil_of_length_eq_zero (by omega)⟩
    rw [h'.still (by rw [hh', hnil.1, List.nil_append]), h.still (by rw [hh, hnil.2, List.nil_append])]

end Forgets

theorem untrackStage_tracker (info : StageInfo) (locations : Locations) (envs : List ℤ)
    (core : CoreControlApplication) :
    ∃ tracker demands rates previousRates, untrackStage info locations envs core = { core with
        jobLocationTracker := tracker
        jobDemands := demands
        jobRates := rates
        jobPreviousRates := previousRates } ∧
      (∀ job ≠ info.stageName, tracker.lookup job = core.jobLocationTracker.lookup job) ∧
      (demands = core.jobDemands ∧ rates = core.jobRates ∧ previousRates = core.jobPreviousRates ∧
          info.stageName ∈ tracker ∨
        demands = core.jobDemands.erase info.stageName ∧ rates = core.jobRates.erase info.stageName ∧
          previousRates = core.jobPreviousRates.erase info.stageName ∧ info.stageName ∉ tracker) := by
  have hinsert : ∀ locations : Locations,
      (∀ job ≠ info.stageName, (core.jobLocationTracker.insertSorted info.stageName locations).lookup job =
        core.jobLocationTracker.lookup job) ∧
      info.stageName ∈ core.jobLocationTracker.insertSorted info.stageName locations := fun locations =>
    ⟨fun job hj => by rw [Assoc.lookup_insertSorted, if_neg hj],
      (Assoc.mem_insertSorted _ _ _ _).mpr (.inl rfl)⟩
  unfold untrackStage
  dsimp only
  split
  · split
    · refine ⟨_, _, _, _, rfl, fun job hj => AList.lookup_erase_ne hj, .inr ⟨rfl, rfl, rfl, ?_⟩⟩
      rw [AList.mem_erase]
      exact fun h => h.1 rfl
    · exact ⟨_, _, _, _, rfl, (hinsert _).1, .inl ⟨rfl, rfl, rfl, (hinsert _).2⟩⟩
  · exact ⟨_, _, _, _, rfl, (hinsert _).1, .inl ⟨rfl, rfl, rfl, (hinsert _).2⟩⟩

theorem removeStage_forgets {key : String} (h : removeStage key core = .ok core') : Forgets core core' := by
  unfold removeStage at h
  split at h
  · cases h
  case h_2 info hinfo =>
    split at h
    · cases h
    case h_2 locations hl =>
      split at h
      · cases h
      case h_2 envs he =>
        obtain ⟨tracker, demands, rates, previousRates, huntrack, hother, hcases⟩ :=
          untrackStage_tracker info locations envs core
        rw [huntrack] at h
        cases h
        have hmem : ∀ job ≠ info.stageName, job ∈ tracker ↔ job ∈ core.jobLocationTracker := fun job hj => by
          rw [← AList.lookup_isSome, hother job hj, AList.lookup_isSome]
        have hname : info.stageName ∈ core.jobLocationTracker := AList.lookup_isSome.mp (by rw [hl]; rfl)
        refine ⟨rfl, fun job hj => ?_, fun job hj => ?_, fun job hj hn => ?_,
          ⟨[info], rfl, by simp, fun job hj => ?_⟩, fun he => absurd he (List.cons_ne_self _ _)⟩
        · by_cases he : job = info.stageName
          · rw [he]; exact hname
          · exact (hmem job he).mp hj
        · rcases hcases with ⟨rfl, rfl, rfl, _⟩ | ⟨rfl, rfl, rfl, hnot⟩
          · exact ⟨rfl, rfl, rfl⟩
          · have he : job ≠ info.stageName := by
              rintro rfl
              exact hnot (hj hname)
            exact ⟨AList.lookup_erase_ne he, AList.lookup_erase_ne he, AList.lookup_erase_ne he⟩
        · have he : job = info.stageName := by
            by_contra he
            exact hn ((hmem job he).mpr hj)
          subst he
          rcases hcases with ⟨_, _, _, hin⟩ | ⟨rfl, rfl, rfl, _⟩
          · exact absurd hin hn
          · exact ⟨AList.lookup_erase _ _, AList.lookup_erase _ _, AList.lookup_erase _ _⟩
        · exact hother job fun he => hj info (List.mem_singleton.mpr rfl) he.symm

theorem forgets_stages (core : CoreControlApplication) (stages : Assoc String (List String)) :
    Forgets core { core with localToStages := stages } where
  frame := rfl
  tracked _ h := h
  kept _ _ := ⟨rfl, rfl, rfl⟩
  forgotten _ h h' := absurd h h'
  events := ⟨[], rfl, by simp, fun _ _ => rfl⟩
  still _ := rfl

theorem removeStages_forgets {dead : List String} (h : removeStages dead core = .ok core') :
    Forgets core core' := by
  induction dead generalizing core with
  | nil =>
    cases h
    exact .refl _
  | cons key rest ih =>
    obtain ⟨core₁, h₁, h⟩ := Fault.bind_eq_ok.mp h
    exact (removeStage_forgets h₁).trans (ih h)

theorem removeDead_forgets {address : String} {entries : List (Σ _ : String, ℚ)}
    {sessionsToDelete sessionsToDelete' : List String}
    (h : removeDead address entries core sessionsToDelete = .ok (core', sessionsToDelete')) :
    Forgets core core' := by
  induction entries generalizing core sessionsToDelete with
  | nil =>
    cases h
    exact .refl _
  | cons e rest ih =>
    unfold removeDead at h
    split at h
    · obtain ⟨core₁, h₁, h⟩ := Fault.bind_eq_ok.mp h
      refine (removeStage_forgets h₁).trans ?_
      split at h
      · cases h
      · dsimp only at h
        split at h
        · exact (forgets_stages _ _).trans (ih h)
        · exact (forgets_stages _ _).trans (ih h)
    · exact ih h

theorem removeStage_error {key : String} {e : Fault} (h : removeStage key core = .error e) :
    e ≠ .outOfRange .localSessions := by
  unfold removeStage at h
  split at h
  · cases h; decide
  · split at h
    · cases h; decide
    · split at h
      · cases h; decide
      · cases h

theorem removeStages_error {dead : List String} {e : Fault} (h : removeStages dead core = .error e) :
    e ≠ .outOfRange .localSessions := by
  induction dead generalizing core with
  | nil => cases h
  | cons key rest ih =>
    rcases Fault.bind_eq_error.mp h with h | ⟨core₁, _, h⟩
    · exact removeStage_error h
    · exact ih h

theorem removeDead_error {address : String} {entries : List (Σ _ : String, ℚ)}
    {sessionsToDelete : List String} {e : Fault}
    (h : removeDead address entries core sessionsToDelete = .error e) : e ≠ .outOfRange .localSessions := by
  induction entries generalizing core sessionsToDelete with
  | nil => cases h
  | cons entry rest ih =>
    unfold removeDead at h
    split at h
    · rcases Fault.bind_eq_error.mp h with h | ⟨core₁, _, h⟩
      · exact removeStage_error h
      · split at h
        · cases h; decide
        · dsimp only at h
          split at h
          · exact ih h
          · exact ih h
    · exact ih h

theorem collectStatisticsResult_error {address : String} {response : StageResponse} {collection : Collection}
    {e : Fault} (h : collectStatisticsResult address response collection core = .error e) :
    e ≠ .outOfRange .localSessions := by
  unfold collectStatisticsResult at h
  split at h
  · cases h; decide
  · cases h; decide
  · split at h
    · split at h
      · cases h; decide
      · rcases Fault.bind_eq_error.mp h with h | ⟨core₁, _, h⟩
        · exact removeStages_error h
        · cases h
    · rcases Fault.bind_eq_error.mp h with h | ⟨⟨core₁, del⟩, _, h⟩
      · exact removeDead_error h
      · cases h

theorem collectStatisticsResult_forgets {address : String} {response : StageResponse}
    {collection collection' : Collection}
    (h : collectStatisticsResult address response collection core = .ok (core', collection')) :
    Forgets core core' := by
  unfold collectStatisticsResult at h
  split at h
  · cases h
  · cases h
  · split at h
    · split at h
      · cases h
      · obtain ⟨core₁, h₁, h⟩ := Fault.bind_eq_ok.mp h
        cases h
        exact (removeStages_forgets h₁).trans (forgets_stages _ _)
    · obtain ⟨⟨core₁, del⟩, h₁, h⟩ := Fault.bind_eq_ok.mp h
      cases h
      exact removeDead_forgets h₁

end Forgets

end CoreControlApplication

end Cheferd
