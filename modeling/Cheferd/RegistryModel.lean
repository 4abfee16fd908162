import Cheferd.LoopSteps
import Mathlib.Logic.Function.Basic

namespace Cheferd

open Library

@[ext] structure Registry where
  stages : String → List String
  infos : String → Option StageInfo
  envs : String → String → List ℤ

namespace Registry

open CoreControlApplication

def empty : Registry := ⟨fun _ => [], fun _ => none, fun _ _ => []⟩

def register (info : StageInfo) (r : Registry) : Registry where
  stages address := if address = info.localAddress then r.stages address ++ [info.key] else r.stages address
  infos key := if key = info.key then some info else r.infos key
  envs job address :=
    if job = info.stageName ∧ address = info.localAddress then r.envs job address ++ [info.stageEnv]
    else r.envs job address

structure Purge (address : String) (dead : List String) (r r' : Registry) : Prop where
  nodup : dead.Nodup
  known : ∀ key ∈ dead, (r.infos key).isSome
  infos : ∀ key, r'.infos key = if key ∈ dead then none else r.infos key
  stages : ∀ a, r'.stages a = if a = address then (r.stages a).filter (· ∉ dead) else r.stages a
  envs : ∀ job a, r'.envs job a = (r.envs job a).filter (! namesEnv r.infos dead job a ·)

def Located (r : Registry) : Prop :=
  ∀ key info, r.infos key = some info → key = info.key ∧ info.stageEnv ∈ r.envs info.stageName info.localAddress

theorem Located.register {r : Registry} (h : r.Located) (info : StageInfo) : (r.register info).Located := by
  intro key other ho
  simp only [Registry.register] at ho ⊢
  split at ho
  case isTrue hk =>
    cases ho
    simp [hk]
  case isFalse =>
    obtain ⟨hk, he⟩ := h key other ho
    refine ⟨hk, ?_⟩
    split
    · exact List.mem_append_left _ he
    · exact he

theorem Located.filter {r r' : Registry} {dead : List String} (h : r.Located)
    (hinfos : ∀ key, r'.infos key = if key ∈ dead then none else r.infos key)
    (henvs : ∀ job a, r'.envs job a = (r.envs job a).filter (! namesEnv r.infos dead job a ·)) :
    r'.Located := by
  intro key info hi
  rw [hinfos] at hi
  split at hi
  · cases hi
  case isFalse hk =>
    obtain ⟨rfl, he⟩ := h key info hi
    rw [henvs]
    refine ⟨rfl, List.mem_filter.mpr ⟨he, ?_⟩⟩
    rw [Bool.not_eq_true', Bool.eq_false_iff, ne_eq, namesEnv_iff]
    rintro ⟨k, hdead, other, ho, hname, haddress, henv⟩
    obtain ⟨rfl, -⟩ := h k other ho
    exact hk (by rw [StageInfo.key, ← hname, ← henv]; exact hdead)

def Owned (r : Registry) : Prop := ∀ key info, r.infos key = some info → key ∈ r.stages info.localAddress

theorem Owned.register {r : Registry} (h : r.Owned) (info : StageInfo) : (r.register info).Owned := by
  intro key other ho
  simp only [Registry.register] at ho ⊢
  split at ho
  case isTrue hk =>
    cases ho
    simp [hk]
  case isFalse =>
    have hmem := h key other ho
    split
    · exact List.mem_append_left _ hmem
    · exact hmem

theorem Owned.purge {r r' : Registry} {address : String} {dead : List String} (h : r.Owned)
    (hp : Purge address dead r r') : r'.Owned := by
  intro key info hi
  rw [hp.infos] at hi
  split at hi
  · cases hi
  case isFalse hk =>
    have hmem := h key info hi
    rw [hp.stages]
    split
    · exact List.mem_filter.mpr ⟨hmem, by simpa using hk⟩
    · exact hmem

end Registry

def CoreControlApplication.registry (core : CoreControlApplication) : Registry :=
  ⟨core.stagesOf, core.stageInfoDetailed.lookup, core.envsOf⟩

namespace CoreControlApplication

variable {core core' : CoreControlApplication} {address : String} {dead : List String}

theorem Purged.registry (h : Purged dead core core')
    (hstages : ∀ a, core'.stagesOf a =
      if a = address then (core.stagesOf a).filter (· ∉ dead) else core.stagesOf a) :
    Registry.Purge address dead core.registry core'.registry :=
  ⟨h.nodup, fun key hk => AList.lookup_isSome.mpr (h.known key hk), h.stageInfoDetailed, hstages, h.envsOf⟩

theorem Purged.located (h : Purged dead core core') (hl : core.registry.Located) :
    core'.registry.Located :=
  hl.filter h.stageInfoDetailed h.envsOf

theorem removeStage_located {key : String} (hl : core.registry.Located) (hnotin : key ∉ dead)
    (hknown : ∀ k ∈ key :: dead, k ∈ core.stageInfoDetailed) :
    ∃ core₁, removeStage key core = .ok core₁ ∧ core₁.registry.Located ∧
      core₁.localToStages = core.localToStages ∧ ∀ k ∈ dead, k ∈ core₁.stageInfoDetailed := by
  obtain ⟨info, hinfo⟩ := Option.isSome_iff_exists.mp
    (AList.lookup_isSome.mpr (hknown key List.mem_cons_self))
  obtain ⟨core₁, h₁⟩ := removeStage_total hinfo (List.ne_nil_of_mem (hl key info hinfo).2)
  have hp : Purged [key] core core₁ := .cons h₁ .nil rfl rfl rfl
  obtain ⟨_, _, hremoved, _⟩ := removeStage_ok h₁
  refine ⟨core₁, h₁, hp.located hl, hremoved.localToStages, fun k hk => ?_⟩
  have hne : k ∉ [key] := fun he => hnotin (List.mem_singleton.mp he ▸ hk)
  rw [← AList.lookup_isSome, hp.stageInfoDetailed, if_neg hne]
  exact AList.lookup_isSome.mpr (hknown k (List.mem_cons_of_mem _ hk))

theorem removeStages_total (hl : core.registry.Located) (hnodup : dead.Nodup)
    (hknown : ∀ key ∈ dead, key ∈ core.stageInfoDetailed) :
    ∃ core', removeStages dead core = .ok core' := by
  induction dead generalizing core with
  | nil => exact ⟨_, rfl⟩
  | cons key rest ih =>
    obtain ⟨hnotin, hnodup⟩ := List.nodup_cons.mp hnodup
    obtain ⟨core₁, h₁, hl₁, _, hknown₁⟩ := removeStage_located hl hnotin hknown
    obtain ⟨core', h⟩ := ih hl₁ hnodup hknown₁
    exact ⟨core', by simp only [removeStages, h₁, Fault.ok_bind, h]⟩

theorem removeDead_total {entries : List (Σ _ : String, ℚ)} (sessionsToDelete : List String)
    (hl : core.registry.Located) (hnodup : (deadKeys entries).Nodup)
    (hknown : ∀ key ∈ deadKeys entries, key ∈ core.stageInfoDetailed)
    (hstages : ∀ key ∈ deadKeys entries, key ∈ core.stagesOf address) :
    ∃ s, removeDead address entries core sessionsToDelete = .ok s := by
  induction entries generalizing core sessionsToDelete with
  | nil => exact ⟨_, rfl⟩
  | cons e rest ih =>
    obtain ⟨key, rate⟩ := e
    by_cases hrate : rate = -1
    · have hdead : deadKeys (⟨key, rate⟩ :: rest) = key :: deadKeys rest := by simp [deadKeys, hrate]
      rw [hdead] at hnodup hknown hstages
      obtain ⟨hnotin, hnodup⟩ := List.nodup_cons.mp hnodup
      obtain ⟨core₁, h₁, hl₁, hsame, hknown₁⟩ := removeStage_located hl hnotin hknown
      have hsame' : core₁.stagesOf address = core.stagesOf address := by rw [stagesOf, stagesOf, hsame]
      have hkey : key ∈ core₁.stagesOf address := hsame' ▸ hstages key List.mem_cons_self
      cases hls : core₁.localToStages.lookup address with
      | none => simp [stagesOf, hls] at hkey
      | some stages =>
        have hkept : ∀ k ∈ deadKeys rest, k ∈ (core₁.stagesOf address).filter (· ≠ key) := by
          intro k hk
          rw [hsame']
          refine List.mem_filter.mpr ⟨hstages k (List.mem_cons_of_mem _ hk), ?_⟩
          simpa using fun he : k = key => hnotin (he ▸ hk)
        have hback := stagesOf_writeBack key hls address
        rw [if_pos rfl] at hback
        simp only [removeDead, hrate, if_true, h₁, Fault.ok_bind, hls]
        split
        case isTrue hnil =>
          rw [if_pos hnil] at hback
          exact ih _ hl₁ hnodup hknown₁ fun k hk => by rw [hback]; exact hkept k hk
        case isFalse hnil =>
          rw [if_neg hnil] at hback
          exact ih _ hl₁ hnodup hknown₁ fun k hk => by rw [hback]; exact hkept k hk
    · have hdead : deadKeys (⟨key, rate⟩ :: rest) = deadKeys rest := by simp [deadKeys, hrate]
      rw [hdead] at hnodup hknown hstages
      simp only [removeDead, if_neg hrate]
      exact ih _ hl hnodup hknown hstages

theorem collectStatisticsResult_total (responseType : ℤ) {rates : Rates} (collection : Collection)
    (hl : core.registry.Located) (hcollects : core.stagesOf address ≠ [])
    (hnodup : (core.deadOf address rates).Nodup)
    (hknown : ∀ key ∈ core.deadOf address rates, key ∈ core.stageInfoDetailed)
    (hstages : ∀ key ∈ core.deadOf address rates, key ∈ core.stagesOf address) :
    ∃ core' collection',
      collectStatisticsResult address (.stats responseType rates) collection core =
      .ok (core', collection') := by
  unfold deadOf at hnodup hknown hstages
  simp only [collectStatisticsResult]
  split
  case isTrue hnil =>
    rw [if_pos hnil] at hnodup hknown
    cases hls : core.localToStages.lookup address with
    | none => simp [stagesOf, hls] at hcollects
    | some stages =>
      have hst : core.stagesOf address = stages := by simp [stagesOf, hls]
      rw [hst] at hnodup hknown
      obtain ⟨core₁, h₁⟩ := removeStages_total hl hnodup hknown
      simp only [h₁, Fault.ok_bind]
      exact ⟨_, _, rfl⟩
  case isFalse hnil =>
    rw [if_neg hnil] at hnodup hknown hstages
    obtain ⟨⟨core₁, del⟩, h₁⟩ := removeDead_total collection.sessionsToDelete
      hl hnodup hknown hstages
    simp only [h₁, Fault.ok_bind]
    exact ⟨_, _, rfl⟩

end CoreControlApplication

namespace FeedbackLoop

open CoreControlApplication

def Process.registry (p : Process) : Registry :=
  match p.point with
  | .markReady info =>
    { p.core.registry with
      infos := fun key => if key = info.key then some info else p.core.registry.infos key }
  | _ => p.core.registry

section Simulation

variable {p q : Process}

inductive Moves (p q : Process) : Prop
  | same (h : q.registry = p.registry)
  | registered (info : StageInfo) (rest : List StageInfo) (hpoint : p.point = .stages)
      (hpending : p.core.pendingDataPlaneSessions > 0) (hqueue : p.core.localToDataQueue = info :: rest)
        (hnext : q.point = .markReady info)
      (h : q.registry = p.registry.register info)
  | purged (address : String) (rest : List String) (collection : Collection)
      (session session' : LocalControllerSession) (rule : String) (responseType : ℤ) (rates : Rates)
      (hpoint : p.point = .collect (address :: rest) collection) (hcollects : p.collects address = true)
      (hsession : p.core.localSessions.lookup address = some session)
      (hresult : session.getResult = some ((rule, .stats responseType rates), session'))
      (h : Registry.Purge address (p.core.deadOf address rates) p.registry q.registry)

theorem registry_eq (hp : ∀ info, p.point ≠ .markReady info) : p.registry = p.core.registry := by
  unfold Process.registry
  split
  case h_1 info h => exact absurd h (hp info)
  case h_2 => rfl

theorem moves_same (hp : ∀ info, p.point ≠ .markReady info) (hq : ∀ info, q.point ≠ .markReady info)
    (hstages : ∀ a, q.core.stagesOf a = p.core.stagesOf a)
    (hinfo : q.core.stageInfoDetailed = p.core.stageInfoDetailed)
    (htracker : q.core.jobLocationTracker = p.core.jobLocationTracker) : Moves p q := by
  refine .same ?_
  rw [registry_eq hp, registry_eq hq]
  refine Registry.ext (funext hstages) ?_ ?_
  · simp only [CoreControlApplication.registry, hinfo]
  · funext job address
    simp only [CoreControlApplication.registry, envsOf, htracker]

theorem Goes.not_markReady {point : Point} (h : Goes p point) (hc : ∀ fault, point ≠ .crashed fault) :
    (∀ info, p.point ≠ .markReady info) ∧ ∀ info, point ≠ .markReady info := by
  cases h <;> simp_all

theorem LoopStep.moves (h : LoopStep p q) : q.Crashed ∨ Moves p q := by
  cases h with
  | goes point h =>
    by_cases hc : ∃ fault, point = .crashed fault
    · obtain ⟨fault, rfl⟩ := hc
      exact .inl ⟨fault, rfl⟩
    · obtain ⟨hp, hq⟩ := h.not_markReady fun fault hf => hc ⟨fault, hf⟩
      exact .inr (moves_same hp hq (fun _ => rfl) rfl rfl)
  | localTaken address rest session hpoint hpending hqueue hsession =>
    exact .inr (moves_same (by simp [hpoint]) (by simp) (stagesOf_emplace p.core address) rfl rfl)
  | handshaken address rule response core hpoint htakes =>
    rw [htakes.tables]
    exact .inr (moves_same (by simp [hpoint]) (by simp) (fun _ => rfl) rfl rfl)
  | stageTaken info rest session hpoint hpending hqueue hsession =>
    refine .inr (.registered info rest hpoint hpending hqueue rfl ?_)
    have hp : p.registry = p.core.registry := registry_eq (by simp [hpoint])
    rw [hp]
    refine Registry.ext ?_ ?_ ?_
    · funext a
      exact registerStage_stagesOf info a
    · funext key
      simp only [Process.registry, CoreControlApplication.registry, registerStage_stageInfoDetailed]
      rfl
    · funext job a
      exact registerStage_envsOf info job a
  | marked info rule response core hpoint htakes =>
    refine .inr (.same ?_)
    rw [registry_eq (by simp), htakes.tables]
    simp only [Process.registry, hpoint]
    refine Registry.ext rfl ?_ rfl
    funext key
    exact Assoc.lookup_insert_eq _ _ _ _
  | control hpoint h =>
    obtain ⟨sessions, hcore, _⟩ := h.tables
    have hq : ∀ info, q.point ≠ .markReady info := fun info => by rcases h.point with h | h <;> simp [h]
    exact .inr (moves_same (by simp [hpoint]) hq (fun a => by rw [hcore]; rfl) (by rw [hcore]) (by rw [hcore]))
  | collectDone collection active point hpoint hgone hactive hnext =>
    refine .inr (moves_same (by simp [hpoint]) (fun info => ?_) (fun _ => rfl) rfl rfl)
    rcases hnext with ⟨rfl, _⟩ | rfl <;> simp
  | collectResult address rule rest collection collection' response core core' hpoint hcollects htakes h =>
    obtain ⟨responseType, rates, rfl, hpurged, hstages, _⟩ := collectStatisticsResult_ok h
    obtain ⟨session, session', hs, hr, rfl⟩ := htakes.exists_session
    refine .inr (.purged address rest collection session session' rule responseType rates hpoint
      hcollects hs hr ?_)
    rw [registry_eq (by simp [hpoint]), registry_eq (by simp)]
    exact hpurged.registry hstages
  | collectFault address rule rest collection response core fault hpoint hcollects htakes h =>
    exact .inl ⟨fault, rfl⟩
  | computed dStats core updated hpoint h =>
    have hf := (computeAndEnforce_computes h).frame
    exact .inr (moves_same (by simp [hpoint]) (by simp) hf.stagesOf hf.stageInfoDetailed
      hf.jobLocationTracker)
  | enforced job address rule rest response core hpoint htakes =>
    rw [htakes.tables]
    exact .inr (moves_same (by simp [hpoint]) (by simp) (fun _ => rfl) rfl rfl)
  | finished hpoint => exact .inr (moves_same (by simp [hpoint]) (by simp) (fun _ => rfl) rfl rfl)

theorem Step.stagesOf_ne_nil {action : Action} (h : Step p action q) (hq : ¬ q.Crashed)
    (hpoint : ∀ todo collection, p.point ≠ .collect todo collection) {address : String}
    (ha : p.core.stagesOf address ≠ []) : q.core.stagesOf address ≠ [] := by
  cases h with
  | loop h =>
    have hp : p.registry.stages = p.core.stagesOf := by unfold Process.registry; split <;> rfl
    have hq' : q.registry.stages = q.core.stagesOf := by unfold Process.registry; split <;> rfl
    rcases h.moves with hc | hm
    · exact absurd hc hq
    · rw [← hq']
      rw [← hp] at ha
      cases hm with
      | same h =>
        rw [h]
        exact ha
      | registered info rest hpoint hpending hqueue hnext h =>
        rw [h]
        simp only [Registry.register]
        split
        · simp
        · exact ha
      | purged a rest collection session session' rule responseType rates hcollect =>
        exact absurd hcollect (hpoint _ _)
  | _ => exact ha

end Simulation

variable {p : Process} {allowed : Process → Action → Prop}

theorem LoopStep.noEmpty {q : Process} (h : LoopStep p q) (hne : NoEmpty p.core) : NoEmpty q.core := by
  cases h.coreStep with
  | still h => exact hne.congr h.jobLocationTracker
  | localTaken address rest session hpoint hqueue h => exact hne.congr h.jobLocationTracker
  | stageTaken info rest hpoint hqueue hsession h => exact (hne.registerStage info).congr h.jobLocationTracker
  | collected address response rest collection collection' core hpoint hcore h =>
    obtain ⟨_, _, _, hpurged, _⟩ := collectStatisticsResult_ok h
    exact hpurged.noEmpty (hne.congr hcore.jobLocationTracker)

theorem noEmpty_reach (h : machine.Reach allowed p) : NoEmpty p.core := by
  refine h.invariant (I := fun p => NoEmpty p.core) ?_ ?_
  · rintro _ ⟨controlType, rules, systemLimit, hash, core, hops, rfl⟩
    obtain ⟨ops, op, rfl⟩ := initializeOps_ok hops
    intro job locations hl
    cases hl
  · intro p q action hne _ hstep
    cases step_cases hstep with
    | loop h => exact h.noEmpty hne
    | _ => exact hne

theorem registry_invariant {I : Registry → Prop} (hempty : I .empty)
    (hregister : ∀ p info rest, allowed p .loop → p.point = .stages →
      p.core.pendingDataPlaneSessions > 0 → p.core.localToDataQueue = info :: rest →
      I p.registry → I (p.registry.register info))
    (hpurge : ∀ p r address rest collection session session' rule responseType rates, allowed p .loop →
      p.point = .collect (address :: rest) collection → p.collects address = true →
      p.core.localSessions.lookup address = some session →
      session.getResult = some ((rule, .stats responseType rates), session') →
      Registry.Purge address (p.core.deadOf address rates) p.registry r → I p.registry → I r)
    (h : machine.Reach allowed p) : p.Crashed ∨ I p.registry := by
  induction h with
  | start h =>
    obtain ⟨controlType, rules, systemLimit, hash, core, hops, rfl⟩ := h
    obtain ⟨ops, op, rfl⟩ := initializeOps_ok hops
    exact .inr hempty
  | @step p q action _ ha hstep ih =>
    have hstep := step_cases hstep
    rcases ih with hc | hI
    · exact .inl (hstep.crashed hc)
    · cases hstep with
      | loop hstep =>
        rcases hstep.moves with hc | hm
        · exact .inl hc
        · cases hm with
          | same h => exact .inr (h ▸ hI)
          | registered info rest hpoint hpending hqueue hnext h =>
            exact .inr (h ▸ hregister p info rest ha hpoint hpending hqueue hI)
          | purged address rest collection session session' rule responseType rates hpoint hcollects
              hsession hresult h =>
            exact .inr (hpurge p _ address rest collection session session' rule responseType rates ha
              hpoint hcollects hsession hresult h hI)
      | _ => exact .inr hI

end FeedbackLoop

end Cheferd
