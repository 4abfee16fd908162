import Cheferd.JobTables
import Cheferd.ResponsePairing
import Mathlib.Algebra.Order.BigOperators.Group.List

namespace Cheferd

open Library

namespace CoreControlApplication

variable {core core' core₁ : CoreControlApplication}

section Events

def recent (history : List Event) : List Event := history.takeWhile (· ≠ .computed)

def TouchedSince (history : List Event) (job : String) : Prop :=
  ∃ event ∈ recent history, event.job = some job ∧ event.sends = false

instance (history : List Event) (job : String) : Decidable (TouchedSince history job) :=
  inferInstanceAs (Decidable (∃ event ∈ recent history, _))

def Quiet (history : List Event) : Prop := ∀ event ∈ recent history, event.sends = false

theorem Quiet.append {history history' : List Event} (h : Quiet history')
    (hnew : ∀ event ∈ history, event.sends = false) : Quiet (history ++ history') := by
  induction history with
  | nil => exact h
  | cons event history ih =>
    rw [Quiet, List.cons_append, recent, List.takeWhile_cons]
    split
    · rintro e he
      rcases List.mem_cons.mp he with rfl | he
      · exact hnew e List.mem_cons_self
      · exact ih (fun e he => hnew e (List.mem_cons_of_mem _ he)) e he
    · simp

theorem Quiet.touched {history : List Event} {job : String} (h : Quiet history)
    (ht : TouchedSince history job) :
    Touched history job := by
  obtain ⟨event, he, hjob, _⟩ := ht
  have hsplit : recent history ++ history.dropWhile (· ≠ .computed) = history := List.takeWhile_append_dropWhile
  rw [← hsplit]
  rcases touched_or_newest h job with htouched | ⟨hnone, _⟩
  · exact htouched
  · exact absurd hjob (hnone event he)

end Events

section Passes

theorem enforceLeftover_newest {operation : String} {kept : List String} {perc : ℚ}
    {app : Σ _ : String, Locations} {s t : Enforcement}
    (h : enforceLeftover operation kept perc s app = .ok t) :
    (app.1 ∉ kept → (newest app.1 t.1.history).any Event.sends = true) ∧
      ∀ job ≠ app.1, newest job t.1.history = newest job s.1.history := by
  unfold enforceLeftover at h
  split at h
  case isTrue hkept =>
    cases h
    exact ⟨fun hn => absurd hkept hn, fun _ _ => rfl⟩
  case isFalse =>
    obtain ⟨hsent, _⟩ := sendEnforcementRule_ok h
    rw [hsent.history]
    refine ⟨fun _ => ?_, fun job hj => newest_cons_ne fun he => hj (Option.some.inj he).symm⟩
    rw [newest_cons_self rfl]
    rfl

theorem totalStages_ne_zero (hne : NoEmpty core) {job : String} {locations : Locations}
    (hl : core.jobLocationTracker.lookup job = some locations) : totalStages locations ≠ 0 := by
  obtain ⟨hentries, henvs⟩ := hne job locations hl
  obtain ⟨e, he⟩ := List.exists_mem_of_ne_nil _ hentries
  have hpos : 0 < e.2.length :=
    List.length_pos_iff.mpr (henvs e.1 e.2 (Assoc.lookup_of_mem_entries he))
  have hle : (e.2.length : ℤ) ≤ totalStages locations := by
    refine List.single_le_sum (fun x hx => ?_) _ (List.mem_map_of_mem he)
    obtain ⟨e, _, rfl⟩ := List.mem_map.mp hx
    exact Int.natCast_nonneg _
  omega

theorem enforceLeftover_total {operation : String} {kept : List String} {perc : ℚ}
    {app : Σ _ : String, Locations} (s : Enforcement) (htotal : totalStages app.2 ≠ 0)
    (hosted : ∀ address ∈ app.2, address ∈ s.1.localSessions) :
    ∃ t, enforceLeftover operation kept perc s app = .ok t := by
  unfold enforceLeftover
  split
  · exact ⟨s, rfl⟩
  · exact sendEnforcementRule_total htotal hosted

theorem computeAndEnforceDynamicLeftoverRules_total {dStats : Assoc String Rates} {sessionsSent : List String}
    {operation : String} (h₁ : updateJobDemands core = .ok (operation, core₁)) (hne : NoEmpty core)
    (hosted : ∀ app ∈ core.jobLocationTracker.entries, ∀ address ∈ app.2,
      address ∈ core.localSessions ∧ (address ∈ sessionsSent → address ∈ dStats)) :
    ∃ s, computeAndEnforceDynamicLeftoverRules dStats sessionsSent core = .ok s := by
  have hframe := (updateJobDemands_prepared h₁).1.frame
  simp only [computeAndEnforceDynamicLeftoverRules, h₁, Fault.ok_bind]
  split
  · exact ⟨_, rfl⟩
  · cases h₂ : assignUsage dStats sessionsSent core₁.jobLocationTracker.entries core₁.jobs.length core₁
      ⟨[], 0, unsigned core₁.maximumLimit⟩ with
    | error e =>
      obtain ⟨_, app, happ, address, ha, hsent, hmissing⟩ := assignUsage_error h₂
      rw [hframe.jobLocationTracker] at happ
      exact absurd ((hosted app happ address ha).2 hsent) hmissing
    | ok assigned =>
      obtain ⟨core₂, usage⟩ := assigned
      have hframe₂ := (hframe.trans (assignUsage_prepared h₂).frame).trans
        (distributeLeftover_prepared usage).frame
      refine Lists.foldlM_total
        (I := fun s => ∀ address, address ∈ s.1.localSessions ↔ address ∈ core.localSessions)
        (fun s app happ hI => ?_) hframe₂.localSessions
      rw [hframe₂.jobLocationTracker] at happ
      obtain ⟨t, ht⟩ := enforceLeftover_total s
        (totalStages_ne_zero hne (Assoc.lookup_of_mem_entries happ))
        fun address ha => (hI address).mpr (hosted app happ address ha).1
      exact ⟨t, ht, fun address => ((enforceLeftover_turn ht).frame.localSessions address).trans (hI address)⟩

theorem not_maintained {job : String} (systemTotalRate : ℤ)
    (h : core.changeInSystem = true ∨ core.jobPreviousRates.read job = 0) :
    maintained systemTotalRate core job = false := by
  unfold maintained
  rcases h with hflag | hnone
  · simp [hflag]
  · have hle : (core.jobRates.read job : ℚ) ≤ (|core.jobRates.read job| : ℤ) := by exact_mod_cast le_abs_self _
    have hnonneg : (0 : ℚ) ≤ (|core.jobRates.read job| : ℤ) := by exact_mod_cast abs_nonneg _
    dsimp only
    rw [hnone, sub_zero, decide_eq_false_iff_not]
    rintro ⟨_, hsmall | ⟨_, hsmall⟩⟩
    · linarith
    · linarith

theorem computeAndEnforceDynamicLeftoverRules_touches {dStats : Assoc String Rates} {sessionsSent : List String}
    {updated : List String}
    (h : computeAndEnforceDynamicLeftoverRules dStats sessionsSent core = .ok (core', updated))
    {job : String} (hjob : job ∈ core.jobLocationTracker)
    (hnotify : core.changeInSystem = true ∨ core.jobPreviousRates.read job = 0) :
    ¬ Touched core'.history job := by
  obtain ⟨⟨operation, core₁⟩, h₁, h⟩ := Fault.bind_eq_ok.mp h
  have hprepared := (updateJobDemands_prepared h₁).1
  have hjob₁ : job ∈ core₁.jobs := by
    rw [jobs, hprepared.frame.jobLocationTracker]
    exact AList.mem_keys.mp hjob
  dsimp only at h
  rw [if_neg (List.ne_nil_of_mem hjob₁)] at h
  obtain ⟨⟨core₂, usage⟩, h₂, h⟩ := Fault.bind_eq_ok.mp h
  have hprepared₃ := (hprepared.trans (assignUsage_prepared h₂)).trans (distributeLeftover_prepared usage)
  dsimp only at h
  generalize distributeLeftover usage core₂ = core₃ at h hprepared₃
  have hnotify₃ : core₃.changeInSystem = true ∨ core₃.jobPreviousRates.read job = 0 := by
    obtain ⟨_, _, _, _, _, rfl, hflag⟩ := hprepared₃
    exact hnotify.imp_left hflag
  have hkept : job ∉ core₃.jobs.filter (maintained usage.systemTotalRate core₃) := by
    intro hm
    have hmaintained := (List.mem_filter.mp hm).2
    rw [not_maintained _ hnotify₃] at hmaintained
    cases hmaintained
  obtain ⟨app, happ, rfl⟩ := List.mem_map.mp (show job ∈ core₃.jobs by
    rw [jobs, hprepared₃.frame.jobLocationTracker]
    exact AList.mem_keys.mp hjob)
  generalize core₃.jobs.filter (maintained usage.systemTotalRate core₃) = kept at h hkept
  obtain ⟨hsent, _⟩ := Lists.foldlM_pointwise Sigma.fst (fun job s => newest job s.1.history)
    (R := fun app _ after => app.1 ∉ kept → after.any Event.sends = true)
    (fun _ _ _ => enforceLeftover_newest) core₃.jobLocationTracker.keys_nodup h
  rw [Touched, hsent app happ hkept]
  decide

end Passes

end CoreControlApplication

namespace FeedbackLoop

open CoreControlApplication

variable {p q : Process}

def Noticed (p : Process) (action : Action) : Prop :=
  KeptApart p action ∧ (action matches .loop → p.point.computing = true →
    (updateJobDemands p.core).isOk = true ∧
      ∀ e ∈ p.core.jobLocationTracker.entries, TouchedSince p.core.history e.1 →
        p.core.changeInSystem = true ∨ p.core.jobPreviousRates.read e.1 = 0)

instance (p : Process) (action : Action) : Decidable (Noticed p action) :=
  inferInstanceAs (Decidable (_ ∧ _))

theorem quiet_reach {allowed : Process → Action → Prop} (h : machine.Reach allowed p) :
    Quiet p.core.history := by
  refine h.invariant (I := fun p => Quiet p.core.history) ?_ ?_
  · rintro _ ⟨_, _, _, _, core, hops, rfl⟩
    obtain ⟨ops, op, rfl⟩ := initializeOps_ok hops
    rintro _ ⟨⟩
  · intro p q action hp _ hstep
    cases (step_cases hstep).tableStep with
    | kept h henforcing hfinish =>
      rw [h.history]
      exact hp
    | registered info hpoint h =>
      have hq : Quiet ([.registered info] ++ p.core.history) := hp.append (by simp [Event.sends])
      rw [h.history]
      exact hq
    | removed todo collection core hpoint hcore h =>
      obtain ⟨infos, hhistory, _⟩ := h.events
      rw [hhistory, hcore.history]
      exact hp.append (by simp [Event.sends])
    | computed dStats core updated haction hpoint h hcore hnext =>
      rw [hcore]
      rintro _ ⟨⟩
    | finished hpoint hcore hnext =>
      rw [hcore]
      exact hp

def Notifies (p q : Process) (job : String) (locations : Locations) : Prop :=
  ∃ rule : EnforcementRule, rule.app = ⟨job, locations⟩ ∧
    rule.limitPerStage = Double.ofInt ((q.core.jobPreviousRates.read job).tdiv (totalStages locations)) ∧
    ∀ address ∈ locations, ∃ before after, p.core.localSessions.lookup address = some before ∧
      q.core.localSessions.lookup address = some after ∧
      rule.request address ∈ after.submissionQueue.drop before.submissionQueue.length

theorem notifies_of_requests {core₁ core' : CoreControlApplication} {operation : String}
    {rules : List EnforcementRule} {updated : List String} (hprepared : Prepared p.core core₁)
    (hr : Requests operation p.core.jobLocationTracker.entries rules (core₁, []) (core', updated))
    (hcore : q.core = { core' with history := .computed :: core'.history }) {job : String}
    {locations : Locations}
    (hl : p.core.jobLocationTracker.lookup job = some locations) (hbefore : Touched p.core.history job)
    (hafter : ¬ Touched core'.history job) : Notifies p q job locations := by
  have hhistory₁ : core₁.history = p.core.history := by
    obtain ⟨_, _, _, _, _, rfl, _⟩ := hprepared
    rfl
  have hsessions₁ : core₁.localSessions = p.core.localSessions := by
    obtain ⟨_, _, _, _, _, rfl, _⟩ := hprepared
    rfl
  obtain ⟨rule, hrule, rfl⟩ : ∃ rule ∈ rules, rule.appName = job := by
    by_contra hnone
    refine hafter ?_
    rw [Touched, show core'.history = _ from hr.history, newest_append, hhistory₁]
    · exact hbefore
    · intro event he
      obtain ⟨rule, hrule, rfl⟩ := List.mem_map.mp (List.mem_reverse.mp he)
      exact fun hjob => hnone ⟨rule, hrule, Option.some.inj hjob⟩
  have happ := hr.sublist.subset (List.mem_map_of_mem (f := EnforcementRule.app) hrule)
  have hlocations : rule.localToEnvs = locations := by
    have hl' := Assoc.lookup_of_mem_entries happ
    exact Option.some.inj (hl'.symm.trans hl)
  subst hlocations
  refine ⟨rule, rfl, ?_, fun address ha => ?_⟩
  · rw [hcore]
    exact hr.limits rule hrule
  · obtain ⟨before, hb⟩ := Option.isSome_iff_exists.mp
      (AList.lookup_isSome.mpr (hr.hosted rule hrule address ha))
    have hs := hr.sessions address
    dsimp only at hb hs
    rw [hb, Option.map_some] at hs
    refine ⟨before, _, hsessions₁ ▸ hb, by rw [hcore]; exact hs, ?_⟩
    dsimp only
    rw [List.drop_left]
    exact List.mem_map_of_mem (List.mem_filter.mpr ⟨hrule, by simpa using ha⟩)

def firstRounds : List Action :=
  let iteration : List Action := [.loop, .loop, .loop, .loop, .loop]
  firstStage ++ [.loop, .loop, .loop, .serve "A" ⟨0, AList.singleton "j+1" 5⟩] ++ iteration ++ iteration ++
    iteration ++ [.loop, .loop, .loop, .loop, .loop, .loop]

def secondRounds : List Action :=
  let iteration : List Action := [.loop, .loop, .loop, .loop, .loop]
  let rates : Rates := (AList.singleton "j+1" 5).insert "j+2" 5
  firstRounds ++ [.loop, .serve "A" ⟨1, ∅⟩, .loop, .loop, .loop, .loop, .loop, .enqueueStage ⟨"j", 2, "u", "A"⟩,
    .countStage, .loop, .serve "A" ⟨1, ∅⟩, .loop, .loop, .loop, .loop, .serve "A" ⟨0, rates⟩] ++
    iteration ++ iteration ++ iteration ++ [.loop, .loop, .loop, .loop, .loop, .loop]

end FeedbackLoop

end Cheferd
