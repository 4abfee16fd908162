import Cheferd.LoopSteps

namespace Cheferd

open Library

namespace CoreControlApplication

structure Untouched (core core' : CoreControlApplication) : Prop where
  jobLocationTracker : ∀ job, core'.jobLocationTracker.lookup job = core.jobLocationTracker.lookup job
  localToStages : ∀ address, core'.localToStages.lookup address = core.localToStages.lookup address
  stageInfoDetailed : ∀ key, core'.stageInfoDetailed.lookup key = core.stageInfoDetailed.lookup key
  jobDemands : ∀ job, core'.jobDemands.lookup job = core.jobDemands.lookup job
  jobRates : ∀ job, core'.jobRates.lookup job = core.jobRates.lookup job
  jobPreviousRates : ∀ job, core'.jobPreviousRates.lookup job = core.jobPreviousRates.lookup job

theorem totalStages_insert (address : String) (envs : List ℤ) (locations : Locations) :
    totalStages (locations.insert address envs) =
      totalStages locations - ((locations.lookup address).getD []).length + envs.length := by
  have hinsert : totalStages (locations.insert address envs) =
      envs.length + totalStages (locations.erase address) := by
    simp only [totalStages, AList.entries_insert, List.map_cons, List.sum_cons]
    rfl
  have herase : totalStages locations =
      ((locations.lookup address).getD []).length + totalStages (locations.erase address) := by
    by_cases hm : address ∈ locations
    · obtain ⟨old, before, after, -, hentries, hkept⟩ := List.exists_of_kerase (AList.mem_keys.mp hm)
      have hold : locations.lookup address = some old := Assoc.lookup_of_mem_entries (by rw [hentries]; simp)
      have hkept : (locations.erase address).entries = before ++ after := hkept
      rw [hold, Option.getD_some, totalStages, totalStages, hkept, hentries]
      simp only [List.map_append, List.map_cons, List.sum_append, List.sum_cons]
      omega
    · have hnone : locations.lookup address = none := AList.lookup_eq_none.mpr hm
      have hkept : locations.erase address = locations := AList.ext (List.kerase_of_notMem_keys hm)
      rw [hnone, hkept]
      simp
  omega

def stagesDividing (core : CoreControlApplication) (job : String) : ℤ :=
  totalStages ((core.jobLocationTracker.lookup job).getD ∅)

theorem Untouched.stagesDividing {core core' : CoreControlApplication} (h : Untouched core core')
    (job : String) :
    core'.stagesDividing job = core.stagesDividing job := by
  rw [CoreControlApplication.stagesDividing, h.jobLocationTracker, CoreControlApplication.stagesDividing]

theorem stagesDividing_trackStage {info : StageInfo} {core core' : CoreControlApplication}
    (h : core'.jobLocationTracker = trackStage info core.jobLocationTracker) :
    core'.stagesDividing info.stageName = core.stagesDividing info.stageName + 1 := by
  simp only [stagesDividing, h, trackStage, Assoc.lookup_insertSorted, if_true, Option.getD_some,
    totalStages_insert, List.length_append, List.length_singleton]
  omega

end CoreControlApplication

namespace FeedbackLoop

open CoreControlApplication

variable {p q r : Process}

def Others (_ : Process) : Action → Prop
  | .loop => False
  | _ => True

instance : ∀ p action, Decidable (Others p action)
  | _, .loop => inferInstanceAs (Decidable False)
  | _, .enqueueLocal _ | _, .countLocal _ | _, .enqueueStage _ | _, .countStage
  | _, .enqueueRule _ | _, .serve _ _
  | _, .rehash _ => inferInstanceAs (Decidable True)

structure Idles (p q : Process) : Prop where
  point : q.point = p.point
  jobLocationTracker : q.core.jobLocationTracker = p.core.jobLocationTracker
  activeDataPlaneSessions : q.core.activeDataPlaneSessions = p.core.activeDataPlaneSessions

theorem Step.idles {action : Action} (h : Step p action q) (hothers : Others p action) : Idles p q := by
  cases h with
  | loop h => exact hothers.elim
  | _ => exact ⟨rfl, rfl, rfl⟩

theorem idles_reach (h : (machine.resume p).Reach Others q) : Idles p q := by
  refine h.invariant (I := fun q => Idles p q) ?_ ?_
  · rintro q rfl
    exact ⟨rfl, rfl, rfl⟩
  · intro q r action hq hothers hstep
    obtain ⟨hpoint, htracker, hactive⟩ := (step_cases hstep).idles hothers
    exact ⟨hpoint.trans hq.point, htracker.trans hq.jobLocationTracker,
      hactive.trans hq.activeDataPlaneSessions⟩

theorem step_registers {info : StageInfo} (hpoint : p.point = .stages) (hstep : p.step .loop = some q)
    (hmarking : q.point = .markReady info) :
    q.core.jobLocationTracker = trackStage info p.core.jobLocationTracker ∧
      q.core.activeDataPlaneSessions = p.core.activeDataPlaneSessions := by
  cases loop_cases hstep with
  | stageTaken taken rest session _ hpending hqueue hsession =>
    cases hmarking
    obtain ⟨demands, rates, previousRates, hjob⟩ := emplaceJob_frame info.stageName { p.core with
      localToDataQueue := rest
      pendingDataPlaneSessions := p.core.pendingDataPlaneSessions - 1 }
    refine ⟨rfl, ?_⟩
    simp only [registerStage, hjob]
  | goes point h => cases h <;> cases hmarking
  | control h => rw [hpoint] at h; cases h
  | collectDone collection active point hcollect hgone hactive hnext =>
    rw [hpoint] at hcollect
    cases hcollect
  | _ => cases hmarking

theorem step_marked {info : StageInfo} {rule : String} {response : StageResponse}
    {core : CoreControlApplication}
    (hpoint : p.point = .markReady info) (htakes : Takes p info.localAddress rule response core) :
    p.step .loop = some { p with core := stageMarked info response core, point := .stages } := by
  obtain ⟨session, session', hsession, hresult, rfl⟩ := htakes.exists_session
  simp only [Process.step, Process.loop, hpoint, Process.await, hsession, hresult]

theorem failed_registration_stays {info : StageInfo} {rule : String} {response : StageResponse}
    {core : CoreControlApplication} (hpoint : p.point = .stages) (hregister : p.step .loop = some q)
    (hmarking : q.point = .markReady info) (hothers : (machine.resume q).Reach Others r)
    (htakes : Takes r info.localAddress rule response core) (hfailed : ∀ type, response ≠ .ack type 1) :
    ∃ t, r.step .loop = some t ∧ t.point = .stages ∧
      t.core.activeDataPlaneSessions = p.core.activeDataPlaneSessions ∧ ¬ Untouched p.core t.core ∧
      t.core.stagesDividing info.stageName = p.core.stagesDividing info.stageName + 1 := by
  obtain ⟨hregistered, hactive⟩ := step_registers hpoint hregister hmarking
  have hidles := idles_reach hothers
  have htracker : core.jobLocationTracker = r.core.jobLocationTracker := by rw [htakes.tables]
  have hcounter : core.activeDataPlaneSessions = r.core.activeDataPlaneSessions := by rw [htakes.tables]
  have hdividing : (stageMarked info response core).stagesDividing info.stageName =
      p.core.stagesDividing info.stageName + 1 := by
    apply stagesDividing_trackStage
    exact htracker.trans (hidles.jobLocationTracker.trans hregistered)
  refine ⟨_, step_marked (hidles.point.trans hmarking) htakes, rfl, ?_, ?_, hdividing⟩
  · simp only [stageMarked, hcounter, hidles.activeDataPlaneSessions, hactive]
    cases response with
    | ack type value =>
      have hvalue : value ≠ 1 := by
        rintro rfl
        exact hfailed type rfl
      simp [hvalue]
    | handshake type => simp
    | stats type rates => simp
  · intro huntouched
    have hsame : (stageMarked info response core).stagesDividing info.stageName =
        p.core.stagesDividing info.stageName := huntouched.stagesDividing info.stageName
    omega

def failing : List Action :=
  [.enqueueLocal "A", .countLocal "A", .loop, .loop, .loop, .serve "A" ⟨1, ∅⟩, .loop, .loop,
    .enqueueStage ⟨"j", 1, "u", "A"⟩, .countStage]

def answerAt (p : Process) (address : String) : Option (String × StageResponse) :=
  (p.core.localSessions.lookup address).bind fun session => session.getResult.map Prod.fst

theorem takes_of_answerAt {address rule : String} {response : StageResponse}
    (h : answerAt p address = some (rule, response)) : ∃ core, Takes p address rule response core := by
  obtain ⟨session, hsession, h⟩ := Option.bind_eq_some_iff.mp h
  obtain ⟨⟨result, session'⟩, hresult, rfl⟩ := Option.map_eq_some_iff.mp h
  exact ⟨_, ⟨session, session', hsession, hresult, rfl⟩⟩

theorem failed_registration_stays_first :
    ∃ p q r t, machine.Reach (fun _ _ => True) p ∧ p.step .loop = some q ∧ (machine.resume q).Reach Others r ∧
      r.step .loop = some t ∧ t.core.activeDataPlaneSessions = p.core.activeDataPlaneSessions ∧
      ¬ Untouched p.core t.core ∧ t.core.stagesDividing "j" = p.core.stagesDividing "j" + 1 := by
  have hrun : (run .static 100 (fun _ _ => True) failing).any (fun p => decide (p.point = .stages ∧
      (p.step .loop).any (fun q => decide (q.point = .markReady ⟨"j", 1, "u", "A"⟩ ∧
        ((machine.resume q).exec Others q [.serve "A" .failed]).any (fun r =>
          decide (answerAt r "A" = some ("1|j+1|", .ack 1 0))) = true)) = true)) = true := by
    decide +kernel
  obtain ⟨p, hp, hpoint, hnext⟩ := reach_of_run .static 100 failing hrun
  obtain ⟨q, hq, hmarking, hnext⟩ := Machine.exists_of_any hnext
  obtain ⟨r, hr, hanswer⟩ := Machine.exists_of_any hnext
  obtain ⟨core, htakes⟩ := takes_of_answerAt hanswer
  have hothers : (machine.resume q).Reach Others r := (Machine.Reach.start rfl).exec hr
  obtain ⟨t, ht, -, hactive, huntouched, hdividing⟩ :=
    failed_registration_stays hpoint hq hmarking hothers htakes (by simp)
  exact ⟨p, q, r, t, hp, hq, hothers, ht, hactive, huntouched, hdividing⟩

theorem failed_registration_leaves_job :
    ∃ p t, machine.Reach (fun _ _ => True) p ∧ p.point = .stages ∧
      machine.exec (fun _ _ => True) p [.loop, .serve "A" .failed, .loop] = some t ∧ t.point = .stages ∧
      t.core.activeDataPlaneSessions = 0 ∧ p.core.jobLocationTracker.lookup "j" = none ∧
      t.core.stagesDividing "j" = 1 ∧ ¬ Untouched p.core t.core := by
  have hrun : (run .static 100 (fun _ _ => True) failing).any (fun p => decide (p.point = .stages ∧
      p.core.jobLocationTracker.lookup "j" = none ∧
      (machine.exec (fun _ _ => True) p [.loop, .serve "A" .failed, .loop]).any
      (fun t => decide (t.point = .stages ∧
        t.core.activeDataPlaneSessions = 0 ∧ t.core.stagesDividing "j" = 1)) = true)) = true := by
    decide +kernel
  obtain ⟨p, hp, hpoint, hnone, hnext⟩ := reach_of_run .static 100 failing hrun
  obtain ⟨t, ht, htpoint, hactive, hdividing⟩ := Machine.exists_of_any hnext
  refine ⟨p, t, hp, hpoint, ht, htpoint, hactive, hnone, hdividing, fun huntouched => ?_⟩
  have hsame := huntouched.stagesDividing "j"
  rw [hdividing, stagesDividing, hnone] at hsame
  cases hsame

end FeedbackLoop

end Cheferd
