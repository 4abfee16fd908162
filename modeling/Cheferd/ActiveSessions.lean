import Cheferd.SessionSafety

namespace Cheferd

open Library

namespace CoreControlApplication

variable {core core' : CoreControlApplication}

def Spares (stages : List String) : StageResponse → Prop
  | .ack _ _ | .handshake _ => True
  | .stats _ rates => rates.entries ≠ [] ∧ ∃ key ∈ stages, rates.lookup key ≠ some (-1)

instance (stages : List String) : DecidablePred (Spares stages)
  | .ack _ _ | .handshake _ => inferInstanceAs (Decidable True)
  | .stats _ _ => inferInstanceAs (Decidable (_ ∧ _))

theorem removeDead_spared {address key : String} {entries : List (Σ _ : String, ℚ)}
    {sessionsToDelete sessionsToDelete' : List String} (hkey : key ∈ core.stagesOf address)
    (halive : ∀ e ∈ entries, e.2 = -1 → e.1 ≠ key)
    (h : removeDead address entries core sessionsToDelete = .ok (core', sessionsToDelete')) :
    sessionsToDelete' = sessionsToDelete := by
  induction entries generalizing core sessionsToDelete with
  | nil =>
    cases h
    rfl
  | cons e rest ih =>
    have hrest : ∀ e ∈ rest, e.2 = -1 → e.1 ≠ key := fun e he => halive e (List.mem_cons_of_mem _ he)
    unfold removeDead at h
    split at h
    case isTrue hdead =>
      obtain ⟨core₁, h₁, h⟩ := Fault.bind_eq_ok.mp h
      obtain ⟨_, _, hremoved, _⟩ := removeStage_ok h₁
      split at h
      · cases h
      case h_2 stages hl =>
        have hstages : key ∈ stages := by
          rw [hremoved.localToStages] at hl
          simpa only [stagesOf, hl, Option.getD_some] using hkey
        have hkept : key ∈ stages.filter (· ≠ e.1) :=
          List.mem_filter.mpr ⟨hstages, by simpa using (halive e List.mem_cons_self hdead).symm⟩
        dsimp only at h
        rw [if_neg (List.ne_nil_of_mem hkept)] at h
        refine ih ?_ hrest h
        simpa only [stagesOf, AList.lookup_insert, Option.getD_some] using hkept
    case isFalse => exact ih hkey hrest h

theorem collectStatisticsResult_spared {address : String} {response : StageResponse}
    {collection collection' : Collection} (hspares : Spares (core.stagesOf address) response)
    (h : collectStatisticsResult address response collection core = .ok (core', collection')) :
    collection'.sessionsToDelete = collection.sessionsToDelete := by
  cases response with
  | ack responseType value => cases h
  | handshake responseType => cases h
  | stats responseType rates =>
    obtain ⟨hnonempty, key, hkey, halive⟩ := hspares
    simp only [collectStatisticsResult, if_neg hnonempty] at h
    obtain ⟨⟨core₁, sessionsToDelete⟩, h₁, h⟩ := Fault.bind_eq_ok.mp h
    cases h
    refine removeDead_spared hkey ?_ h₁
    rintro ⟨dead, rate⟩ he rfl rfl
    exact halive (Assoc.lookup_of_mem_entries he)

end CoreControlApplication

namespace FeedbackLoop

open CoreControlApplication

variable {p q : Process}

/-- A local controller's registration is taken from the queue only if no session stands under its address, and
no controller answers that its last stage is dead. -/
def Counting (p : Process) : Action → Prop
  | .loop =>
    (p.point = .locals → p.core.pendingLocalControllerSessions > 0 →
      ∀ address ∈ p.core.localQueue.head?, address ∉ p.core.localSessions) ∧
    ∀ address ∈ p.point.asked, p.collects address = true →
      ∀ session ∈ p.core.localSessions.lookup address, ∀ popped ∈ session.completionQueue.head?,
        Spares (p.core.stagesOf address) popped.2
  | _ => True

instance : ∀ p action, Decidable (Counting p action)
  | _, .loop => inferInstanceAs (Decidable (_ ∧ _))
  | _, .enqueueLocal _ | _, .countLocal _ | _, .enqueueStage _ | _, .countStage | _, .enqueueRule _
  | _, .serve _ _ | _, .rehash _ => inferInstanceAs (Decidable True)

def Point.uncounted : Point → ℤ
  | .localHandshake _ => 1
  | _ => 0

structure Counted (p : Process) : Prop where
  counter : p.core.activeLocalControllerSessions + p.point.uncounted = p.core.localSessions.keys.length
  pendingLocals : 0 ≤ p.core.pendingLocalControllerSessions
  pendingStages : 0 ≤ p.core.pendingDataPlaneSessions
  spared : ∀ todo collection, p.point = .collect todo collection → collection.sessionsToDelete = []

theorem Counted.kept (hp : Counted p)
    (hsessions : ∀ address, address ∈ q.core.localSessions ↔ address ∈ p.core.localSessions)
    (hactive : q.core.activeLocalControllerSessions + q.point.uncounted =
      p.core.activeLocalControllerSessions + p.point.uncounted)
    (hlocals : 0 ≤ q.core.pendingLocalControllerSessions) (hstages : 0 ≤ q.core.pendingDataPlaneSessions)
    (hspared : ∀ todo collection, q.point = .collect todo collection → collection.sessionsToDelete = []) :
    Counted q where
  counter := by rw [hactive, hp.counter, Assoc.length_keys_congr hsessions]
  pendingLocals := hlocals
  pendingStages := hstages
  spared := hspared

theorem Goes.uncounted {point : Point} (h : Goes p point) (hc : ∀ fault, point ≠ .crashed fault)
    (hp : Counted p) :
    point.uncounted = p.point.uncounted ∧
      ∀ todo collection, point = .collect todo collection → collection.sessionsToDelete = [] := by
  cases h with
  | collectSkip address rest collection hpoint h =>
    rw [hpoint]
    refine ⟨rfl, ?_⟩
    rintro _ _ ⟨⟩
    exact hp.spared _ _ hpoint
  | _ => simp_all [Point.uncounted]

theorem Counted.taken {address rule : String} {response : StageResponse} {core : CoreControlApplication}
    (hp : Counted p) (htakes : Takes p address rule response core)
    (hsessions : q.core.localSessions = core.localSessions)
    (hlocals : q.core.pendingLocalControllerSessions = core.pendingLocalControllerSessions)
    (hstages : q.core.pendingDataPlaneSessions = core.pendingDataPlaneSessions)
    (hactive : q.core.activeLocalControllerSessions + q.point.uncounted =
      core.activeLocalControllerSessions + p.point.uncounted)
    (hspared : ∀ todo collection, q.point = .collect todo collection → collection.sessionsToDelete = []) :
    Counted q := by
  rw [htakes.tables] at hlocals hstages hactive
  refine hp.kept (fun a => ?_) hactive ?_ ?_ hspared
  · rw [hsessions]
    exact htakes.mem_localSessions a
  · rw [hlocals]
    exact hp.pendingLocals
  · rw [hstages]
    exact hp.pendingStages

theorem Counted.localTaken {address : String} {session : LocalControllerSession} (hp : Counted p)
    (hpoint : p.point = .locals) (hfresh : address ∉ p.core.localSessions)
    (hsessions : q.core.localSessions = (p.core.localSessions.emplace address .new).insert address session)
    (hactive : q.core.activeLocalControllerSessions = p.core.activeLocalControllerSessions)
    (hlocals : 0 ≤ q.core.pendingLocalControllerSessions)
    (hstages : q.core.pendingDataPlaneSessions = p.core.pendingDataPlaneSessions)
    (hq : q.point = .localHandshake address) : Counted q := by
  have hkeys : (p.core.localSessions.emplace address .new).keys = address :: p.core.localSessions.keys := by
    rw [Assoc.emplace, if_neg hfresh, AList.keys_insert, List.erase_of_not_mem hfresh]
  have hcounter := hp.counter
  rw [hpoint] at hcounter
  dsimp only [Point.uncounted] at hcounter
  constructor
  · rw [hq, hactive, hsessions, AList.keys_insert, hkeys, List.erase_cons_head, List.length_cons]
    dsimp only [Point.uncounted]
    omega
  · exact hlocals
  · rw [hstages]
    exact hp.pendingStages
  · simp [hq]

theorem Counted.control (hp : Counted p) (hpoint : p.point = .control) (h : Controls p q) : Counted q := by
  obtain ⟨sessions, hcore, hmem⟩ := h.tables
  have hcounter := hp.counter
  rw [hpoint, ← Assoc.length_keys_congr hmem] at hcounter
  rcases h.point with hq | hq
  · refine ⟨?_, ?_, ?_, by simp [hq]⟩ <;> simp only [hcore, hq]
    · exact hcounter
    · exact hp.pendingLocals
    · exact hp.pendingStages
  · refine ⟨?_, ?_, ?_, ?_⟩ <;> simp only [hcore, hq]
    · exact hcounter
    · exact hp.pendingLocals
    · exact hp.pendingStages
    · rintro _ _ ⟨⟩
      rfl

theorem Takes.head {address rule : String} {response : StageResponse} {core : CoreControlApplication}
    (h : Takes p address rule response core) :
    ∃ session, p.core.localSessions.lookup address = some session ∧
      session.completionQueue.head? = some (rule, response) := by
  obtain ⟨session, session', hl, hresult, _⟩ := h
  exact ⟨session, hl, by rw [(LocalControllerSession.getResult_eq_some hresult).1]; rfl⟩

theorem LoopStep.counted (h : LoopStep p q) (hcounting : Counting p .loop) (hp : Counted p) :
    q.Crashed ∨ Counted q := by
  have hlocals := hp.pendingLocals
  have hstages := hp.pendingStages
  cases h with
  | goes point h =>
    by_cases hc : ∃ fault, point = .crashed fault
    · exact .inl hc
    · obtain ⟨huncounted, hspared⟩ := h.uncounted (fun fault hf => hc ⟨fault, hf⟩) hp
      exact .inr (hp.kept (fun _ => Iff.rfl) (by simp only [huncounted]) hlocals hstages hspared)
  | localTaken address rest session hpoint hpending hqueue hsession =>
    have hfresh : address ∉ p.core.localSessions := hcounting.1 hpoint hpending address (by rw [hqueue]; rfl)
    exact .inr (hp.localTaken hpoint hfresh rfl rfl (by dsimp only; omega) rfl rfl)
  | handshaken address rule response core hpoint htakes =>
    exact .inr (hp.taken htakes rfl rfl rfl (by simp [hpoint, Point.uncounted]) (by simp))
  | stageTaken info rest session hpoint hpending hqueue hsession =>
    obtain ⟨demands, rates, previousRates, hemplace⟩ := emplaceJob_frame info.stageName { p.core with
      localToDataQueue := rest
      pendingDataPlaneSessions := p.core.pendingDataPlaneSessions - 1 }
    refine .inr (hp.kept (mem_insert_of_lookup hsession _) ?_ ?_ ?_ (by simp))
    · simp [registerStage, hemplace, hpoint, Point.uncounted]
    · simpa [registerStage, hemplace] using hlocals
    · simp only [registerStage, hemplace]
      omega
  | marked info rule response core hpoint htakes =>
    exact .inr (hp.taken htakes rfl rfl rfl (by simp [hpoint, Point.uncounted, stageMarked]) (by simp))
  | control hpoint h => exact .inr (hp.control hpoint h)
  | collectDone collection active point hpoint hgone hactive hnext =>
    rw [hp.spared _ _ hpoint, List.length_nil, Nat.cast_zero, sub_zero] at hactive
    subst hactive
    refine .inr (hp.kept (fun _ => Iff.rfl) ?_ hlocals hstages ?_)
    all_goals rcases hnext with ⟨rfl, _⟩ | rfl <;> simp [hpoint, Point.uncounted]
  | collectResult address rule rest collection collection' response core core' hpoint hcollects htakes h =>
    obtain ⟨_, _, _, hpurged, _⟩ := collectStatisticsResult_ok h
    have hframe := (collectStatisticsResult_forgets h).frame
    obtain ⟨session, hsession, hhead⟩ := htakes.head
    have hspares := hcounting.2 address (by rw [hpoint]; rfl) hcollects session hsession _ hhead
    refine .inr (hp.taken htakes hpurged.localSessions (by rw [hframe]) (by rw [hframe]) ?_ ?_)
    · rw [hframe, hpoint]
      rfl
    · rintro _ _ ⟨⟩
      rw [← hp.spared _ _ hpoint]
      exact collectStatisticsResult_spared (htakes.still.stagesOf address ▸ hspares) h
  | collectFault address rule rest collection response core fault hpoint hcollects htakes h =>
    exact .inl ⟨fault, rfl⟩
  | computed dStats core updated hpoint h =>
    have hframe := (computeAndEnforce_computes h).frame
    refine .inr (hp.kept hframe.localSessions ?_ ?_ ?_ (by simp))
    · simp [hpoint, Point.uncounted, hframe.activeLocalControllerSessions]
    · exact hframe.pendingLocalControllerSessions ▸ hlocals
    · exact hframe.pendingDataPlaneSessions ▸ hstages
  | enforced job address rule rest response core hpoint htakes =>
    exact .inr (hp.taken htakes rfl rfl rfl (by simp [hpoint, Point.uncounted]) (by simp))
  | finished hpoint =>
    exact .inr (hp.kept (fun _ => Iff.rfl) (by simp [hpoint, Point.uncounted]) hlocals hstages (by simp))

theorem Step.counted {action : Action} (h : Step p action q) (hcounting : Counting p action)
    (hp : p.Crashed ∨ Counted p) : q.Crashed ∨ Counted q := by
  rcases hp with hp | hp
  · exact .inl (h.crashed hp)
  have hlocals := hp.pendingLocals
  have hstages := hp.pendingStages
  cases h with
  | countLocal address h =>
    exact .inr (hp.kept (fun _ => Iff.rfl) rfl (by dsimp only; omega) hstages hp.spared)
  | countStage h => exact .inr (hp.kept (fun _ => Iff.rfl) rfl hlocals (by dsimp only; omega) hp.spared)
  | served address reply session session' hsession hserve =>
    exact .inr (hp.kept (mem_insert_of_lookup hsession _) rfl hlocals hstages hp.spared)
  | loop h => exact h.counted hcounting hp
  | _ => exact .inr (hp.kept (fun _ => Iff.rfl) rfl hlocals hstages hp.spared)

theorem counted_reach (h : machine.Reach Counting p) : p.Crashed ∨ Counted p :=
  h.invariant (fun p hp => by
      obtain ⟨controlType, rules, systemLimit, hash, core, hops, rfl⟩ := hp
      obtain ⟨ops, op, rfl⟩ := initializeOps_ok hops
      exact .inr ⟨rfl, le_refl _, le_refl _, nofun⟩)
    fun _ _ _ hp hcounting hstep => (step_cases hstep).counted hcounting hp

theorem erasing_stays {action : Action} (h : p.step action = some q) (hp : p.Erasing) :
    q.Erasing ∧ q.point = p.point := by
  have hstep := step_cases h
  obtain ⟨address, herased, hstands⟩ := id hp
  have hstands := hstep.mem_localSessions address hstands
  cases hstep with
  | loop _ =>
    change p.loop = some q at h
    rw [loop_erasing hp] at h
    cases h
  | _ => exact ⟨⟨address, herased, hstands⟩, rfl⟩

theorem erasing_reach (hp : p.Erasing) (h : (machine.resume p).Reach (fun _ _ => True) q) :
    q.point = p.point := by
  refine (h.invariant (I := fun q => q.Erasing ∧ q.point = p.point) ?_ ?_).2
  · rintro q rfl
    exact ⟨hp, rfl⟩
  · rintro s t action ⟨hs, hpoint⟩ _ hstep
    obtain ⟨ht, hsame⟩ := erasing_stays hstep hs
    exact ⟨ht, hsame.trans hpoint⟩

theorem active_counts_sessions (h : machine.Reach Counting p) :
    ¬ p.Erasing ∧ (p.point = .condition →
      p.core.activeLocalControllerSessions = p.core.localSessions.entries.length ∧
        (p.step .loop = some { p with point := .exited } ↔
          p.core.localSessions.entries = [] ∧ p.core.pendingLocalControllerSessions = 0 ∧
            p.core.pendingDataPlaneSessions = 0)) := by
  have hp := counted_reach h
  constructor
  · rintro ⟨address, herased, _⟩
    unfold Point.erased at herased
    split at herased
    case h_1 collection hpoint =>
      have hp : Counted p := hp.resolve_left (by simp [Process.Crashed, hpoint])
      rw [hp.spared _ _ hpoint] at herased
      cases herased
    case h_2 => cases herased
  · intro hpoint
    have hp : Counted p := hp.resolve_left (by simp [Process.Crashed, hpoint])
    have hcounter := hp.counter
    have hlocals := hp.pendingLocals
    have hstages := hp.pendingStages
    have hlength : p.core.localSessions.keys.length = p.core.localSessions.entries.length := by
      rw [AList.keys, List.keys, List.length_map]
    rw [hpoint, hlength] at hcounter
    simp only [Point.uncounted, add_zero] at hcounter
    refine ⟨hcounter, ?_⟩
    rw [← List.length_eq_zero_iff]
    simp only [Process.step, Process.loop, hpoint]
    split
    case isTrue hpos =>
      simp only [Option.some.injEq, Process.mk.injEq, true_and, and_true, reduceCtorEq, false_iff]
      omega
    case isFalse hpos =>
      simp only [true_iff]
      omega

def oneStageAsked : List Action :=
  firstController ++ [.loop, .enqueueStage ⟨"j", 1, "u", "A"⟩, .countStage, .loop, .serve "A" ⟨1, ∅⟩, .loop,
    .loop, .loop]

theorem active_counts_sessions_one_controller :
    ∃ p, machine.Reach Counting p ∧ p.point = .condition ∧ p.core.activeLocalControllerSessions = 1 ∧
      p.core.activeLocalControllerSessions = p.core.localSessions.entries.length ∧ ¬ p.Erasing := by
  obtain ⟨p, hp, hpoint, hactive⟩ : ∃ p, machine.Reach Counting p ∧ p.point = .condition ∧
      p.core.activeLocalControllerSessions = 1 :=
    reach_of_run .static 100
      (oneStageAsked ++ [.serve "A" ⟨0, (∅ : Rates).insert "j+1" 5⟩, .loop, .loop, .loop, .loop, .loop])
        (by decide)
  obtain ⟨hfree, hcounts⟩ := active_counts_sessions hp
  exact ⟨p, hp, hpoint, hactive, (hcounts hpoint).1, hfree⟩

/-- A local controller that restarts is counted twice. Once the last stage of the only controller is
reported dead, the loop stays in the erase of its session and never tests its condition again. -/
theorem active_counts_restarted_erased :
    (∃ p, machine.Reach (fun _ _ => True) p ∧ p.point = .condition ∧
      p.core.localSessions.entries.length = 1 ∧ p.core.activeLocalControllerSessions = 2) ∧
    ∃ p, machine.Reach (fun _ _ => True) p ∧ p.core.localSessions.keys = ["A"] ∧ p.point.erased = ["A"] ∧
      p.core.pendingLocalControllerSessions = 0 ∧ p.core.pendingDataPlaneSessions = 0 ∧
      ∀ q, (machine.resume p).Reach (fun _ _ => True) q → q.point ≠ .condition ∧ q.point ≠ .exited := by
  constructor
  · exact reach_of_run .static 100
      (firstController ++ [.enqueueLocal "A", .countLocal "A", .loop, .serve "A" ⟨1, ∅⟩, .loop, .loop,
        .loop, .loop, .loop, .loop, .loop, .loop, .loop]) (by decide)
  · obtain ⟨p, hp, hkeys, herased, hlocals, hstages, herasing⟩ : ∃ p, machine.Reach (fun _ _ => True) p ∧
        p.core.localSessions.keys = ["A"] ∧ p.point.erased = ["A"] ∧ p.core.pendingLocalControllerSessions = 0 ∧
        p.core.pendingDataPlaneSessions = 0 ∧ p.Erasing :=
      reach_of_run .static 100
        (oneStageAsked ++ [.serve "A" ⟨0, (∅ : Rates).insert "j+1" (-1)⟩, .loop]) (by decide)
    refine ⟨p, hp, hkeys, herased, hlocals, hstages, fun q hq => ?_⟩
    rw [erasing_reach herasing hq]
    constructor <;> intro hpoint <;> simp [hpoint, Point.erased] at herased

end FeedbackLoop

end Cheferd
