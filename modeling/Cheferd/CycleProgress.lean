import Cheferd.Library.Fairness
import Cheferd.ResultCounts
import Mathlib.Data.Prod.Lex
import Mathlib.Tactic.IntervalCases

namespace Cheferd.FeedbackLoop

open Library CoreControlApplication LocalControllerSession

variable {p q : Process}

structure Stocked (p : Process) : Prop where
  locals : (p.core.localQueue.length : ℤ) = p.core.pendingLocalControllerSessions + p.enteringLocals.length
  stages : (p.core.localToDataQueue.length : ℤ) = p.core.pendingDataPlaneSessions + p.enteringStages
  locals_nonneg : 0 ≤ p.core.pendingLocalControllerSessions
  stages_nonneg : 0 ≤ p.core.pendingDataPlaneSessions

theorem Stocked.of_same (hp : Stocked p) (hlocals : q.core.localQueue = p.core.localQueue)
    (hstages : q.core.localToDataQueue = p.core.localToDataQueue)
    (hpendingLocals : q.core.pendingLocalControllerSessions = p.core.pendingLocalControllerSessions)
    (hpendingStages : q.core.pendingDataPlaneSessions = p.core.pendingDataPlaneSessions)
    (henteringLocals : q.enteringLocals = p.enteringLocals)
    (henteringStages : q.enteringStages = p.enteringStages) :
    Stocked q := by
  constructor
  · rw [hlocals, hpendingLocals, henteringLocals]
    exact hp.locals
  · rw [hstages, hpendingStages, henteringStages]
    exact hp.stages
  · rw [hpendingLocals]
    exact hp.locals_nonneg
  · rw [hpendingStages]
    exact hp.stages_nonneg

theorem Stocked.loop (h : LoopStep p q) (hp : Stocked p) : Stocked q := by
  cases h with
  | goes point h => exact hp.of_same rfl rfl rfl rfl rfl rfl
  | localTaken address rest session hpoint hpending hqueue hsession =>
    have hlocals := hp.locals
    rw [hqueue, List.length_cons] at hlocals
    refine ⟨?_, hp.stages, ?_, hp.stages_nonneg⟩
    · dsimp only
      omega
    · dsimp only
      omega
  | stageTaken info rest session hpoint hpending hqueue hsession =>
    obtain ⟨_, _, _, hjob⟩ := emplaceJob_frame info.stageName { p.core with
      localToDataQueue := rest
      pendingDataPlaneSessions := p.core.pendingDataPlaneSessions - 1 }
    have hstages := hp.stages
    rw [hqueue, List.length_cons] at hstages
    simp only [registerStage, hjob]
    refine ⟨hp.locals, ?_, hp.locals_nonneg, ?_⟩
    · dsimp only
      omega
    · dsimp only
      omega
  | handshaken address rule response core hpoint htakes =>
    rw [htakes.tables]
    exact hp.of_same rfl rfl rfl rfl rfl rfl
  | marked info rule response core hpoint htakes =>
    rw [htakes.tables]
    exact hp.of_same rfl rfl rfl rfl rfl rfl
  | control hpoint h =>
    obtain ⟨sessions, hcore, -⟩ := h.tables
    have hentering : q.enteringLocals = p.enteringLocals ∧ q.enteringStages = p.enteringStages := by
      cases h <;> exact ⟨rfl, rfl⟩
    exact hp.of_same (by rw [hcore]) (by rw [hcore]) (by rw [hcore]) (by rw [hcore]) hentering.1 hentering.2
  | collectDone collection active point hpoint hgone hactive hnext => exact hp.of_same rfl rfl rfl rfl rfl rfl
  | collectResult address rule rest collection collection' response core core' hpoint hcollects htakes h =>
    have hframe := (collectStatisticsResult_forgets h).frame
    rw [htakes.tables] at hframe
    exact hp.of_same (congrArg (·.localQueue) hframe) (congrArg (·.localToDataQueue) hframe)
      (congrArg (·.pendingLocalControllerSessions) hframe)
        (congrArg (·.pendingDataPlaneSessions) hframe) rfl rfl
  | collectFault address rule rest collection response core fault hpoint hcollects htakes h =>
    rw [htakes.tables]
    exact hp.of_same rfl rfl rfl rfl rfl rfl
  | computed dStats core updated hpoint h =>
    have hframe := (computeAndEnforce_computes h).frame
    exact hp.of_same hframe.localQueue hframe.localToDataQueue hframe.pendingLocalControllerSessions
      hframe.pendingDataPlaneSessions rfl rfl
  | enforced job address rule rest response core hpoint htakes =>
    rw [htakes.tables]
    exact hp.of_same rfl rfl rfl rfl rfl rfl
  | finished hpoint => exact hp.of_same rfl rfl rfl rfl rfl rfl

theorem Stocked.step {action : Action} (h : Step p action q) (hp : Stocked p) : Stocked q := by
  have ⟨hlocals, hstages, hlocalsNonneg, hstagesNonneg⟩ := hp
  cases h with
  | loop h => exact hp.loop h
  | enqueueLocal address =>
    refine ⟨?_, hstages, hlocalsNonneg, hstagesNonneg⟩
    simp only [List.length_append, List.length_singleton]
    omega
  | countLocal address hmem =>
    have hlength := List.length_erase_add_one hmem
    refine ⟨?_, hstages, ?_, hstagesNonneg⟩ <;> dsimp only <;> omega
  | enqueueStage info =>
    refine ⟨hlocals, ?_, hlocalsNonneg, hstagesNonneg⟩
    simp only [List.length_append, List.length_singleton]
    omega
  | countStage hpos =>
    refine ⟨hlocals, ?_, hlocalsNonneg, ?_⟩ <;> dsimp only <;> omega
  | _ => exact ⟨hlocals, hstages, hlocalsNonneg, hstagesNonneg⟩

theorem stocked_reach {allowed : Process → Action → Prop} (h : machine.Reach allowed p) : Stocked p := by
  refine h.invariant ?_ fun p q action hp _ hstep => hp.step (step_cases hstep)
  rintro _ ⟨controlType, rules, systemLimit, hash, core, hops, rfl⟩
  obtain ⟨ops, op, rfl⟩ := initializeOps_ok hops
  exact ⟨rfl, rfl, le_rfl, le_rfl⟩

namespace Process

def Stopped (p : Process) : Prop := p.point = .exited ∨ p.Crashed ∨ p.Erasing

def rank (p : Process) : ℕ ×ₗ ℕ :=
  match p.point with
  | .waiting => toLex (8, 0)
  | .locals => toLex (7, 2 * p.core.pendingLocalControllerSessions.toNat)
  | .localHandshake _ => toLex (7, 2 * p.core.pendingLocalControllerSessions.toNat + 1)
  | .stages => toLex (6, 2 * p.core.pendingDataPlaneSessions.toNat)
  | .markReady _ => toLex (6, 2 * p.core.pendingDataPlaneSessions.toNat + 1)
  | .control => toLex (5, 0)
  | .collect todo _ => toLex (4, todo.length)
  | .compute _ => toLex (3, 0)
  | .enforce todo => toLex (2, todo.length)
  | .finish => toLex (1, 0)
  | .condition | .exited | .crashed _ => toLex (0, 0)

def Controlling (p : Process) : Prop := (ofLex p.rank).1 ≤ 5

end Process

theorem Goes.rank_lt {point : Point} (h : Goes p point) (hpoint : p.point ≠ .condition) :
    Process.rank { p with point := point } < p.rank := by
  cases h with
  | entered hp | exited hp => exact absurd hp hpoint
  | _ => simp_all [Process.rank, Prod.Lex.toLex_lt_toLex]

theorem Controls.rank_lt (h : Controls p q) (hpoint : p.point = .control) : q.rank < p.rank := by
  cases h <;> simp [Process.rank, hpoint, Prod.Lex.toLex_lt_toLex]

theorem LoopStep.rank_lt (h : LoopStep p q) (hpoint : p.point ≠ .condition) : q.rank < p.rank := by
  cases h with
  | goes point h => exact h.rank_lt hpoint
  | control hcontrol h => exact h.rank_lt hcontrol
  | localTaken address rest session hlocals hpending =>
    have hless : 2 * (p.core.pendingLocalControllerSessions - 1).toNat + 1 <
        2 * p.core.pendingLocalControllerSessions.toNat := by omega
    simpa [Process.rank, hlocals, Prod.Lex.toLex_lt_toLex] using hless
  | stageTaken info rest session hstages hpending =>
    obtain ⟨_, _, _, hjob⟩ := emplaceJob_frame info.stageName { p.core with
      localToDataQueue := rest
      pendingDataPlaneSessions := p.core.pendingDataPlaneSessions - 1 }
    have hless : 2 * (p.core.pendingDataPlaneSessions - 1).toNat + 1 <
        2 * p.core.pendingDataPlaneSessions.toNat := by omega
    simpa [Process.rank, hstages, registerStage, hjob, Prod.Lex.toLex_lt_toLex] using hless
  | handshaken address rule response core hp htakes =>
    rw [htakes.tables]
    simp [Process.rank, hp, Prod.Lex.toLex_lt_toLex]
  | marked info rule response core hp htakes =>
    rw [htakes.tables]
    simp [Process.rank, hp, stageMarked, Prod.Lex.toLex_lt_toLex]
  | collectDone collection active point hp hgone hactive hnext =>
    rcases hnext with ⟨rfl, -⟩ | rfl <;> simp [Process.rank, hp, Prod.Lex.toLex_lt_toLex]
  | collectResult _ _ _ _ _ _ _ _ hp | collectFault _ _ _ _ _ _ _ hp | computed _ _ _ hp
  | enforced _ _ _ _ _ _ hp
  | finished hp => simp [Process.rank, hp, Prod.Lex.toLex_lt_toLex]

def Registers : Action → Prop
  | .countLocal _ | .countStage => True
  | _ => False

theorem Step.rank_eq {action : Action} (h : Step p action q) (hloop : action ≠ .loop)
    (hquiet : Registers action → p.Controlling) : q.rank = p.rank := by
  cases h with
  | loop h => exact absurd rfl hloop
  | countLocal | countStage =>
    have hcontrols := hquiet trivial
    unfold Process.Controlling at hcontrols
    unfold Process.rank at hcontrols ⊢
    dsimp only at hcontrols ⊢
    cases hpoint : p.point <;> simp_all
  | _ => rfl

def Process.awaited (p : Process) : Option String := p.awaits.map Prod.fst

inductive Blocked (p : Process) : Prop
  | stopped (h : p.Stopped)
  | waiting (hpoint : p.point = .waiting) (h : p.core.pendingLocalControllerSessions = 0)
  | result (address : String) (session : LocalControllerSession) (hawaited : p.awaited = some address)
      (hsession : p.core.localSessions.lookup address = some session) (hempty : session.completionQueue = [])

theorem await_eq_none {missing : Fault} {address : String}
    {next : CoreControlApplication → StageResponse → Process}
    (h : p.await missing address next = none) :
    ∃ session, p.core.localSessions.lookup address = some session ∧ session.completionQueue = [] := by
  unfold Process.await at h
  split at h
  · cases h
  case h_2 session hsession =>
    split at h
    case h_1 hresult =>
      refine ⟨session, hsession, ?_⟩
      unfold getResult at hresult
      split at hresult
      case h_1 hempty => exact hempty
      case h_2 => cases hresult
    case h_2 => cases h

theorem blocked_of_await {missing : Fault} {address : String}
    {next : CoreControlApplication → StageResponse → Process} (h : p.await missing address next = none)
    (hawaited : p.awaited = some address) : Blocked p := by
  obtain ⟨session, hsession, hempty⟩ := await_eq_none h
  exact .result address session hawaited hsession hempty

theorem loop_eq_none (hp : Stocked p) (h : p.loop = none) : Blocked p := by
  unfold Process.loop at h
  cases hpoint : p.point with
  | waiting =>
    simp only [hpoint] at h
    split at h
    case isTrue hpending => exact .waiting hpoint hpending
    case isFalse => cases h
  | locals =>
    simp only [hpoint] at h
    split at h
    case isTrue hpending =>
      split at h
      case h_1 hqueue =>
        have hlocals := hp.locals
        rw [hqueue, List.length_nil] at hlocals
        omega
      case h_2 => cases h
    case isFalse => cases h
  | stages =>
    simp only [hpoint] at h
    split at h
    case isTrue hpending =>
      split at h
      case h_1 hqueue =>
        have hstages := hp.stages
        rw [hqueue, List.length_nil] at hstages
        omega
      case h_2 => cases h
    case isFalse => cases h
  | condition =>
    simp only [hpoint] at h
    split at h <;> cases h
  | localHandshake address =>
    simp only [hpoint] at h
    exact blocked_of_await h (by simp only [Process.awaited, Process.awaits, hpoint, Option.map_some])
  | markReady info =>
    simp only [hpoint] at h
    exact blocked_of_await h (by simp only [Process.awaited, Process.awaits, hpoint, Option.map_some])
  | control | compute _ | finish =>
    simp only [hpoint] at h
    cases h
  | collect todo collection =>
    simp only [hpoint] at h
    cases todo with
    | nil =>
      obtain ⟨address, hdelete, hstands⟩ := eraseSessions_eq_none.mp (Option.map_eq_none_iff.mp h)
      exact .stopped (.inr (.inr ⟨address, by rw [hpoint]; exact hdelete, hstands⟩))
    | cons address rest =>
      simp only [Process.collect] at h
      split at h
      case isTrue hcollects =>
        exact blocked_of_await h
          (by simp only [Process.awaited, Process.awaits, hpoint, hcollects, if_true, Option.map_some])
      case isFalse => cases h
  | enforce todo =>
    cases todo with
    | nil =>
      simp only [hpoint] at h
      cases h
    | cons e rest =>
      obtain ⟨job, address⟩ := e
      simp only [hpoint] at h
      exact blocked_of_await h (by simp only [Process.awaited, Process.awaits, hpoint, Option.map_some])
  | exited => exact .stopped (.inl hpoint)
  | crashed fault => exact .stopped (.inr (.inl ⟨fault, hpoint⟩))

theorem Step.point_eq {action : Action} (h : Step p action q) (hloop : action ≠ .loop) : q.point = p.point := by
  cases h with
  | loop h => exact absurd rfl hloop
  | _ => rfl

theorem Step.awaited_eq {action : Action} (h : Step p action q) (hloop : action ≠ .loop) :
    q.awaited = p.awaited := by
  cases h with
  | loop h => exact absurd rfl hloop
  | _ => rfl

theorem Step.mem_localSessions_iff {action : Action} (h : Step p action q) (hloop : action ≠ .loop)
    (address : String) : address ∈ q.core.localSessions ↔ address ∈ p.core.localSessions := by
  cases h with
  | loop h => exact absurd rfl hloop
  | served a reply session session' hsession hserve => exact mem_insert_of_lookup hsession _ _
  | _ => exact Iff.rfl

theorem Process.Stopped.awaited (h : p.Stopped) : p.awaited = none := by
  rcases h with hpoint | ⟨fault, hpoint⟩ | ⟨address, herased, _⟩
  · simp [Process.awaited, Process.awaits, hpoint]
  · simp [Process.awaited, Process.awaits, hpoint]
  · unfold Point.erased at herased
    split at herased
    case h_1 collection hpoint => simp [Process.awaited, Process.awaits, hpoint]
    case h_2 => cases herased

theorem Step.blocked {action : Action} (h : Step p action q) (hloop : action ≠ .loop) (hp : Stocked p)
    (hq : Blocked q) : Blocked p := by
  have hpoint := h.point_eq hloop
  have hawaited' := h.awaited_eq hloop
  cases hq with
  | stopped hstopped =>
    simp only [Process.Stopped, Process.Crashed, Process.Erasing, hpoint,
      h.mem_localSessions_iff hloop] at hstopped
    exact .stopped hstopped
  | waiting hwaiting hpending =>
    refine .waiting (hpoint.symm.trans hwaiting) ?_
    have hnonneg := hp.locals_nonneg
    cases h with
    | loop h => exact absurd rfl hloop
    | countLocal address hmem =>
      dsimp only at hpending
      omega
    | _ => exact hpending
  | result address session hawaited hsession hempty =>
    rw [hawaited'] at hawaited
    cases h with
    | loop h => exact absurd rfl hloop
    | served other reply before after hbefore hserve =>
      rw [Assoc.lookup_insert_eq] at hsession
      split at hsession
      case isTrue ha =>
        cases hsession
        refine .result address before hawaited (ha ▸ hbefore) ?_
        unfold serve at hserve
        split at hserve <;> cases hserve
        exact (List.append_eq_nil_iff.mp hempty).1
      case isFalse => exact .result address session hawaited hsession hempty
    | _ => exact .result address session hawaited hsession hempty

theorem Process.due_pos {address : String} (h : p.awaited = some address) : 0 < p.due address := by
  obtain ⟨⟨_, rule, form⟩, hawaits, rfl⟩ := Option.map_eq_some_iff.mp h
  unfold Process.awaits at hawaits
  unfold Process.due
  split at hawaits
  case h_1 a hpoint =>
    cases hawaits
    simp [hpoint]
  case h_2 info hpoint =>
    cases hawaits
    simp [hpoint]
  case h_3 a rest collection hpoint =>
    simp only [Option.ite_none_right_eq_some] at hawaits
    obtain ⟨hcollects, hawaits⟩ := hawaits
    cases hawaits
    simp [hpoint, hcollects]
  case h_4 job a rest hpoint =>
    cases hawaits
    simp [hpoint]
  case h_5 => cases hawaits

theorem Accounted.served_next (hp : Accounted p) {address : String} {session : LocalControllerSession}
    (hawaited : p.awaited = some address) (hsession : p.core.localSessions.lookup address = some session)
    (hempty : session.completionQueue = []) :
    (∀ reply, (session.serve reply).isSome) ∧
      ∀ reply session', session.serve reply = some session' → session'.completionQueue ≠ [] := by
  obtain ⟨⟨hlength, hsupported⟩, -⟩ := hp.holds address session hsession
  have hdue := Process.due_pos hawaited
  rw [← hlength, outstanding, hempty, List.map_nil, List.nil_append] at hdue
  obtain ⟨rule, rest, hqueue⟩ := List.exists_cons_of_length_pos hdue
  have hrule : Supported rule := hsupported rule (by simp [outstanding, hqueue])
  constructor
  · intro reply
    simp [serve, hqueue]
  · intro reply session' hserve
    obtain ⟨response, hresponse⟩ := Option.isSome_iff_exists.mp (hrule reply)
    simp only [serve, hqueue, hresponse, Option.some.injEq] at hserve
    rw [← hserve, hempty]
    simp

theorem Step.unblocked {address : String} {reply : Reply} (h : Step p (.serve address reply) q)
    (hp : Accounted p)
    (hblocked : Blocked p) (hawaited : p.awaited = some address) : ¬ Blocked q := by
  intro hq
  have hpoint := h.point_eq (by simp)
  have hsame := h.awaited_eq (by simp)
  cases h with
  | served _ _ session session' hsession hserve =>
    have hwaits : p.point ≠ .waiting := fun hwaiting => by
      simp [Process.awaited, Process.awaits, hwaiting] at hawaited
    have hempty : session.completionQueue = [] := by
      cases hblocked with
      | stopped hstopped => simp [hstopped.awaited] at hawaited
      | waiting hwaiting => exact absurd hwaiting hwaits
      | result other before hother hbefore hempty =>
        have ha : other = address := Option.some.inj (hother.symm.trans hawaited)
        rw [ha, hsession] at hbefore
        cases hbefore
        exact hempty
    have hne := (hp.served_next hawaited hsession hempty).2 reply session' hserve
    cases hq with
    | stopped hstopped => simp [hstopped.awaited, hawaited] at hsame
    | waiting hwaiting => exact absurd (hpoint.symm.trans hwaiting) hwaits
    | result other after hother hafter hempty' =>
      have ha : other = address := Option.some.inj (hother.symm.trans (hsame.trans hawaited))
      rw [ha, Assoc.lookup_insert_eq, if_pos rfl] at hafter
      cases hafter
      exact hne hempty'

def Runs : Option String → Action → Prop
  | none, action => action = .loop
  | some address, action => ∃ reply, action = .serve address reply

open Classical in
noncomputable def Process.helper (p : Process) : Option String := if Blocked p then p.awaited else none

open Classical in
noncomputable def Process.variant (p : Process) : (ℕ ×ₗ ℕ) ×ₗ ℕ := toLex (p.rank, if Blocked p then 1 else 0)

def Process.Awake (p : Process) : Prop := p.point = .waiting → p.core.pendingLocalControllerSessions ≠ 0

theorem Step.awake {action : Action} (h : Step p action q) (hp : Stocked p) (hawake : p.Awake) : q.Awake := by
  have hnonneg := hp.locals_nonneg
  cases h with
  | loop h =>
    have hpoint : q.point ≠ .waiting := by
      cases h with
      | goes point h => cases h <;> simp
      | control hpoint h => rcases h.point with hq | hq <;> simp [hq]
      | collectDone collection active point hpoint hgone hactive hnext =>
        rcases hnext with ⟨rfl, -⟩ | rfl <;> simp
      | _ => simp
    exact fun hwaiting => absurd hwaiting hpoint
  | countLocal address hmem =>
    intro hwaiting
    dsimp only
    omega
  | _ => exact hawake

theorem Process.Controlling.of_le (h : p.Controlling) (hle : q.rank ≤ p.rank) : q.Controlling :=
  (Prod.Lex.monotone_fst _ _ hle).trans h

def Begins (e : machine.Execution Unaliased) (n : ℕ) : Prop :=
  (e.state n).Stopped ∨ (e.state n).point = .condition ∧ e.event n = some .loop

theorem Blocked.awaited (h : Blocked p) (hawake : p.Awake) (hrunning : ¬ p.Stopped) :
    ∃ address session, p.awaited = some address ∧ p.core.localSessions.lookup address = some session ∧
      session.completionQueue = [] := by
  cases h with
  | stopped h => exact absurd h hrunning
  | waiting hpoint h => exact absurd h (hawake hpoint)
  | result address session hawaited hsession hempty => exact ⟨address, session, hawaited, hsession, hempty⟩

theorem approaches (e : machine.Execution Unaliased) (late : Prop) (start : ℕ)
    (hquiet : ∀ n action, start ≤ n → e.event n = some action → Registers action → late) :
    e.Approaches Runs Process.helper Process.variant (fun p => p.Awake ∧ (late → p.Controlling))
      (Begins e) start := by
  constructor
  · rintro n - ⟨hawake, -⟩ hbegins
    have hrunning : ¬ (e.state n).Stopped := fun h => hbegins (.inl h)
    have haccounted := (accounted_reach (e.reach n)).resolve_left fun h => hrunning (.inr (.inl h))
    by_cases hblocked : Blocked (e.state n)
    · obtain ⟨address, session, hawaited, hsession, hempty⟩ := hblocked.awaited hawake hrunning
      have hserve := (haccounted.served_next hawaited hsession hempty).1 .failed
      obtain ⟨session', hsession'⟩ := Option.isSome_iff_exists.mp hserve
      simp only [Process.helper, if_pos hblocked, hawaited]
      refine ⟨.serve address .failed, ⟨.failed, rfl⟩, ?_⟩
      simp only [machine, Process.step, hsession, hsession', Option.map_some, Option.isSome_some]
    · simp only [Process.helper, if_neg hblocked]
      refine ⟨.loop, rfl, Option.isSome_iff_ne_none.mpr fun hloop => ?_⟩
      exact hblocked (loop_eq_none (stocked_reach (e.reach n)) hloop)
  · rintro n action hn ⟨hawake, hlate⟩ hbegins hevent
    obtain ⟨hallowed, hstep⟩ := e.moves n action hevent
    have h := step_cases hstep
    have hstocked := stocked_reach (e.reach n)
    have hawake' := h.awake hstocked hawake
    right
    by_cases hloop : action = .loop
    · subst hloop
      have hpoint : (e.state n).point ≠ .condition := fun hpoint => hbegins (.inr ⟨hpoint, hevent⟩)
      have hless : (e.state (n + 1)).rank < (e.state n).rank := by
        cases h with
        | loop h => exact h.rank_lt hpoint
      exact ⟨⟨hawake', fun h => (hlate h).of_le hless.le⟩, .inl (Prod.Lex.toLex_lt_toLex.mpr (.inl hless))⟩
    · have hrank := h.rank_eq hloop fun hregisters => hlate (hquiet n action hn hevent hregisters)
      refine ⟨⟨hawake', fun h => (hlate h).of_le hrank.le⟩, ?_⟩
      have hback : Blocked (e.state (n + 1)) → Blocked (e.state n) := h.blocked hloop hstocked
      have hawaited := h.awaited_eq hloop
      unfold Process.variant Process.helper
      by_cases hblocked : Blocked (e.state n)
      · by_cases hblocked' : Blocked (e.state (n + 1))
        · rw [if_pos hblocked, if_pos hblocked', if_pos hblocked, if_pos hblocked', hrank]
          refine .inr ⟨rfl, hawaited, fun hhelps => ?_⟩
          have hrunning : ¬ (e.state n).Stopped := fun h => hbegins (.inl h)
          obtain ⟨address, session, hsome, -, -⟩ := hblocked.awaited hawake hrunning
          rw [hsome] at hhelps
          obtain ⟨reply, rfl⟩ := hhelps
          have haccounted := (accounted_reach (e.reach n)).resolve_left fun h => hrunning (.inr (.inl h))
          exact h.unblocked haccounted hblocked hsome hblocked'
        · rw [if_pos hblocked, if_neg hblocked']
          exact .inl (Prod.Lex.toLex_lt_toLex.mpr (.inr ⟨hrank, Nat.zero_lt_one⟩))
      · have hblocked' : ¬ Blocked (e.state (n + 1)) := fun h => hblocked (hback h)
        rw [if_neg hblocked, if_neg hblocked', if_neg hblocked, if_neg hblocked', hrank]
        exact .inr ⟨rfl, rfl, hloop⟩

theorem awake_later (e : machine.Execution Unaliased) {n m : ℕ} (hnm : n ≤ m) (h : (e.state n).Awake) :
    (e.state m).Awake := by
  induction m, hnm using Nat.le_induction with
  | base => exact h
  | succ m hnm ih =>
    cases hevent : e.event m with
    | none =>
      rw [e.rests m hevent]
      exact ih
    | some action => exact (step_cases (e.moves m action hevent).2).awake (stocked_reach (e.reach m)) ih

theorem cycles_recur (e : machine.Execution Unaliased) (hfair : ∀ thread, e.Fair (Runs thread)) :
    (∀ n, (e.state n).Controlling → ∃ k, n ≤ k ∧ Begins e k) ∧
      ∀ n, (e.state n).Awake → (∃ k, n ≤ k ∧ Begins e k) ∨
        ∀ m, ∃ k action, m ≤ k ∧ e.event k = some action ∧ Registers action := by
  constructor
  · intro n hcontrols
    have hawake : (e.state n).Awake := by
      intro hwaiting
      simp [Process.Controlling, Process.rank, hwaiting] at hcontrols
    exact (approaches e True 0 fun _ _ _ _ _ => trivial).eventually hfair (Nat.zero_le n)
      ⟨hawake, fun _ => hcontrols⟩
  · intro n hawake
    by_contra hneither
    obtain ⟨hnever, hfinite⟩ := not_or.mp hneither
    obtain ⟨m, hquiet⟩ := not_forall.mp hfinite
    have happroaches := approaches e False m fun k action hk hevent hregisters =>
      hquiet ⟨k, action, hk, hevent, hregisters⟩
    obtain ⟨k, hk, hbegins⟩ := happroaches.eventually hfair (Nat.le_max_right n m)
      ⟨awake_later e (Nat.le_max_left n m) hawake, False.elim⟩
    exact hnever ⟨k, (Nat.le_max_left n m).trans hk, hbegins⟩

structure Cycling (p : Process) : Prop where
  controlType : p.core.controlType = .noop
  active : 0 < p.core.activeLocalControllerSessions
  pendingLocals : p.core.pendingLocalControllerSessions = 0
  pendingStages : p.core.pendingDataPlaneSessions = 0
  served : ∀ address session, p.core.localSessions.lookup address = some session → session.submissionQueue = []
  point : p.point ∈ [.condition, .locals, .stages, .control, .finish]

theorem Cycling.loop (h : Cycling p) : ∃ q, machine.step p .loop = some q ∧ Cycling q := by
  change ∃ q, p.loop = some q ∧ Cycling q
  obtain ⟨htype, hactive, hlocals, hstages, hserved, hpoint⟩ := h
  simp only [List.mem_cons, List.not_mem_nil, or_false] at hpoint
  rcases hpoint with hpoint | hpoint | hpoint | hpoint | hpoint
  · refine ⟨{ p with point := .locals }, ?_, ⟨htype, hactive, hlocals, hstages, hserved, by simp⟩⟩
    simp [Process.loop, hpoint, hlocals, hstages, hactive]
  · refine ⟨{ p with point := .stages }, ?_, ⟨htype, hactive, hlocals, hstages, hserved, by simp⟩⟩
    simp [Process.loop, hpoint, hlocals]
  · refine ⟨{ p with point := .control }, ?_, ⟨htype, hactive, hlocals, hstages, hserved, by simp⟩⟩
    simp [Process.loop, hpoint, hstages]
  · refine ⟨{ p with point := .finish }, ?_, ⟨htype, hactive, hlocals, hstages, hserved, by simp⟩⟩
    simp [Process.loop, hpoint, Process.control, htype]
  · refine ⟨{ p with core := { p.core with changeInSystem := false }, point := .condition }, ?_,
      ⟨htype, hactive, hlocals, hstages, hserved, by simp⟩⟩
    simp [Process.loop, hpoint]

def oneController : CoreControlApplication :=
  { CoreControlApplication.new .noop ["4|1|create_channel|1000|posix|1000|data|no_op|"] 100 .id with
    activeOps := ["data"]
    activeOp := "data" }

def oneControllerSchedule (n : ℕ) : Option Action := some (firstController[n]?.getD .loop)

theorem start_oneController : machine.start (.start oneController) :=
  ⟨.noop, ["4|1|create_channel|1000|posix|1000|data|no_op|"], 100, .id, oneController, by rfl, rfl⟩

theorem cycling_oneController {n : ℕ} (h : firstController.length ≤ n) :
    Cycling (Machine.Execution.follow machine (.start oneController) oneControllerSchedule n) := by
  induction n, h using Nat.le_induction with
  | base =>
    have hsessions : (Machine.Execution.follow machine (.start oneController) oneControllerSchedule
        firstController.length).core.localSessions.entries = [⟨"A", ⟨[], []⟩⟩] := by decide
    refine ⟨rfl, by decide, rfl, rfl, fun address session hs => ?_, by decide⟩
    have hmem := AList.mem_lookup_iff.mp (Option.mem_def.mpr hs)
    rw [hsessions, List.mem_singleton] at hmem
    cases hmem
    rfl
  | succ n h ih =>
    obtain ⟨q, hq, hcycling⟩ := ih.loop
    have hevent : oneControllerSchedule n = some .loop := by
      rw [oneControllerSchedule, List.getElem?_eq_none h, Option.getD_none]
    rw [Machine.Execution.follow, hevent, Option.bind_some, hq]
    exact hcycling

def oneControllerExecution : machine.Execution Unaliased :=
  .ofSchedule (.start oneController) oneControllerSchedule start_oneController fun n action h => by
    by_cases hn : firstController.length ≤ n
    · have hcycling := cycling_oneController hn
      obtain ⟨q, hq, -⟩ := hcycling.loop
      rw [oneControllerSchedule, List.getElem?_eq_none hn, Option.getD_none] at h
      cases h
      refine ⟨fun hcomputing => ?_, by rw [hq]; rfl⟩
      have hpoint := hcycling.point
      simp only [List.mem_cons, List.not_mem_nil, or_false] at hpoint
      rcases hpoint with hpoint | hpoint | hpoint | hpoint | hpoint <;> simp [hpoint, Point.computing]
        at hcomputing
    · have hlt : n < 7 := by simpa [firstController] using hn
      cases h
      interval_cases n <;> exact ⟨by decide, by decide⟩

theorem cycles_recur_one_controller : ∃ k, 100 ≤ k ∧ Begins oneControllerExecution k := by
  refine ((cycles_recur oneControllerExecution fun thread n henabled => ?_).2 100 fun hwaiting =>
    ?_).resolve_right ?_
  · have hcycling : Cycling (oneControllerExecution.state (max n 7)) :=
      cycling_oneController (Nat.le_max_right n 7)
    cases thread with
    | none =>
      refine ⟨max n 7, .loop, Nat.le_max_left n 7, rfl, ?_⟩
      show oneControllerSchedule (max n 7) = _
      rw [oneControllerSchedule, List.getElem?_eq_none (Nat.le_max_right n 7), Option.getD_none]
    | some address =>
      obtain ⟨_, ⟨reply, rfl⟩, hstep⟩ := henabled (max n 7) (Nat.le_max_left n 7)
      obtain ⟨q, hq⟩ := Option.isSome_iff_exists.mp hstep
      have h : Step (oneControllerExecution.state (max n 7)) (.serve address reply) q := step_cases hq
      cases h with
      | served _ _ session session' hsession hserve =>
        simp [serve, hcycling.served address session hsession] at hserve
  · have hpoint : (oneControllerExecution.state 100).point ∈ _ :=
      (cycling_oneController (n := 100) (by decide)).point
    simp [hwaiting] at hpoint
  · intro h
    obtain ⟨k, action, hk, hevent, hregisters⟩ := h 7
    have hloop : oneControllerSchedule k = some .loop := by
      rw [oneControllerSchedule, List.getElem?_eq_none hk, Option.getD_none]
    cases hloop.symm.trans hevent
    exact hregisters

end Cheferd.FeedbackLoop
