import Cheferd.WaitingInstructions

namespace Cheferd

open Library

namespace FeedbackLoop

open CoreControlApplication

variable {p q : Process}

theorem Step.history {action : Action} (h : Step p action q) : p.core.history <:+ q.core.history := by
  cases h.tableStep with
  | kept hkept henforcing hfinish => rw [hkept.history]
  | registered info hpoint hr =>
    rw [hr.history]
    exact List.suffix_cons _ _
  | removed todo collection core hpoint hcore hf =>
    obtain ⟨infos, hinfos, _⟩ := hf.events
    rw [hinfos, hcore.history]
    exact List.suffix_append _ _
  | computed dStats core updated haction hpoint hc hcore hnext =>
    obtain ⟨core₁, operation, rules, ⟨_, _, _, _, _, rfl, _⟩, hr⟩ := (computeAndEnforce_computes hc).requests
    rw [hcore]
    exact ⟨.computed :: (rules.map .enforced).reverse, congrArg (List.cons Event.computed) hr.history.symm⟩
  | finished hpoint hcore hnext => rw [hcore]

def Fresh (p : Process) : Action → Prop
  | .enqueueLocal address => address ∉ p.core.localQueue ∧ address ∉ p.core.localSessions
  | _ => True

instance : ∀ p action, Decidable (Fresh p action)
  | _, .enqueueLocal _ => inferInstanceAs (Decidable (_ ∧ _))
  | _, .countLocal _ | _, .enqueueStage _ | _, .countStage | _, .enqueueRule _ | _, .serve _ _ | _, .rehash _
  | _, .loop => inferInstanceAs (Decidable True)

structure Entering (p : Process) : Prop where
  nodup : p.core.localQueue.Nodup
  unknown : ∀ address ∈ p.core.localQueue, address ∉ p.core.localSessions
  shaking : ∀ address, p.point = .localHandshake address → p.core.stagesOf address = []

theorem LoopStep.shaking (h : LoopStep p q) {address : String} (hq : q.point = .localHandshake address) :
    address ∈ p.core.localQueue ∧ q.core.stagesOf address = p.core.stagesOf address := by
  cases h with
  | localTaken a rest session hpoint hpending hqueue hsession =>
    cases hq
    exact ⟨by rw [hqueue]; exact List.mem_cons_self, stagesOf_emplace p.core address address⟩
  | goes point h =>
    cases h <;> cases hq
  | control hpoint h => rcases h.point with h | h <;> simp [h] at hq
  | collectDone collection active point hpoint hgone hactive hnext =>
    rcases hnext with ⟨rfl, _⟩ | rfl <;> cases hq
  | _ => cases hq

theorem Entering.loop (h : LoopStep p q) (hhosted : Hosted p) (hp : Entering p) : Entering q := by
  have hshaking : ∀ address, q.point = .localHandshake address → q.core.stagesOf address = [] := by
    intro address hq
    obtain ⟨hmem, hstages⟩ := h.shaking hq
    rw [hstages]
    by_contra hne
    exact hp.unknown address hmem (hhosted.hosts address hne)
  have hkept (hqueue : q.core.localQueue = p.core.localQueue)
      (hsessions : ∀ a ∈ q.core.localSessions, a ∈ p.core.localSessions) : Entering q := by
    refine ⟨hqueue ▸ hp.nodup, fun a ha hin => ?_, hshaking⟩
    exact hp.unknown a (hqueue ▸ ha) (hsessions a hin)
  cases h.coreStep with
  | still h => exact hkept h.localQueue fun a => (h.localSessions a).mp
  | localTaken address rest session hpoint hqueue h =>
    have hnodup := hp.nodup
    rw [hqueue] at hnodup
    obtain ⟨hnotin, hrest⟩ := List.nodup_cons.mp hnodup
    refine ⟨by rw [h.localQueue]; exact hrest, fun a ha hin => ?_, hshaking⟩
    rw [h.localQueue] at ha
    rcases (AList.mem_insert _).mp ((h.localSessions a).mp hin) with rfl | hin
    · exact hnotin ha
    · exact hp.unknown a (by rw [hqueue]; exact List.mem_cons_of_mem _ ha) hin
  | stageTaken info rest hpoint hqueue hsession h => exact hkept h.localQueue fun a => (h.localSessions a).mp
  | collected address response rest collection collection' core hpoint hcore h =>
    have hframe := (collectStatisticsResult_forgets h).frame
    refine hkept ((congrArg (·.localQueue) hframe).trans hcore.localQueue) fun a ha => ?_
    rw [hframe] at ha
    exact (hcore.localSessions a).mp ha

theorem Entering.step {action : Action} (h : Step p action q) (hfresh : Fresh p action) (hhosted : Hosted p)
    (hp : Entering p) : Entering q := by
  cases h with
  | enqueueLocal address =>
    obtain ⟨hqueue, hsession⟩ := hfresh
    refine ⟨?_, fun a ha => ?_, hp.shaking⟩
    · exact List.nodup_append.mpr ⟨hp.nodup, List.nodup_singleton _, by
        rintro a ha b hb rfl
        rw [List.mem_singleton.mp hb] at ha
        exact hqueue ha⟩
    · rcases List.mem_append.mp ha with ha | ha
      · exact hp.unknown a ha
      · rwa [List.mem_singleton.mp ha]
  | served address reply session session' hsession hserve =>
    exact ⟨hp.nodup, fun a ha hin =>
      hp.unknown a ha ((mem_insert_of_lookup hsession session' a).mp hin), hp.shaking⟩
  | loop h => exact hp.loop h hhosted
  | _ => exact ⟨hp.nodup, hp.unknown, hp.shaking⟩

end FeedbackLoop

namespace ControlPlane

open CoreControlApplication LocalControllerSession FeedbackLoop Library.Membership Library.Relay

variable {core core' : CoreControlApplication} {app app' : LocalControlApplication} {a : String}
  {instructions : List Instruction} {p q : FeedbackLoop.Process}

def received (app : LocalControlApplication) (key : String) : Option (List PaioInterface.EnforcementRuleRaw) :=
  (app.dataSessions.lookup key).map DataPlaneSession.received

structure Relayed (core : CoreControlApplication) (app : LocalControlApplication) (address : String)
    (instructions : List Instruction) : Prop extends Waiting core address instructions where
  shipped : Shipped (Instruction.effect app.operationToChannelObject address) (fun _ => [])
    (instructionsTo address core.history) instructions (received app)
  fresh : ∀ info, .ready info ∈ instructions → info.key ∉ app.dataSessions
  preparing : ∀ key session, app.preparingDataSessions.lookup key = some session → session.received = []

theorem Relayed.kept (h : Relayed core app a instructions) (hwaiting : Waiting core' a instructions)
    (hhistory : core'.history = core.history)
    (hdata : ∀ key session, app'.dataSessions.lookup key = some session →
      app.dataSessions.lookup key = some session)
    (hchannels : app'.operationToChannelObject = app.operationToChannelObject ∨ ∀ key, key ∉ app'.dataSessions)
    (hpreparing : ∀ key session, app'.preparingDataSessions.lookup key = some session →
      session.received = [] ∨ app.preparingDataSessions.lookup key = some session) :
    Relayed core' app' a instructions := by
  refine ⟨hwaiting, ?_, fun info hi hin => ?_, fun key session hl => ?_⟩
  · rw [hhistory]
    rcases hchannels with hchannels | hnone
    · rw [hchannels]
      refine h.shipped.kept fun key v hv => ?_
      obtain ⟨session, hl, rfl⟩ := Option.map_eq_some_iff.mp hv
      rw [received, hdata key session hl]
      rfl
    · refine h.shipped.retuned fun key => ?_
      rw [received, AList.lookup_eq_none.mpr (hnone key)]
      rfl
  · obtain ⟨session, hl⟩ := Option.isSome_iff_exists.mp (AList.lookup_isSome.mpr hin)
    exact h.fresh info hi (AList.lookup_isSome.mp (by rw [hdata _ _ hl]; rfl))
  · exact (hpreparing key session hl).elim id (h.preparing key session)

theorem Relayed.tells {told : List Instruction} (h : Relayed p.core app a instructions) (ht : Tells p q a told)
    (hlisted : ∀ key ∈ app.dataSessions, key ∈ p.core.stagesOf a) :
    Relayed q.core app a (instructions ++ told) := by
  refine ⟨h.toWaiting.tells ht, ?_, fun info hi hin => ?_, h.preparing⟩
  · rw [ht.log]
    exact h.shipped.sent told
  · rcases List.mem_append.mp hi with hi | hi
    · exact h.fresh info hi hin
    · exact (ht.ready info hi).1 (hlisted _ hin)

theorem Relayed.marked {info : StageInfo} (h : Relayed core app a [.ready info]) (hwaiting : Waiting core' a [])
    (hhistory : core'.history = core.history) (happ : app' = (app.markStageReady info.key).1) :
    Relayed core' app' a [] := by
  have hnew := h.fresh info List.mem_cons_self
  have hchannels : app'.operationToChannelObject = app.operationToChannelObject := by
    rw [happ, LocalControlApplication.markStageReady]
    split <;> rfl
  have hdata : ∀ key session, app'.dataSessions.lookup key = some session →
      key = info.key ∧ session.received = [] ∨ key ≠ info.key ∧ app.dataSessions.lookup key = some session := by
    intro key session hl
    by_cases hkey : key = info.key
    · subst hkey
      rw [happ, LocalControlApplication.markStageReady] at hl
      split at hl
      · rw [AList.lookup_eq_none.mpr hnew] at hl
        cases hl
      case h_2 stage hstage =>
        rw [Assoc.lookup_emplace, if_pos rfl, AList.lookup_eq_none.mpr hnew] at hl
        cases hl
        exact .inl ⟨rfl, h.preparing _ _ hstage⟩
    · refine .inr ⟨hkey, ?_⟩
      rw [happ, LocalControlApplication.markStageReady] at hl
      split at hl
      · exact hl
      · rwa [Assoc.lookup_emplace, if_neg hkey] at hl
  refine ⟨hwaiting, ?_, fun info hi => absurd hi List.not_mem_nil, fun key session hl => ?_⟩
  · rw [hhistory, hchannels]
    refine h.shipped.applied fun key v hv => ?_
    obtain ⟨session, hl, rfl⟩ := Option.map_eq_some_iff.mp hv
    rcases hdata key session hl with ⟨rfl, hnil⟩ | ⟨hkey, hl⟩
    · exact .inr fun v => by rw [Instruction.effect, if_pos rfl, hnil]
    · exact .inl ⟨session.received,
        by rw [received, hl]; rfl, by rw [Instruction.effect, if_neg (Ne.symm hkey)]⟩
  · rw [happ, LocalControlApplication.markStageReady] at hl
    split at hl
    · exact h.preparing key session hl
    · rw [Assoc.lookup_erase_eq] at hl
      split at hl
      · cases hl
      · exact h.preparing key session hl

theorem Relayed.enforced {rule : EnforcementRule} (h : Relayed core app a (.enforce rule :: instructions))
    (hwaiting : Waiting core' a instructions) (hhistory : core'.history = core.history)
    (hdelivered : LocalControlApplication.Delivered
      (fun key => if key ∈ rule.keys a then rule.raws app.operationToChannelObject else []) app app') :
    Relayed core' app' a instructions := by
  have hpreparing : app'.preparingDataSessions = app.preparingDataSessions := by rw [hdelivered.frame]
  have hchannels : app'.operationToChannelObject = app.operationToChannelObject := by rw [hdelivered.frame]
  refine ⟨hwaiting, ?_, fun info hi => ?_, by rw [hpreparing]; exact h.preparing⟩
  · rw [hhistory, hchannels]
    refine h.shipped.applied fun key v hv => ?_
    rw [received, hdelivered.sessions, Option.map_map] at hv
    obtain ⟨session, hl, rfl⟩ := Option.map_eq_some_iff.mp hv
    refine .inl ⟨session.received, by rw [received, hl]; rfl, ?_⟩
    rw [Instruction.effect]
    dsimp only [Function.comp_apply]
    split
    · rfl
    · exact List.append_nil _
  · have hnew := h.fresh info (List.mem_cons_of_mem _ hi)
    rw [← AList.lookup_eq_none, hdelivered.sessions, AList.lookup_eq_none.mpr hnew]
    rfl

section Served

variable {process : LocalFeedbackLoop.LocalProcess} {outside : Surroundings} {reply : Reply} {rule : String}
  {rest : List String} {session : LocalControllerSession}

theorem Relayed.shaken (h : Relayed p.core process.app a instructions) (hpoint : p.point = .localHandshake a)
    (hentering : Entering p) (hagreed : (link p.core process a).Agreed)
    (hsession : p.core.localSessions.lookup a = some session)
    (hqueue : session.submissionQueue = p.core.localHandshakeRule :: rest)
    (hcall : LocalInterface.call outside p.core.localHandshakeRule process.app = .ok (app', reply))
    (completionQueue : List (String × StageResponse)) :
    Relayed { p.core with localSessions := p.core.localSessions.insert a ⟨rest, completionQueue⟩ } app' a
      instructions := by
  have htype := operationType_handshake p.core
  have hnot : ¬ Instructs p.core.localHandshakeRule := by
    rw [Instructs, htype]
    decide
  obtain ⟨hpreparing, hkeys⟩ := LocalInterface.call_keys (by rw [htype]; decide) (by rw [htype]; decide) hcall
  have hnone : ∀ key, key ∉ app'.dataSessions := by
    intro key hkey
    have hlisted := (hagreed.listed_iff key).mpr (.inl ((hkeys key).mp hkey))
    rw [link, Set.mem_ofPred, hentering.shaking a hpoint] at hlisted
    cases hlisted
  refine h.kept (h.toWaiting.silent hsession hqueue hnot _) rfl (fun key session hl => ?_) (.inr hnone)
    fun key session hl => .inr (by rwa [hpreparing] at hl)
  exact absurd (AList.lookup_isSome.mp (by rw [hl]; rfl)) (hnone key)

theorem Relayed.readied {info : StageInfo} (h : Relayed core process.app a instructions)
    (hsession : core.localSessions.lookup a = some session)
    (hqueue : session.submissionQueue = [stageReadyRule info])
    (hcall : LocalInterface.call outside (stageReadyRule info) process.app = .ok (app', reply))
    (completionQueue : List (String × StageResponse)) :
    Relayed { core with localSessions := core.localSessions.insert a ⟨[], completionQueue⟩ } app' a [] := by
  have htype := operationType_stageReady info
  obtain ⟨instruction, instructions', rfl, hinstruction, hrest⟩ := h.toWaiting.next hsession hqueue (.inl htype)
  obtain rfl : instructions' = [] := List.map_eq_nil_iff.mp hrest
  obtain ⟨key, hkey, happ⟩ := LocalInterface.call_markStageReady htype hcall
  cases instruction with
  | enforce rule =>
    rw [← hinstruction, Instruction.request, EnforcementRule.request, operationType_enforcementRule] at htype
    cases htype
  | ready info' =>
    have hrequest : requestOf (stageReadyRule info) = .ready info'.key := by
      rw [← hinstruction]
      exact requestOf_stageReady (h.plain info' List.mem_cons_self)
    simp only [requestOf, htype, hkey] at hrequest
    exact h.marked (h.toWaiting.served hrest _) rfl (by rw [happ, Request.ready.inj hrequest])

theorem Relayed.reported (h : Relayed core process.app a instructions)
    (hsession : core.localSessions.lookup a = some session)
    (hqueue : session.submissionQueue = collectStatisticsRule 5 :: rest)
    (hcall : LocalInterface.call outside (collectStatisticsRule 5) process.app = .ok (app', reply))
    (completionQueue : List (String × StageResponse)) :
    Relayed { core with localSessions := core.localSessions.insert a ⟨rest, completionQueue⟩ } app' a
      instructions := by
  rw [call_collectStatistics (.inl rfl)] at hcall
  cases hcall
  refine h.kept (h.toWaiting.silent hsession hqueue (not_instructs_collectStatistics 5) _) rfl
    (fun key session hl => ?_) (.inl rfl) fun key session hl => .inr hl
  rw [LocalControlApplication.collectGlobalStatistics, Assoc.lookup_eraseKeys] at hl
  split at hl
  · cases hl
  · exact hl

theorem Relayed.obeyed {todo : List (String × String)} (h : Relayed p.core process.app a instructions)
    (hpoint : p.point = .enforce todo) (hd : Drained p) (hagreement : p.registry.Agreement)
    (hagreed : (link p.core process a).Agreed) (hsession : p.core.localSessions.lookup a = some session)
    (hqueue : session.submissionQueue = rule :: rest) (htype : operationType rule = some 6)
    (hcall : LocalInterface.call outside rule process.app = .ok (app', reply))
    (hack : ∀ key ∈ process.app.dataSessions, ∀ received, (outside.stages key).acknowledge received = some 1)
    (hwritable : ∀ rule, .enforce rule ∈ instructions → rule.Writable)
    (completionQueue : List (String × StageResponse)) : ∃ instructions', Relayed { p.core with
      localSessions := p.core.localSessions.insert a ⟨rest, completionQueue⟩ } app' a instructions' := by
  obtain ⟨instruction, instructions', rfl, rfl, hrest⟩ := h.toWaiting.next hsession hqueue (.inr htype)
  refine ⟨instructions', ?_⟩
  cases instruction with
  | ready info =>
    rw [Instruction.request, operationType_stageReady] at htype
    cases htype
  | enforce rule =>
    obtain ⟨hnodup, hheld⟩ := keys_held hpoint hd hagreement hagreed hsession
      (h.tracked rule List.mem_cons_self)
    obtain ⟨app, reply', hsame, hdelivered⟩ := LocalControlApplication.call_enforce
      (hwritable rule List.mem_cons_self) hnodup hheld hack
    rw [Instruction.request, hsame] at hcall
    cases hcall
    exact h.enforced (h.toWaiting.served hrest _) rfl hdelivered

theorem Relayed.served (h : Relayed p.core process.app a instructions) (hd : Drained p) (hentering : Entering p)
    (hagreement : p.registry.Agreement) (hagreed : (link p.core process a).Agreed)
    (hsession : p.core.localSessions.lookup a = some session) (hqueue : session.submissionQueue = rule :: rest)
    (hcall : LocalInterface.call outside rule process.app = .ok (app', reply))
    (hack : operationType rule = some 6 → ∀ key ∈ process.app.dataSessions, ∀ received,
      (outside.stages key).acknowledge received = some 1)
    (hwritable : ∀ rule, .enforce rule ∈ instructions → rule.Writable)
    (completionQueue : List (String × StageResponse)) : ∃ instructions', Relayed { p.core with
      localSessions := p.core.localSessions.insert a ⟨rest, completionQueue⟩ } app' a instructions' := by
  rcases awaited_cases (hd.awaited a session hsession) hqueue with
    ⟨hpoint, rfl⟩ | ⟨info, -, -, rfl, rfl⟩ | rfl | ⟨⟨todo, hpoint⟩, htype⟩
  · exact ⟨_, h.shaken hpoint hentering hagreed hsession hqueue hcall _⟩
  · exact ⟨_, h.readied hsession hqueue hcall _⟩
  · exact ⟨_, h.reported hsession hqueue hcall _⟩
  · exact h.obeyed hpoint hd hagreement hagreed hsession hqueue htype hcall (hack htype) hwritable _

end Served

variable {s t : ControlPlane}

def Arriving (s : ControlPlane) (action : Action) : Prop :=
  Orderly s action ∧ match action with
    | .core action => Fresh s.core action
    | _ => True

instance : ∀ s action, Decidable (Arriving s action)
  | _, .core _ => inferInstanceAs (Decidable (_ ∧ Fresh _ _))
  | _, .serve _ _ | _, .stage _ _ => inferInstanceAs (Decidable (_ ∧ True))

def Acknowledging (s : ControlPlane) (action : Action) : Prop :=
  Arriving s action ∧ match action with
    | .serve address outside => (nextRule s.core address).bind operationType = some 6 →
      ∀ key ∈ (s.locals address).app.dataSessions, ∀ received,
        (outside.stages key).acknowledge received = some 1
    | _ => True

theorem entering_reach (h : machine.Reach Acknowledging s) : Entering s.core := by
  induction h with
  | start h =>
    obtain ⟨_, _, _, _, core, hops, hcore⟩ := h.1
    obtain ⟨ops, op, rfl⟩ := initializeOps_ok hops
    rw [hcore]
    exact ⟨List.nodup_nil, fun a ha => absurd ha List.not_mem_nil, fun a ha => nomatch ha⟩
  | @step s t action hreach hguard hstep ih =>
    have hhosted := hosted_reach (core_reach hreach)
    cases step_cases hstep with
    | core action core hserve hstage h => exact ih.step (FeedbackLoop.step_cases h) hguard.1.2 hhosted
    | served address rule rest outside app reply session hsession hqueue hcall =>
      exact ⟨ih.nodup, fun a ha hin => ih.unknown a ha ((mem_insert_of_lookup hsession _ a).mp hin), ih.shaking⟩
    | stage address action process h hquiet => exact ih
    | announced address info acknowledged ready hpoint => exact ⟨ih.nodup, ih.unknown, ih.shaking⟩

theorem Relayed.offers {process process' : LocalFeedbackLoop.LocalProcess} {action : LocalFeedbackLoop.Action}
    (h : Relayed core process.app a instructions) (ho : LocalFeedbackLoop.Offers process process' action) :
    Relayed core process'.app a instructions := by
  have hkept : process'.app.dataSessions = process.app.dataSessions ∧
      process'.app.operationToChannelObject = process.app.operationToChannelObject := by
    cases ho <;> simp [*]
  refine h.kept h.toWaiting rfl (fun key session hl => by rwa [hkept.1] at hl) (.inl hkept.2)
    fun key session hl => ?_
  cases ho with
  | kept happ hoffered => exact .inr (happ ▸ hl)
  | started info haction hidle hnew hoffered happ =>
    rw [happ, Assoc.lookup_insert_eq] at hl
    split at hl
    · cases hl
      exact .inl rfl
    · exact .inr hl
  | abandoned info hbusy hprepared hoffered happ =>
    rw [happ, Assoc.lookup_erase_eq] at hl
    split at hl
    · cases hl
    · exact .inr hl

theorem Step.relayed {action : Action} (h : Step s action t) (hguard : Acknowledging s action)
    (hagreed : s.Named ∧ ∀ a, (view s a).Agreed) (hd : Drained s.core) (hentering : Entering s.core)
    (hagreement : s.core.registry.Agreement) (halive : ¬ t.core.Crashed)
    (htype : s.core.core.controlType ≠ .dynamicLeftover)
    (hwritable : ∀ rule, .enforced rule ∈ s.core.core.history → rule.Writable)
    (hr : Relayed s.core.core (s.locals a).app a instructions) :
    ∃ instructions', Relayed t.core.core (t.locals a).app a instructions' := by
  obtain ⟨hnamed, hagreed⟩ := hagreed
  cases h with
  | core action core hserve hstage h =>
    cases FeedbackLoop.step_cases h with
    | served address reply session session' hsession h => exact absurd rfl (hserve address reply)
    | enqueueStage info => exact absurd rfl (hstage info)
    | loop h =>
      obtain ⟨told, ht⟩ := loopStep_tells h halive hd htype hnamed.announced
        (hguard.1.1.unlisted hagreement) a
      exact ⟨_, hr.tells ht fun key hkey => ((hagreed a).listed_iff key).mpr (.inl hkey)⟩
    | _ => exact ⟨_, hr.kept (hr.toWaiting.kept rfl rfl rfl) rfl (fun _ _ => id) (.inl rfl) fun _ _ => .inr⟩
  | served address rule rest outside app reply session hsession hqueue hcall =>
    by_cases ha : a = address
    · subst ha
      simp only [setLocal, Function.update_self]
      refine hr.served hd hentering hagreement (hagreed a) hsession hqueue hcall (fun h6 => hguard.2 ?_)
        (fun rule hrule => hwritable rule (mem_instructionsTo (hr.logged.subset hrule))) _
      rw [nextRule, hsession, Option.bind_some, hqueue]
      exact h6
    · simp only [setLocal, Function.update_of_ne ha]
      exact ⟨_, hr.kept (hr.toWaiting.kept (queued_congr (sessionOf_congr (AList.lookup_insert_ne ha)))
        rfl rfl) rfl
        (fun _ _ => id) (.inl rfl) fun _ _ => .inr⟩
  | stage address action process h hquiet =>
    by_cases ha : a = address
    · subst ha
      simp only [setLocal, Function.update_self]
      exact ⟨_, hr.offers (Step.offers h hquiet)⟩
    · simp only [setLocal, Function.update_of_ne ha]
      exact ⟨_, hr⟩
  | announced address info acknowledged ready hpoint =>
    by_cases ha : a = address
    · subst ha
      simp only [setLocal, Function.update_self]
      exact ⟨_, hr.kept (hr.toWaiting.kept rfl rfl rfl) rfl (fun _ _ => id) (.inl rfl) fun _ _ => .inr⟩
    · simp only [setLocal, Function.update_of_ne ha]
      exact ⟨_, hr.kept (hr.toWaiting.kept rfl rfl rfl) rfl (fun _ _ => id) (.inl rfl) fun _ _ => .inr⟩

theorem relayed_reach (h : machine.Reach Acknowledging s) (htype : s.core.core.controlType ≠ .dynamicLeftover)
    (hwritable : ∀ rule, .enforced rule ∈ s.core.core.history → rule.Writable) (a : String) :
    ∃ instructions, Relayed s.core.core (s.locals a).app a instructions := by
  induction h with
  | @start s h =>
    obtain ⟨⟨_, _, _, _, core, hops, hcore⟩, ⟨rules, hlocals⟩, _⟩ := h
    obtain ⟨ops, op, rfl⟩ := initializeOps_ok hops
    rw [hcore, hlocals]
    refine ⟨[], ⟨rfl, List.nil_suffix, fun rule hr => absurd hr List.not_mem_nil,
      fun info hi => absurd hi List.not_mem_nil⟩,
      .empty _ _ fun key => rfl, fun info hi => absurd hi List.not_mem_nil, fun key session hl => nomatch hl⟩
  | @step s t action hreach hguard hstep ih =>
    have hs := step_cases hstep
    have hhistory : s.core.core.history <:+ t.core.core.history ∧
        t.core.core.controlType = s.core.core.controlType := by
      rcases hs.core_step with he | ⟨coreAction, he⟩
      · rw [he]
        exact ⟨List.suffix_rfl, rfl⟩
      · have h := FeedbackLoop.step_cases he
        exact ⟨h.history, h.configured.controlType⟩
    have htype' : s.core.core.controlType ≠ .dynamicLeftover := hhistory.2 ▸ htype
    have hwritable' : ∀ rule, .enforced rule ∈ s.core.core.history → rule.Writable := fun rule hr =>
      hwritable rule (hhistory.1.subset hr)
    have horderly : machine.Reach Orderly s := hreach.mono fun _ _ hguard => hguard.1.1
    have hdistinct : machine.Reach PlainKeys s := horderly.mono fun _ _ => And.left
    have hsound := sound_reach horderly htype'
    have halive := alive_reach hsound
    have halive' := alive_reach (sound_reach (horderly.step hguard.1.1 hstep) htype)
    obtain ⟨instructions, hr⟩ := ih htype' hwritable'
    exact hs.relayed hguard ((agreed_reach hdistinct htype').resolve_left halive)
      ((drained_reach (core_reach hreach) htype').resolve_left halive) (entering_reach hreach)
      (secure_reach hsound halive).agreement halive' htype' hwritable' hr

def enforcedRound : List Action :=
  demandedRound ++ [.serve "A" (reporting fun _ => 7), .core .loop, .core .loop]

theorem acknowledging_enforcedRound : ∀ action ∈ enforcedRound, ∀ s, Arriving s action →
    Acknowledging s action := by
  have hreporting : ∀ action ∈ enforcedRound, ∀ address outside, action = .serve address outside →
      outside = reporting fun _ => 7 := by
    simp [enforcedRound, demandedRound, firstRound]
  intro action haction s h
  refine ⟨h, ?_⟩
  split
  case h_1 address outside =>
    rw [hreporting _ haction address outside rfl]
    exact fun _ key _ received => rfl
  case h_2 => trivial

end ControlPlane

end Cheferd
