import Cheferd.DemandReplay
import Cheferd.LeftoverNotification
import Cheferd.MembershipAgreement
import Cheferd.ResponsePairing
import Cheferd.RulesFile

namespace Cheferd

open Library Strings

namespace CoreControlApplication

variable {core core₁ : CoreControlApplication}

def Legible (rule : String) : Prop :=
  rule = "" ∨ 2 ≤ (parseRule '|' rule).length ∧
    ((parseRule '|' rule).getD 1 "" = "demand" ∨ (parseRule '|' rule).getD 1 "" = "job" →
      5 ≤ (parseRule '|' rule).length ∧ (stol ((parseRule '|' rule).getD 4 "")).isOk = true)

instance (rule : String) : Decidable (Legible rule) := inferInstanceAs (Decidable (_ ∨ _ ∧ (_ → _)))

theorem updateJobDemands_total (h : ∀ rule ∈ core.pendingRulesQueue, Legible rule) :
    ∃ operation core₁, updateJobDemands core = .ok (operation, core₁) := by
  unfold updateJobDemands
  split
  case h_1 => exact ⟨_, _, rfl⟩
  case h_2 rule rest hqueue =>
    dsimp only
    split
    case isTrue => exact ⟨_, _, rfl⟩
    case isFalse hempty =>
      obtain ⟨hkind, hdemand⟩ := (h rule (by rw [hqueue]; exact List.mem_cons_self)).resolve_left hempty
      rw [RulesFileParser.token_of_lt hkind, Fault.ok_bind]
      split
      case isTrue hk =>
        obtain ⟨hlength, hnumber⟩ := hdemand hk
        have htoken : ∀ i < 5, token (parseRule '|' rule) i = .ok ((parseRule '|' rule).getD i "") :=
          fun i hi => RulesFileParser.token_of_lt (by omega)
        simp only [htoken 2 (by decide), htoken 3 (by decide), htoken 4 (by decide), Fault.ok_bind]
        cases hv : stol ((parseRule '|' rule).getD 4 "") with
        | error e =>
          rw [hv] at hnumber
          cases hnumber
        | ok demand => exact ⟨_, _, rfl⟩
      case isFalse => exact ⟨_, _, rfl⟩

section Enforcing

variable {operation : String} {app : Σ _ : String, Locations}

theorem enforceStatic_total (s : Enforcement) (htotal : totalStages app.2 ≠ 0)
    (hosted : ∀ address ∈ app.2, address ∈ s.1.localSessions) : ∃ t, enforceStatic operation s app = .ok t := by
  unfold enforceStatic
  split
  · exact ⟨_, rfl⟩
  · exact sendEnforcementRule_total htotal hosted

theorem enforceVanilla_total {leftover : ℤ} (s : Enforcement) (htotal : totalStages app.2 ≠ 0)
    (hosted : ∀ address ∈ app.2, address ∈ s.1.localSessions) :
    ∃ t, enforceVanilla operation leftover s app = .ok t := by
  unfold enforceVanilla
  dsimp only
  split
  · exact ⟨_, rfl⟩
  · exact sendEnforcementRule_total htotal hosted

theorem enforcing_total {body : Enforcement → (Σ _ : String, Locations) → Except Fault Enforcement}
    (hne : NoEmpty core)
    (hosted : ∀ app ∈ core.jobLocationTracker.entries, ∀ address ∈ app.2, address ∈ core.localSessions)
    (hframe : Frame core core₁)
    (hbody : ∀ s app, totalStages app.2 ≠ 0 → (∀ address ∈ app.2, address ∈ s.1.localSessions) →
      ∃ t, body s app = .ok t)
    (hturn : ∀ s app t, body s app = .ok t → Turn operation app s t) :
    ∃ s, core₁.jobLocationTracker.entries.foldlM body (core₁, []) = .ok s := by
  refine Lists.foldlM_total
    (I := fun s => ∀ address, address ∈ s.1.localSessions ↔ address ∈ core.localSessions)
    (fun s app happ hI => ?_) hframe.localSessions
  rw [hframe.jobLocationTracker] at happ
  obtain ⟨t, ht⟩ := hbody s app (totalStages_ne_zero hne (Assoc.lookup_of_mem_entries happ))
    fun address ha => (hI address).mpr (hosted app happ address ha)
  exact ⟨t, ht, fun address => ((hturn s app t ht).frame.localSessions address).trans (hI address)⟩

end Enforcing

theorem computeAndEnforce_total {dStats : Assoc String Rates} {sessionsSent : List String}
    (hlegible : ∀ rule ∈ core.pendingRulesQueue, Legible rule) (hne : NoEmpty core)
    (hosted : ∀ app ∈ core.jobLocationTracker.entries, ∀ address ∈ app.2, address ∈ core.localSessions)
    (hanswered : core.controlType = .dynamicLeftover → ∀ app ∈ core.jobLocationTracker.entries,
      ∀ address ∈ app.2, address ∈ sessionsSent → address ∈ dStats) :
    ∃ s, computeAndEnforce dStats sessionsSent core = .ok s := by
  obtain ⟨operation, core₁, h₁⟩ := updateJobDemands_total hlegible
  have hframe := (updateJobDemands_prepared h₁).1.frame
  unfold computeAndEnforce
  split
  case h_1 =>
    simp only [computeAndEnforceStaticRules, h₁, Fault.ok_bind]
    generalize hcore₂ : (if operation = "" then core₁ else { core₁ with changeInSystem := true }) = core₂
    have hframe₂ : Frame core core₂ := by
      rw [← hcore₂]
      split
      · exact hframe
      · exact hframe.trans ⟨rfl, rfl, rfl, fun _ => Iff.rfl, rfl, rfl, rfl, rfl, rfl, rfl, rfl, rfl, rfl⟩
    split
    · exact ⟨_, rfl⟩
    · have hsame : core₂.jobLocationTracker = (ratesFromDemands core₂).jobLocationTracker := by
        rw [ratesFromDemands_frame]
      rw [hsame]
      exact enforcing_total hne hosted (hframe₂.trans ratesFromDemands_prepared.frame)
        (fun s app => enforceStatic_total s) fun s app t => enforceStatic_turn
  case h_2 =>
    simp only [computeAndEnforceDynamicVanillaRules, h₁, Fault.ok_bind]
    split
    · exact ⟨_, rfl⟩
    · exact enforcing_total hne hosted (hframe.trans (assignShares_prepared _ _ _).frame)
        (fun s app => enforceVanilla_total s) fun s app t => enforceVanilla_turn
  case h_3 htype =>
    exact computeAndEnforceDynamicLeftoverRules_total h₁ hne fun app happ address ha =>
      ⟨hosted app happ address ha, hanswered htype app happ address ha⟩
  case h_4 => exact ⟨_, rfl⟩
  case h_5 => exact ⟨_, rfl⟩

end CoreControlApplication

namespace FeedbackLoop

open CoreControlApplication LocalControllerSession

variable {p q : Process}

theorem legible_step {action : Action} (h : Step p action q)
    (hlegible : ∀ rule, action = .enqueueRule rule → Legible rule)
    (hp : ∀ rule ∈ p.core.pendingRulesQueue, Legible rule) :
    ∀ rule ∈ q.core.pendingRulesQueue, Legible rule := by
  by_cases hquiet : ∀ rule, action ≠ .enqueueRule rule
  · obtain ⟨_, taken, hqueue, _⟩ := h.takesRules hquiet
    exact fun rule hr => hp rule (by rw [hqueue]; exact List.mem_append_right _ hr)
  · obtain ⟨rule, rfl⟩ := not_forall_not.mp hquiet
    cases h with
    | enqueueRule rule =>
      intro other ho
      rcases List.mem_append.mp ho with ho | ho
      · exact hp other ho
      · rw [List.mem_singleton.mp ho]
        exact hlegible rule rfl

theorem Paired.response (hp : Paired p) (hhosted : Hosted p) {address own rule : String}
    {form : Reply → StageResponse} {response : StageResponse} {core : CoreControlApplication}
    (ha : p.awaits = some (address, own, form)) (htakes : Takes p address rule response core) :
    ∃ reply, response = form reply := by
  obtain ⟨session, session', hs, hr, _⟩ := htakes.exists_session
  obtain ⟨_, ⟨rest, howed⟩, hform⟩ := hp.awaits hhosted ha
  have hfirst := outstanding_getResult hr
  rw [hp.outstanding address session hs, howed] at hfirst
  obtain ⟨rfl, _⟩ := List.cons.inj hfirst
  have hmem : (own, response) ∈ session.completionQueue := by
    rw [(getResult_eq_some hr).1]
    exact List.mem_cons_self
  obtain ⟨reply, hreply⟩ := hp.answered address session hs _ hmem
  rw [hform] at hreply
  exact ⟨reply, (Option.some.inj hreply).symm⟩

/-- Stages and replies are what the registry takes them for, registrations come in the right order and do not
disturb an open request, and the administrator's rules can be read. -/
def Sound (p : Process) (action : Action) : Prop :=
  KeptApart p action ∧ Settled p action ∧ Undisturbed p action ∧
    ∀ rule ∈ (match action with | .enqueueRule rule => some rule | _ => none : Option String), Legible rule

instance (p : Process) (action : Action) : Decidable (Sound p action) :=
  inferInstanceAs (Decidable (_ ∧ _ ∧ _ ∧ _))

structure Secure (p : Process) : Prop where
  agreement : p.registry.Agreement
  noEmpty : NoEmpty p.core
  covered : p.core.controlType = .dynamicLeftover → Covered p
  hosted : Hosted p
  queued : Queued p
  paired : Paired p
  legible : ∀ rule ∈ p.core.pendingRulesQueue, Legible rule

theorem Goes.survives {point : Point} (h : Goes p point) (hsettled : Settled p .loop) (hp : Secure p) :
    ∀ fault, point ≠ .crashed fault := by
  rintro fault rfl
  cases h with
  | handshakeLost address hpoint h => exact AList.lookup_eq_none.mp h (hp.hosted.shaking address hpoint)
  | stageUnknown info rest hpoint hpending hqueue h =>
    have hwaits := hsettled hpoint hpending info (by rw [hqueue]; rfl)
    have hfound := (hp.queued info (by rw [hqueue]; exact List.mem_cons_self)).resolve_right hwaits
    exact AList.lookup_eq_none.mp h hfound
  | markLost info hpoint h => exact AList.lookup_eq_none.mp h (hp.hosted.marking info hpoint)
  | collectLost address rest collection hpoint hcollects h =>
    exact AList.lookup_eq_none.mp h (hp.hosted.hosts address (of_decide_eq_true hcollects).1)
  | enforceLost job address rest hpoint h =>
    exact AList.lookup_eq_none.mp h ((hp.paired.enforcing _ hpoint).2 _ List.mem_cons_self).1
  | computeFault dStats fault hpoint h =>
    have hregistry : p.registry = p.core.registry := registry_eq (by simp [hpoint])
    have hstages : ∀ app ∈ p.core.jobLocationTracker.entries, ∀ address ∈ app.2, p.core.stagesOf address ≠ [] :=
      fun app happ address ha => stagesOf_ne_nil (hregistry ▸ hp.agreement) hp.noEmpty happ ha
    have htotal : ∃ s, computeAndEnforce dStats p.sessionsSent p.core = .ok s :=
      computeAndEnforce_total hp.legible hp.noEmpty
        (fun app happ address ha => hp.hosted.hosts address (hstages app happ address ha))
        fun htype app happ address ha hsent =>
          ((hp.covered htype).computing _ hpoint address hsent).resolve_right (hstages app happ address ha)
    obtain ⟨s, hs⟩ := htotal
    rw [h] at hs
    cases hs

theorem LoopStep.survives (h : LoopStep p q) (hsound : Sound p .loop) (hp : Secure p) : ¬ q.Crashed := by
  obtain ⟨hkept, hsettled, _⟩ := hsound
  rintro ⟨fault, hq⟩
  cases h with
  | goes point h => exact h.survives hsettled hp fault hq
  | control hpoint h => rcases h.point with h | h <;> simp [h] at hq
  | collectDone collection active point hpoint hgone hactive hnext =>
    rcases hnext with ⟨rfl, _⟩ | rfl <;> cases hq
  | collectFault address rule rest collection response core fault hpoint hcollects htakes h =>
    have hawaits : p.awaits = some (address, collectStatisticsRule p.subtype,
        fun reply => .stats p.subtype reply.rates) := by
      simp only [Process.awaits, hpoint, hcollects, if_true]
    obtain ⟨reply, rfl⟩ := hp.paired.response hp.hosted hawaits htakes
    obtain ⟨session, session', hsession, hresult, rfl⟩ := htakes.exists_session
    have hregistry : p.registry = p.core.registry := registry_eq (by simp [hpoint])
    have hagreement : (CoreControlApplication.registry { p.core with
        localSessions := p.core.localSessions.insert address session' }).Agreement := hregistry ▸ hp.agreement
    obtain ⟨core', collection', hok⟩ := reply_taken hagreement (of_decide_eq_true hcollects).1
      (hkept.named hpoint hcollects hsession hresult) p.subtype collection
    rw [hok] at h
    cases h
  | _ => cases hq

theorem legible_reach (h : machine.Reach Sound p) : ∀ rule ∈ p.core.pendingRulesQueue, Legible rule := by
  refine h.invariant (I := fun p => ∀ rule ∈ p.core.pendingRulesQueue, Legible rule) ?_ ?_
  · rintro _ ⟨controlType, rules, systemLimit, hash, core, hops, rfl⟩
    obtain ⟨ops, op, rfl⟩ := initializeOps_ok hops
    exact fun rule hr => absurd hr List.not_mem_nil
  · intro p q action hp hsound hstep
    refine legible_step (step_cases hstep) ?_ hp
    rintro rule rfl
    exact hsound.2.2.2 rule rfl

theorem secure_reach (h : machine.Reach Sound p) (halive : ¬ p.Crashed) : Secure p where
  agreement := (agreement_reach (h.mono fun _ _ hs => hs.1)).resolve_left halive
  noEmpty := noEmpty_reach h
  covered := covered_reach h
  hosted := hosted_reach h
  queued := queued_reach (h.mono fun _ _ hs => hs.2.1)
  paired := (paired_reach (h.mono fun _ _ hs => hs.2.2.1)).resolve_left halive
  legible := legible_reach h

theorem alive_reach (h : machine.Reach Sound p) : ¬ p.Crashed := by
  induction h with
  | start h =>
    obtain ⟨_, _, _, _, core, _, rfl⟩ := h
    rintro ⟨fault, hf⟩
    cases hf
  | step hreach hsound hstep ih =>
    cases step_cases hstep with
    | loop h => exact h.survives hsound (secure_reach hreach ih)
    | _ => exact ih

end FeedbackLoop

namespace ControlPlane

open FeedbackLoop CoreControlApplication Library.Membership

variable {s t : ControlPlane}

/-- A stage is announced while its controller is registered, it is taken after that registration and under a
key that no other stage has, and the administrator's rules can be read. The replies are the controllers'
own. -/
def Orderly (s : ControlPlane) (action : Action) : Prop :=
  PlainKeys s action ∧ match action with
    | .core (.enqueueRule rule) => Legible rule
    | .core .loop =>
      (s.core.point = .stages → s.core.core.pendingDataPlaneSessions > 0 →
        ∀ info ∈ s.core.core.localToDataQueue.head?, info.key ∉ s.core.core.stageInfoDetailed) ∧
      Settled s.core .loop ∧ (s.core.point.computing = true → s.core.core.Untangled)
    | .stage address .connect => address ∈ s.core.core.localSessions ∨ address ∈ s.core.core.localQueue
    | _ => True

instance : ∀ s action, Decidable (Orderly s action)
  | _, .core (.enqueueRule _) => inferInstanceAs (Decidable (_ ∧ Legible _))
  | _, .core .loop => inferInstanceAs (Decidable (_ ∧ (_ → _ → _) ∧ Settled _ .loop ∧ (_ → _)))
  | _, .stage _ .connect => inferInstanceAs (Decidable (_ ∧ (_ ∨ _)))
  | _, .core (.enqueueLocal _) | _, .core (.countLocal _) | _, .core (.enqueueStage _) | _, .core .countStage
  | _, .core (.serve _ _) | _, .core (.rehash _) | _, .serve _ _ | _, .stage _ (.handshake _)
  | _, .stage _ .submit
  | _, .stage _ (.acknowledge _) | _, .stage _ .count | _, .stage _ (.ready _) =>
    inferInstanceAs (Decidable (_ ∧ True))

theorem told_reach (h : machine.Reach PlainKeys s) (htype : s.core.core.controlType ≠ .dynamicLeftover) :
    s.core.Crashed ∨ ∀ a, (view s a).Told := by
  induction h with
  | @start s h =>
    obtain ⟨⟨_, _, _, _, core, hops, hcore⟩, _, _⟩ := h
    obtain ⟨ops, op, rfl⟩ := initializeOps_ok hops
    refine .inr fun a members dead hr => ?_
    rw [view, hcore] at hr
    cases hr
  | @step s t action hreach hguard hstep ih =>
    have hs := step_cases hstep
    have hsame : t.core.core.controlType = s.core.core.controlType := by
      rcases hs.core_step with he | ⟨coreAction, he⟩
      · rw [he]
      · exact (FeedbackLoop.step_cases he).configured.controlType
    rw [hsame] at htype
    by_cases halive : t.core.Crashed
    · exact .inl halive
    · have hbefore : ¬ s.core.Crashed := fun hc => halive <| by
        rcases hs.core_step with he | ⟨coreAction, he⟩
        · rwa [he]
        · exact (FeedbackLoop.step_cases he).crashed hc
      have hd := (drained_reach (core_reach hreach) htype).resolve_left hbefore
      obtain ⟨hnamed, hagreed⟩ := (agreed_reach hreach htype).resolve_left hbefore
      refine .inr fun a => ?_
      rcases hs.link hguard hnamed hd (traced_reach (core_reach hreach)) halive htype a with he | hlink
      · rw [he]
        exact (ih htype).resolve_left hbefore a
      · exact ((ih htype).resolve_left hbefore a).step hlink (hagreed a)

theorem keptApart_of_told (htold : ∀ a, (view s a).Told) (hnew : s.core.point = .stages →
    s.core.core.pendingDataPlaneSessions > 0 →
    ∀ info ∈ s.core.core.localToDataQueue.head?, info.key ∉ s.core.core.stageInfoDetailed) :
    KeptApart s.core .loop := by
  refine ⟨hnew, fun address _ _ session hsession result hresult key hkey => ?_⟩
  obtain ⟨rule, response⟩ := result
  cases response with
  | ack responseType value => cases hkey
  | handshake responseType => cases hkey
  | stats responseType rates =>
    have hmem : (rule, StageResponse.stats responseType rates) ∈ session.completionQueue :=
      List.mem_of_mem_head? hresult
    refine htold address {k | k ∈ rates} {k | rates.lookup k = some (-1)} ?_ (AList.mem_keys.mpr hkey)
    simp only [view, link, sessionOf_of_lookup hsession]
    exact List.mem_map_of_mem (f := fun e => answerOf e.2) hmem

theorem Orderly.sound {action : Action} (h : Orderly s action) (hreach : machine.Reach Orderly s)
    (htype : s.core.core.controlType ≠ .dynamicLeftover) (halive : ¬ s.core.Crashed) (hs : Step s action t) :
    t.core = s.core ∨ ∃ coreAction, s.core.step coreAction = some t.core ∧ Sound s.core coreAction := by
  have hdistinct := hreach.mono fun _ _ horderly => And.left horderly
  have hquiet : ∀ coreAction : FeedbackLoop.Action, (∀ info, coreAction ≠ .enqueueStage info) →
      coreAction ≠ .loop → (∀ rule, coreAction ≠ .enqueueRule rule) → Sound s.core coreAction := by
    intro coreAction hstage hloop hrule
    cases coreAction with
    | enqueueStage info => exact absurd rfl (hstage info)
    | loop => exact absurd rfl hloop
    | enqueueRule rule => exact absurd rfl (hrule rule)
    | _ => exact ⟨trivial, trivial, trivial, by simp⟩
  cases hs with
  | core action core hserve hstage hstep =>
    refine .inr ⟨action, hstep, ?_⟩
    cases action with
    | loop =>
      obtain ⟨hnew, hsettled, huntangled⟩ := h.2
      have htold := (told_reach hdistinct htype).resolve_left halive
      have hround := (idle_reach (core_reach hreach)).1 htype
      exact ⟨keptApart_of_told htold hnew, hsettled,
        ⟨fun address _ => s.core.openRequest_nil hround address, huntangled⟩, by simp⟩
    | enqueueRule rule =>
      refine ⟨trivial, trivial, trivial, ?_⟩
      rintro _ ⟨⟩
      exact h.2
    | enqueueStage info => exact absurd rfl (hstage info)
    | _ => exact hquiet _ (by simp) (by simp) (by simp)
  | served address rule rest outside app reply session hsession hqueue hcall =>
    refine .inr ⟨.serve address reply, ?_, hquiet _ (by simp) (by simp) (by simp)⟩
    simp only [FeedbackLoop.Process.step, hsession, LocalControllerSession.serve, hqueue, Option.map_some]
  | stage address action process hstep hquiet => exact .inl rfl
  | announced address info acknowledged ready hpoint =>
    obtain ⟨hnamed, _⟩ := (agreed_reach hdistinct htype).resolve_left halive
    have hown := (hnamed.offered address info (by rw [hpoint]; rfl)).1
    refine .inr ⟨.enqueueStage info, rfl, trivial, ?_, trivial, by simp⟩
    rw [Settled, hown]
    exact h.2

theorem sound_reach (h : machine.Reach Orderly s) (htype : s.core.core.controlType ≠ .dynamicLeftover) :
    FeedbackLoop.machine.Reach Sound s.core := by
  induction h with
  | start h => exact .start h.1
  | @step s t action hreach horderly hstep ih =>
    have hs := step_cases hstep
    have hsame : t.core.core.controlType = s.core.core.controlType := by
      rcases hs.core_step with he | ⟨coreAction, he⟩
      · rw [he]
      · exact (FeedbackLoop.step_cases he).configured.controlType
    have hbefore := ih (hsame ▸ htype)
    rcases horderly.sound hreach (hsame ▸ htype) (alive_reach hbefore) hs with he | ⟨coreAction, he, hsound⟩
    · rw [he]
      exact hbefore
    · exact hbefore.step hsound he

end ControlPlane

end Cheferd
