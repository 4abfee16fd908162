import Cheferd.MembershipLink

namespace Cheferd.ControlPlane

open Library Library.Membership CoreControlApplication FeedbackLoop
open LocalFeedbackLoop (offeredBy Offers step_offers)

variable {s t : ControlPlane} {p q : FeedbackLoop.Process}

theorem mem_localToDataQueue {action : FeedbackLoop.Action} (h : FeedbackLoop.Step p action q)
    (hstage : ∀ info, action ≠ .enqueueStage info) {info : StageInfo} (hi : info ∈ q.core.localToDataQueue) :
    info ∈ p.core.localToDataQueue := by
  cases h with
  | enqueueStage info => exact absurd rfl (hstage info)
  | loop h =>
    cases h.coreStep with
    | still h => rwa [h.localToDataQueue] at hi
    | localTaken address rest session hpoint hqueue h => rwa [h.localToDataQueue] at hi
    | stageTaken info' rest hpoint hqueue hsession h =>
      rw [h.localToDataQueue] at hi
      rw [hqueue]
      exact List.mem_cons_of_mem _ hi
    | collected address response rest collection collection' core hpoint hcore h =>
      rwa [(collectStatisticsResult_forgets h).frame, hcore.localToDataQueue] at hi
  | _ => exact hi

/-- The keys of the stages that connect have no '|', the separator of the rules that carry them. -/
def PlainKeys (_ : ControlPlane) : Action → Prop
  | .stage _ (.handshake info) => info.stageName ≠ "" → '|' ∉ info.key.toList
  | _ => True

instance : ∀ s action, Decidable (PlainKeys s action)
  | _, .stage _ (.handshake info) => inferInstanceAs (Decidable (info.stageName ≠ "" → '|' ∉ info.key.toList))
  | _, .core _ | _, .serve _ _ | _, .stage _ .submit | _, .stage _ (.acknowledge _) | _, .stage _ .count
  | _, .stage _ (.ready _) | _, .stage _ .connect => inferInstanceAs (Decidable True)

structure Named (s : ControlPlane) : Prop where
  offered : ∀ address info, offeredBy (s.locals address).point = some info →
    info.localAddress = address ∧ '|' ∉ info.key.toList
  announced : ∀ info ∈ s.core.core.localToDataQueue, '|' ∉ info.key.toList

theorem localAction_handshake {address : String} {a : LocalFeedbackLoop.Action} {info : StageInfo}
    (h : localAction address a = .handshake info) :
    ∃ info', a = .handshake info' ∧ info = { info' with localAddress := address } := by
  cases a with
  | handshake info' => exact ⟨info', rfl, (LocalFeedbackLoop.Action.handshake.inj h).symm⟩
  | _ => cases h

theorem Step.offers {address : String} {action : LocalFeedbackLoop.Action}
    {process : LocalFeedbackLoop.LocalProcess}
    (h : (s.locals address).step (localAction address action) = some process)
    (hquiet : ∀ info acknowledged ready, (s.locals address).point = .connecting info acknowledged ready →
      action ≠ .connect) : Offers (s.locals address) process (localAction address action) := by
  refine step_offers h fun info acknowledged ready hpoint hconnect => hquiet info acknowledged ready hpoint ?_
  cases action <;> first | rfl | cases hconnect

theorem Named.step {action : Action} (h : Step s action t) (hguard : PlainKeys s action) (hs : s.Named) :
    t.Named := by
  have hlocal : ∀ {address process}, (∀ info, offeredBy process.point = some info →
        info.localAddress = address ∧ '|' ∉ info.key.toList) →
      ∀ a info, offeredBy ((Function.update s.locals address process) a).point = some info →
        info.localAddress = a ∧ '|' ∉ info.key.toList := by
    intro address process hown a info hinfo
    by_cases ha : a = address
    · subst ha
      rw [Function.update_self] at hinfo
      exact hown info hinfo
    · rw [Function.update_of_ne ha] at hinfo
      exact hs.offered a info hinfo
  cases h with
  | core action core hserve hstage h =>
    exact ⟨hs.offered, fun info hi =>
      hs.announced info (mem_localToDataQueue (FeedbackLoop.step_cases h) hstage hi)⟩
  | served address rule rest outside app reply session hsession hqueue hcall =>
    exact ⟨hlocal fun info hinfo => hs.offered address info hinfo, hs.announced⟩
  | stage address action process h hquiet =>
    refine ⟨hlocal fun info hinfo => ?_, hs.announced⟩
    cases Step.offers h hquiet with
    | kept happ hoffered => exact hs.offered address info (hoffered ▸ hinfo)
    | started info' haction hidle hnew hoffered happ =>
      obtain ⟨stage, rfl, rfl⟩ := localAction_handshake haction
      rw [hoffered] at hinfo
      split at hinfo
      · cases hinfo
      case isFalse hname =>
        cases hinfo
        exact ⟨rfl, hguard hname⟩
    | abandoned info' hbusy hprepared hoffered happ =>
      rw [hoffered] at hinfo
      cases hinfo
  | announced address info acknowledged ready hpoint =>
    have hown := hs.offered address info (by rw [hpoint]; rfl)
    refine ⟨hlocal fun _ hinfo => (nomatch hinfo), fun other ho => ?_⟩
    rcases List.mem_append.mp ho with ho | ho
    · exact hs.announced other ho
    · rw [List.mem_singleton.mp ho]
      exact hown.2

variable {process : LocalFeedbackLoop.LocalProcess} {core : CoreControlApplication} {a : String}

theorem link_served {session : LocalControllerSession} {rule : String} {rest : List String}
    (hsession : core.localSessions.lookup a = some session) (response : StageResponse)
    (app : LocalControlApplication) :
    link { core with
        localSessions := core.localSessions.insert a ⟨rest, session.completionQueue ++ [(rule, response)]⟩ }
        { process with app := app } a =
      { link core process a with
        requests := rest.map requestOf
        answers := (link core process a).answers ++ [answerOf response]
        held := {k | k ∈ app.dataSessions}
        preparing := {k | k ∈ app.preparingDataSessions} } := by
  have hafter : sessionOf { core with
      localSessions := core.localSessions.insert a ⟨rest, session.completionQueue ++ [(rule, response)]⟩ } a =
        ⟨rest, session.completionQueue ++ [(rule, response)]⟩ := sessionOf_of_lookup (AList.lookup_insert _)
  simp only [link, hafter, sessionOf_of_lookup hsession, List.map_append, List.map_cons, List.map_nil]
  rfl

theorem serve_link {outside : Surroundings} {app : LocalControlApplication} {reply : Reply} {rule : String}
    {rest : List String} {session : LocalControllerSession} {response : StageResponse}
    (hsubmits : p.Submits rule) (hsession : core.localSessions.lookup a = some session)
    (hqueue : session.submissionQueue = rule :: rest)
    (hcall : LocalInterface.call outside rule process.app = .ok (app, reply))
    (hresponse : LocalControllerSession.sendRule rule reply = some response) :
    (link core process a).Step (link { core with
      localSessions := core.localSessions.insert a ⟨rest, session.completionQueue ++ [(rule, response)]⟩ }
      { process with app := app } a) := by
  have hrequests : (link core process a).requests = requestOf rule :: rest.map requestOf := by
    simp only [link, sessionOf_of_lookup hsession, hqueue, List.map_cons]
  rw [link_served hsession]
  by_cases hready : LocalControllerSession.operationType rule = some 1
  · obtain ⟨key, hkey, rfl⟩ := LocalInterface.call_markStageReady hready hcall
    obtain ⟨hheld, hpreparing⟩ := LocalControlApplication.markStageReady_keys key process.app
    have hrequest : requestOf rule = .ready key := by
      unfold requestOf
      simp only [hready, hkey]
    have hother : answerOf response = .other := answerOf_ack ⟨reply, hresponse⟩ (by rw [hready]; decide)
    rw [hrequest] at hrequests
    have hstep := Link.Step.grant key _ hrequests
    convert hstep using 2
    · rw [hother]
    · exact Set.ext hheld
    · exact Set.ext hpreparing
  · by_cases hstats : LocalControllerSession.operationType rule = some 3
    · obtain rfl := hsubmits.resolve_left fun hne => hne hstats
      rw [requestOf_collectStatistics] at hrequests
      rw [sendRule_collectStatistics p.subtype_cases] at hresponse
      rw [call_collectStatistics p.subtype_cases] at hcall
      cases hcall
      cases hresponse
      obtain ⟨hpreparing, hheld⟩ := LocalControlApplication.collectGlobalStatistics_keys outside process.app
      have hmembers : {k | k ∈ (process.app.collectGlobalStatistics outside).2} =
          {k | k ∈ process.app.dataSessions} := by
        ext k
        change k ∈ (process.app.collectGlobalStatistics outside).2 ↔ k ∈ process.app.dataSessions
        rw [← AList.lookup_isSome, LocalControlApplication.collectGlobalStatistics_lookup]
        split <;> simp [*]
      have hstep := Link.Step.report {k | (process.app.collectGlobalStatistics outside).2.lookup k =
        some (-1)} _
        hrequests fun k hk => by
          change k ∈ {k | k ∈ process.app.dataSessions}
          rw [← hmembers]
          exact AList.lookup_isSome.mp (by rw [show _ = some (-1 : ℚ) from hk]; rfl)
      convert hstep using 2
      · rw [answerOf, hmembers]
        rfl
      · exact Set.ext hheld
      · rw [hpreparing]
        rfl
    · obtain ⟨hpreparing, hheld⟩ := LocalInterface.call_keys hready hstats hcall
      rw [requestOf_other hready hstats] at hrequests
      have hstep := Link.Step.reply _ hrequests
      convert hstep using 2
      · rw [answerOf_ack ⟨reply, hresponse⟩ hstats]
      · exact Set.ext hheld
      · rw [hpreparing]
        rfl

theorem offers_link {process' : LocalFeedbackLoop.LocalProcess} {action : LocalFeedbackLoop.Action}
    (h : Offers process process' action) :
    link core process' a = link core process a ∨ (link core process a).Step (link core process' a) := by
  cases h with
  | kept happ hoffered => exact .inl (by simp only [link, happ, hoffered])
  | started info haction hidle hnew hoffered happ =>
    right
    have hpreparing : {k | k ∈ process'.app.preparingDataSessions} =
        insert info.key {k | k ∈ process.app.preparingDataSessions} := by
      ext k
      rw [happ]
      exact AList.mem_insert _
    by_cases hname : info.stageName = ""
    · have hstep := Link.Step.prepare (l := link core process a) info.key
      convert hstep using 1
      simp only [link, hoffered, hidle, hname, if_true, hpreparing]
      rw [happ]
    · have hstep := Link.Step.offer (l := link core process a) info.key hnew (by rw [link, hidle]; rfl)
      convert hstep using 1
      simp only [link, hoffered, hname, if_false, hpreparing, Option.map_some]
      rw [happ]
  | abandoned info hbusy hprepared hoffered happ =>
    right
    have hpreparing : {k | k ∈ process'.app.preparingDataSessions} =
        {k | k ∈ process.app.preparingDataSessions} \ {info.key} := by
      ext k
      rw [happ, Set.mem_sdiff, Set.mem_singleton_iff]
      exact AList.mem_erase.trans and_comm
    have hstep := Link.Step.withdraw (l := link core process a) info.key (by rw [link, hbusy]; rfl)
    convert hstep using 1
    simp only [link, hoffered, hpreparing, Option.map_none]
    rw [happ]

theorem Step.link {action : Action} (h : Step s action t) (hguard : PlainKeys s action) (hnamed : s.Named)
    (hd : Drained s.core) (htraced : Traced s.core) (halive : ¬ t.core.Crashed)
    (htype : s.core.core.controlType ≠ .dynamicLeftover) (a : String) :
    view t a = view s a ∨ (view s a).Step (view t a) := by
  cases h with
  | core action core hserve hstage h =>
    cases FeedbackLoop.step_cases h with
    | loop h => exact loopStep_link h halive hd hnamed.announced htype (s.locals a) a
    | served address reply session session' hsession h => exact absurd rfl (hserve address reply)
    | enqueueStage info => exact absurd rfl (hstage info)
    | _ => exact .inl rfl
  | served address rule rest outside app reply session hsession hqueue hcall =>
    have houtstanding : rule ∈ session.outstanding := by simp [LocalControllerSession.outstanding, hqueue]
    obtain ⟨response, hresponse⟩ := Option.isSome_iff_exists.mp
      ((hd.awaited address session hsession).supported rule houtstanding reply)
    rw [hresponse, Option.toList_some, List.map_cons, List.map_nil]
    by_cases ha : a = address
    · subst ha
      right
      have hsubmits := htraced.submitted a rule (by
        rw [sessionOf_of_lookup hsession, hqueue]
        exact List.mem_cons_self)
      have hstep := serve_link hsubmits hsession hqueue hcall hresponse
      simp only [view, setLocal, Function.update_self]
      exact hstep
    · refine .inl ?_
      simp only [view, setLocal, Function.update_of_ne ha]
      exact link_eq rfl rfl (sessionOf_congr (AList.lookup_insert_ne ha))
  | stage address action process h hquiet =>
    by_cases ha : a = address
    · subst ha
      simp only [view, setLocal, Function.update_self]
      exact offers_link (Step.offers h hquiet)
    · refine .inl ?_
      simp only [view, setLocal, Function.update_of_ne ha]
  | announced address info acknowledged ready hpoint =>
    have hown := (hnamed.offered address info (by rw [hpoint]; rfl)).1
    by_cases ha : a = address
    · subst ha
      right
      have hstep := Link.Step.announce (l := view s a) info.key (by rw [view, ControlPlane.link, hpoint]; rfl)
      convert hstep using 1
      simp only [view, ControlPlane.link, setLocal, Function.update_self, List.filter_append,
        List.map_append, hown,
        List.filter_cons, decide_true, if_true, List.filter_nil, List.map_cons, List.map_nil]
      rfl
    · have hother : ¬ info.localAddress = a := fun h => ha (h.symm.trans hown)
      refine .inl ?_
      simp only [view, setLocal, Function.update_of_ne ha]
      refine link_eq rfl ?_ rfl
      simp only [List.filter_append, List.filter_cons, hother, decide_false, Bool.false_eq_true, if_false,
        List.filter_nil, List.append_nil]

theorem agreed_reach (h : machine.Reach PlainKeys s) (htype : s.core.core.controlType ≠ .dynamicLeftover) :
    s.core.Crashed ∨ s.Named ∧ ∀ a, (view s a).Agreed := by
  induction h with
  | @start s h =>
    obtain ⟨⟨_, _, _, _, core, hops, hcore⟩, ⟨rules, hlocals⟩, _⟩ := h
    obtain ⟨ops, op, rfl⟩ := initializeOps_ok hops
    refine .inr ⟨⟨fun a info hinfo => ?_, fun info hinfo => ?_⟩, fun a => ?_⟩
    · rw [hlocals] at hinfo
      cases hinfo
    · rw [hcore] at hinfo
      cases hinfo
    · have hview : view s a = ⟨∅, [], [], [], ∅, ∅, none⟩ := by
        rw [view, hcore, hlocals]
        refine Link.ext (Set.ext fun k => ?_) rfl rfl rfl (Set.ext fun k => ?_) (Set.ext fun k => ?_) rfl <;>
          exact ⟨fun hk => absurd hk List.not_mem_nil, fun hk => absurd hk (Set.notMem_empty k)⟩
      rw [hview]
      exact ⟨by simp, by simp, by simp, by simp, by simp [Link.flight], by simp [Link.flight]⟩
  | @step s t action hreach hguard hstep ih =>
    have hs := step_cases hstep
    have hsame : t.core.core.controlType = s.core.core.controlType := by
      rcases hs.core_step with he | ⟨coreAction, he⟩
      · rw [he]
      · exact (FeedbackLoop.step_cases he).configured.controlType
    rw [hsame] at htype
    have hcrash : s.core.Crashed → t.core.Crashed := fun hc => by
      rcases hs.core_step with he | ⟨coreAction, he⟩
      · rwa [he]
      · exact (FeedbackLoop.step_cases he).crashed hc
    by_cases halive : t.core.Crashed
    · exact .inl halive
    · obtain ⟨hnamed, hagreed⟩ := (ih htype).resolve_left fun hc => halive (hcrash hc)
      have hd := (drained_reach (core_reach hreach) htype).resolve_left fun hc => halive (hcrash hc)
      refine .inr ⟨hnamed.step hs hguard, fun a => ?_⟩
      rcases hs.link hguard hnamed hd (traced_reach (core_reach hreach)) halive htype a with he | hlink
      · rw [he]
        exact hagreed a
      · exact (hagreed a).step hlink

theorem stages_agree (h : machine.Reach PlainKeys s)
    (htype : s.core.core.controlType = .static ∨ s.core.core.controlType = .dynamicVanilla)
    (hpoint : s.core.point = .finish) (a key : String) :
    key ∈ s.core.core.stagesOf a ↔ key ∈ (s.locals a).app.dataSessions := by
  have htype' : s.core.core.controlType ≠ .dynamicLeftover := by
    rcases htype with htype | htype <;> simp [htype]
  have halive : ¬ s.core.Crashed := by simp [FeedbackLoop.Process.Crashed, hpoint]
  have hd := (drained_reach (core_reach h) htype').resolve_left halive
  have hagreed := ((agreed_reach h htype').resolve_left halive).2 a
  have hquiet : (view s a).Quiet :=
    quiet_of_new (Drained.sessionOf_new hd fun o ho => by rwa [FeedbackLoop.Process.Awaited, hpoint] at ho)
  exact Set.ext_iff.mp (hagreed.quiet hquiet) key

theorem stages_agree_one_stage :
    ∃ s, machine.Reach PlainKeys s ∧ s.core.point = .finish ∧ s.core.core.stagesOf "A" = ["j+1"] ∧
      ("j+1" ∈ s.core.core.stagesOf "A" ↔ "j+1" ∈ (s.locals "A").app.dataSessions) := by
  obtain ⟨s, hs, htype, hpoint, hstages⟩ : ∃ s, machine.Reach PlainKeys s ∧
      s.core.core.controlType = .static ∧ s.core.point = .finish ∧ s.core.core.stagesOf "A" = ["j+1"] :=
    reach_of_run .static 100 ((firstRound (reporting fun _ => 7)).take 21 ++ List.replicate 4 (.core .loop))
      (by decide +kernel)
  exact ⟨s, hs, hpoint, hstages, stages_agree hs (.inl htype) hpoint "A" "j+1"⟩

end Cheferd.ControlPlane
