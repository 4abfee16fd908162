import Cheferd.LocalMembership
import Cheferd.LocalThreads

namespace Cheferd.LocalThreads

open Library LocalControlApplication
open LocalFeedbackLoop (offeredBy Offers step_offers)

variable {s t : Controller} {rules : List String}

def manages (app : LocalControlApplication) (key : String) : Bool :=
  key ∈ app.preparingDataSessions ∨ key ∈ app.dataSessions

namespace Controller

def managed (s : Controller) : List String := s.announced.filter (manages s.process.app)

def dying (s : Controller) : List String := s.call.elim [] Collecting.sessionsToDelete

def arriving (s : Controller) : ℤ := if s.point = .registered then 1 else 0

def offered (s : Controller) : Option String :=
  if s.point = .handling then (offeredBy s.process.point).map StageInfo.key else none

def holds (s : Controller) (key : String) : Bool :=
  key ∈ s.process.app.dataSessions ∨ key ∈ s.process.app.preparingDataSessions ∧ s.offered ≠ some key

end Controller

structure Tallied (s : Controller) : Prop where
  announced : s.announced.Nodup
  named : ∀ key ∈ s.announced, ∃ info : StageInfo, info.stageName ≠ "" ∧ key = info.key
  held : ∀ key ∈ s.process.app.dataSessions, key ∈ s.announced ∧
    (key ∈ s.process.app.preparingDataSessions → s.offered = some key)
  collecting : ∀ c, s.call = some c → (c.sessionsToDelete ++ c.todo).Nodup ∧
    ∀ key ∈ c.sessionsToDelete ++ c.todo, key ∈ s.process.app.dataSessions
  idle : s.point ≠ .handling → s.point ≠ .registered → s.process.point = .idle
  offers : s.point = .handling → ∀ info, offeredBy s.process.point = some info →
    info.stageName ≠ "" ∧ info.key ∈ s.process.app.preparingDataSessions
  count : s.activeDataPlaneSessions + s.arriving + s.dying.length = (s.announced.filter s.holds).length

def Stuck (s : Controller) : Prop :=
  s.point = .handling ∧ ∃ info, offeredBy s.process.point = some info ∧ info.key ∈ s.announced ∧
    info.key ∉ s.process.app.preparingDataSessions

theorem length_filter_without {l : List String} {p p' : String → Bool} {key : String} (hnodup : l.Nodup)
    (hmem : key ∈ l) (hp : p key = true) (hp' : p' key = false) (hother : ∀ k ∈ l, k ≠ key → p' k = p k) :
    (l.filter p').length + 1 = (l.filter p).length := by
  have herase : l.filter p' = (l.filter p).erase key := by
    rw [(hnodup.filter _).erase_eq_filter, List.filter_filter]
    apply List.filter_congr
    intro k hk
    by_cases he : k = key
    · simp [he, hp']
    · simp [he, hother k hk he]
  have hfound : key ∈ l.filter p := List.mem_filter.mpr ⟨hmem, hp⟩
  rw [herase, List.length_erase_of_mem hfound]
  have := List.length_pos_of_mem hfound
  omega

theorem connect_cases {process process' : LocalFeedbackLoop.LocalProcess}
    (h : process.step .connect = some process') :
    process'.app = process.app ∧ process'.point = .idle := by
  unfold LocalFeedbackLoop.LocalProcess.step at h
  cases hpoint : process.point with
  | connecting info acknowledged ready =>
    simp only [hpoint] at h
    cases h
    exact ⟨rfl, rfl⟩
  | _ => simp [hpoint] at h

theorem Controller.offered_of_point (h : s.point ≠ .handling) : s.offered = none := if_neg h

theorem Controller.offered_handling (h : s.point = .handling) :
    s.offered = (offeredBy s.process.point).map StageInfo.key := if_pos h

theorem offered_continued (process : LocalFeedbackLoop.LocalProcess) :
    Controller.offered
      { s with process := process, point := if process.point = .idle then .pending else .handling } =
      (offeredBy process.point).map StageInfo.key := by
  unfold Controller.offered
  by_cases hidle : process.point = .idle
  · simp [hidle, offeredBy]
  · simp [hidle]

namespace Tallied

theorem same (hs : Tallied s) (hprocess : t.process = s.process) (hpoint : t.point = s.point)
    (hannounced : t.announced = s.announced) (hcall : t.call = s.call)
    (hactive : t.activeDataPlaneSessions = s.activeDataPlaneSessions) : Tallied t := by
  have hoffered : t.offered = s.offered := by rw [Controller.offered, Controller.offered, hprocess, hpoint]
  have hholds : t.holds = s.holds := by
    funext key
    simp only [Controller.holds, hprocess, hoffered]
  refine ⟨hannounced ▸ hs.announced, hannounced ▸ hs.named, ?_, ?_, ?_, ?_, ?_⟩
  · rw [hprocess, hannounced, hoffered]
    exact hs.held
  · rw [hprocess, hcall]
    exact hs.collecting
  · rw [hprocess, hpoint]
    exact hs.idle
  · rw [hprocess, hpoint]
    exact hs.offers
  · have hcount := hs.count
    simp only [Controller.arriving, Controller.dying] at hcount ⊢
    rw [hpoint, hannounced, hcall, hactive, hholds]
    exact hcount

theorem moved (hs : Tallied s) (hprocess : t.process = s.process) (hannounced : t.announced = s.announced)
    (hcall : t.call = s.call) (hactive : t.activeDataPlaneSessions = s.activeDataPlaneSessions)
    (hspoint : s.point ≠ .handling ∧ s.point ≠ .registered) (htpoint : t.point ≠ .registered) : Tallied t := by
  have hidle := hs.idle hspoint.1 hspoint.2
  have hsoffered : s.offered = none := Controller.offered_of_point hspoint.1
  have htoffered : t.offered = none := by
    unfold Controller.offered
    rw [hprocess, hidle]
    split <;> rfl
  have hholds : t.holds = s.holds := by
    funext key
    simp only [Controller.holds, hprocess, hsoffered, htoffered]
  refine ⟨hannounced ▸ hs.announced, hannounced ▸ hs.named, ?_, ?_, ?_, ?_, ?_⟩
  · rw [hprocess, hannounced, htoffered, ← hsoffered]
    exact hs.held
  · rw [hprocess, hcall]
    exact hs.collecting
  · intro _ _
    rw [hprocess, hidle]
  · intro _ info hinfo
    rw [hprocess, hidle] at hinfo
    cases hinfo
  · have hcount := hs.count
    simp only [Controller.arriving, if_neg hspoint.2] at hcount
    simp only [Controller.arriving, if_neg htpoint]
    unfold Controller.dying at hcount ⊢
    rw [hannounced, hcall, hactive, hholds]
    exact hcount

theorem loop (h : s.loop = some t) (hs : Tallied s) : Tallied t := by
  unfold Controller.loop at h
  split at h
  case h_1 hpoint =>
    split at h <;> cases h
    exact hs.moved rfl rfl rfl rfl (by simp [hpoint]) (by simp)
  case h_2 hpoint =>
    split at h <;> cases h <;> exact hs.moved rfl rfl rfl rfl (by simp [hpoint]) (by simp)
  case h_3 hpoint =>
    rcases CountedQueue.handle_cases h with ⟨next, _, _, rfl⟩ | ⟨_, _, rfl⟩ | ⟨socket, _, rfl⟩
    · exact hs.same rfl rfl rfl rfl rfl
    · exact hs.moved rfl rfl rfl rfl (by simp [hpoint]) (by simp)
    · exact hs.moved rfl rfl rfl rfl (by simp [hpoint]) (by simp)
  case h_4 hpoint =>
    obtain ⟨process, hprocess, rfl⟩ := Option.map_eq_some_iff.mp h
    obtain ⟨happ, hidle⟩ := connect_cases hprocess
    have hoffered : s.offered = none := Controller.offered_of_point (by simp [hpoint])
    refine ⟨hs.announced, hs.named, ?_, happ ▸ hs.collecting, fun _ _ => hidle, by simp, ?_⟩
    · intro key hkey
      rw [happ] at hkey ⊢
      refine ⟨(hs.held key hkey).1, fun hprepared => ?_⟩
      exact absurd ((hs.held key hkey).2 hprepared) (by simp [hoffered])
    · have hcount := hs.count
      simp only [Controller.arriving, hpoint, if_true] at hcount
      simp only [Controller.arriving, reduceCtorEq, if_false, add_zero]
      refine hcount.trans ?_
      congr 3
      funext key
      simp only [Controller.holds, happ, hoffered]
      rfl
  case h_5 => cases h
  case h_6 => cases h

theorem continued (hs : Tallied s) (hpoint : s.point = .handling) {process : LocalFeedbackLoop.LocalProcess}
    (hdata : process.app.dataSessions = s.process.app.dataSessions)
    (hprepared : ∀ key ∈ s.announced, (key ∈ process.app.preparingDataSessions ∧
      (offeredBy process.point).map StageInfo.key ≠ some key ↔
        key ∈ s.process.app.preparingDataSessions ∧ s.offered ≠ some key))
    (hoffers : ∀ info, offeredBy process.point = some info →
      info.stageName ≠ "" ∧ info.key ∈ process.app.preparingDataSessions) :
    Tallied { s with process := process, point := if process.point = .idle then .pending else .handling } := by
  refine ⟨hs.announced, hs.named, ?_, ?_, ?_, fun _ => hoffers, ?_⟩
  · intro key hkey
    dsimp only at hkey ⊢
    rw [hdata] at hkey
    obtain ⟨hannounced, hheld⟩ := hs.held key hkey
    refine ⟨hannounced, fun hin => ?_⟩
    rw [offered_continued]
    by_contra hne
    obtain ⟨hbefore, hfree⟩ := (hprepared key hannounced).mp ⟨hin, hne⟩
    exact hfree (hheld hbefore)
  · dsimp only
    rw [hdata]
    exact hs.collecting
  · intro hne _
    by_contra hbusy
    exact hne (if_neg hbusy)
  · have hcount := hs.count
    have hcounted : (if process.point = .idle then LoopPoint.pending else .handling) ≠ .registered := by
      split <;> simp
    simp only [Controller.arriving, hpoint, reduceCtorEq, if_false] at hcount
    simp only [Controller.arriving, if_neg hcounted]
    refine hcount.trans ?_
    congr 2
    apply List.filter_congr
    intro key hkey
    simp only [Controller.holds, offered_continued, hdata, hprepared key hkey]

theorem stage {action : LocalFeedbackLoop.Action} (h : s.stage action = some t) (hs : Tallied s) :
    Tallied t := by
  simp only [Controller.stage, Option.ite_none_right_eq_some, Option.map_eq_some_iff] at h
  obtain ⟨⟨hpoint, hconnect⟩, process, hprocess, rfl⟩ := h
  have hoffered := Controller.offered_handling hpoint
  cases step_offers hprocess fun _ _ _ _ => hconnect with
  | kept happ hsame =>
    refine hs.continued hpoint (by rw [happ]) ?_ ?_
    · intro key _
      rw [happ, hsame, hoffered]
    · rw [happ, hsame]
      exact hs.offers hpoint
  | started info haction hfree hnew hstarted happ =>
    rw [hfree] at hoffered
    refine hs.continued hpoint (by rw [happ]) ?_ ?_
    · intro key hkey
      rw [happ, hstarted, hoffered, AList.mem_insert]
      by_cases he : key = info.key
      · subst he
        have hname : info.stageName ≠ "" := by
          obtain ⟨other, hother, hsame⟩ := hs.named _ hkey
          rw [(stageKey_inj hsame).1]
          exact hother
        simp [hname, hnew]
      · have hne : (if info.stageName = "" then none else some info).map StageInfo.key ≠ some key := by
          split <;> simp [Ne.symm he]
        simp [he, hne]
    · intro info' hinfo
      rw [hstarted, Option.ite_none_left_eq_some] at hinfo
      obtain ⟨hname, hsame⟩ := hinfo
      cases hsame
      rw [happ]
      exact ⟨hname, (AList.mem_insert _).mpr (.inl rfl)⟩
  | abandoned info hbusy hprepared hfree happ =>
    rw [hbusy] at hoffered
    refine hs.continued hpoint (by rw [happ]) ?_ ?_
    · intro key _
      rw [happ, hfree, hoffered, AList.mem_erase]
      simp only [Option.map_none, Option.map_some, ne_eq, reduceCtorEq, not_false_eq_true, and_true,
        Option.some.injEq]
      tauto
    · intro info' hinfo
      rw [hfree] at hinfo
      cases hinfo

theorem holds_other {info : StageInfo} (hpoint : s.point = .handling)
    (hbusy : offeredBy s.process.point = some info) {key : String} (hne : key ≠ info.key) :
    s.holds key = manages s.process.app key := by
  have hoffered : s.offered ≠ some key := by
    rw [Controller.offered_handling hpoint, hbusy]
    simpa using hne.symm
  simp [Controller.holds, manages, hoffered, or_comm]

theorem register (h : s.register = some t)
    (hdistinct : ∀ info ∈ offeredBy s.process.point, info.key ∉ s.announced)
    (hs : Tallied s) : Tallied t := by
  unfold Controller.register at h
  split at h
  · rename_i info acknowledged ready hpoint hconnecting
    cases h
    have hbusy : offeredBy s.process.point = some info := by rw [hconnecting]; rfl
    obtain ⟨hname, hprepared⟩ := hs.offers hpoint info hbusy
    have hnew := hdistinct info hbusy
    have hoffered : s.offered = some info.key := by rw [Controller.offered_handling hpoint, hbusy]; rfl
    refine ⟨List.nodup_cons.mpr ⟨hnew, hs.announced⟩, ?_, ?_, hs.collecting,
      fun _ hne => absurd rfl hne, by simp, ?_⟩
    · exact List.forall_mem_cons.mpr ⟨⟨info, hname, rfl⟩, hs.named⟩
    · intro key hkey
      obtain ⟨hannounced, hheld⟩ := hs.held key hkey
      refine ⟨List.mem_cons_of_mem _ hannounced, fun hin => ?_⟩
      rw [hoffered] at hheld
      exact absurd hannounced (Option.some.inj (hheld hin) ▸ hnew)
    · have hcount := hs.count
      have hkept : s.announced.filter (Controller.holds
          { s with point := .registered, announced := info.key :: s.announced }) =
          s.announced.filter s.holds := by
        apply List.filter_congr
        intro key hkey
        rw [holds_other hpoint hbusy fun he => hnew (he ▸ hkey)]
        simp [Controller.holds, Controller.offered, manages, or_comm]
      have hcounted : Controller.holds
          { s with point := .registered, announced := info.key :: s.announced } info.key = true := by
        simp [Controller.holds, Controller.offered, hprepared]
      simp only [Controller.arriving, hpoint, reduceCtorEq, if_false] at hcount
      simp only [Controller.arriving, if_true, List.filter_cons_of_pos hcounted, hkept, List.length_cons]
      push_cast
      change _ + _ + (s.dying.length : ℤ) = _
      omega
  · cases h

theorem refuse (h : s.refuse = some t) (hdistinct : ∀ info ∈ offeredBy s.process.point, info.key ∉ s.announced)
    (hs : Tallied s) : Tallied t := by
  unfold Controller.refuse at h
  split at h
  · rename_i info acknowledged ready hpoint hconnecting
    obtain ⟨process, hprocess, rfl⟩ := Option.map_eq_some_iff.mp h
    obtain ⟨happ, hidle⟩ := connect_cases hprocess
    have hbusy : offeredBy s.process.point = some info := by rw [hconnecting]; rfl
    have hnew := hdistinct info hbusy
    have hoffered : s.offered = some info.key := by rw [Controller.offered_handling hpoint, hbusy]; rfl
    refine ⟨hs.announced, hs.named, ?_, happ ▸ hs.collecting, fun _ _ => hidle, by simp, ?_⟩
    · intro key hkey
      rw [happ] at hkey ⊢
      obtain ⟨hannounced, hheld⟩ := hs.held key hkey
      refine ⟨hannounced, fun hin => ?_⟩
      rw [hoffered] at hheld
      exact absurd hannounced (Option.some.inj (hheld hin) ▸ hnew)
    · have hcount := hs.count
      simp only [Controller.arriving, hpoint, reduceCtorEq, if_false] at hcount
      simp only [Controller.arriving, reduceCtorEq, if_false]
      refine hcount.trans ?_
      congr 2
      apply List.filter_congr
      intro key hkey
      rw [holds_other hpoint hbusy fun he => hnew (he ▸ hkey)]
      simp [Controller.holds, Controller.offered, manages, happ, or_comm]
  · cases h

theorem markStageReady {key : String} (hkey : key ∈ s.announced) (hs : Tallied s) :
    Stuck (s.withApp (s.process.app.markStageReady key).1) ∨
      Tallied (s.withApp (s.process.app.markStageReady key).1) := by
  obtain ⟨hdata, hpreparing⟩ := markStageReady_keys key s.process.app
  by_cases hoffered : s.offered = some key
  · left
    have hpoint : s.point = .handling := by
      by_contra hne
      rw [Controller.offered_of_point hne] at hoffered
      cases hoffered
    rw [Controller.offered_handling hpoint] at hoffered
    obtain ⟨info, hinfo, rfl⟩ := Option.map_eq_some_iff.mp hoffered
    exact ⟨hpoint, info, hinfo, hkey, fun hin => ((hpreparing _).mp hin).2 rfl⟩
  · right
    refine ⟨hs.announced, hs.named, ?_, ?_, hs.idle, ?_, ?_⟩
    · intro k hk
      rcases (hdata k).mp hk with hk | ⟨rfl, _⟩
      · obtain ⟨hannounced, hheld⟩ := hs.held k hk
        exact ⟨hannounced, fun hin => hheld ((hpreparing k).mp hin).1⟩
      · exact ⟨hkey, fun hin => absurd rfl ((hpreparing k).mp hin).2⟩
    · intro c hc
      obtain ⟨hnodup, hheld⟩ := hs.collecting c hc
      exact ⟨hnodup, fun k hk => (hdata k).mpr (.inl (hheld k hk))⟩
    · intro hpoint info hinfo
      obtain ⟨hname, hprepared⟩ := hs.offers hpoint info hinfo
      refine ⟨hname, (hpreparing info.key).mpr ⟨hprepared, ?_⟩⟩
      rintro rfl
      have hhandling : s.point = .handling := hpoint
      have hbusy : offeredBy s.process.point = some info := hinfo
      exact hoffered (by rw [Controller.offered_handling hhandling, hbusy]; rfl)
    · refine hs.count.trans ?_
      congr 3
      funext k
      have hsame : (s.withApp (s.process.app.markStageReady key).1).offered = s.offered := rfl
      simp only [Controller.holds, hsame, decide_eq_decide]
      change _ ↔ k ∈ (s.process.app.markStageReady key).1.dataSessions ∨
        k ∈ (s.process.app.markStageReady key).1.preparingDataSessions ∧ _
      rw [hdata, hpreparing]
      by_cases hk : k = key
      · subst hk
        tauto
      · tauto

theorem sessionOrder_spec (s : Controller) (order : Traversal String) :
    (s.sessionOrder order).Nodup ∧ ∀ key ∈ s.sessionOrder order, key ∈ s.process.app.dataSessions := by
  refine ⟨(order.perm _).nodup_iff.mpr (AList.keys_nodup _), ?_⟩
  intro key hkey
  exact AList.mem_keys.mpr ((order.perm _).mem_iff.mp hkey)

theorem called (hs : Tallied s) {c : Option Collecting} {replies : List (Assoc String ℚ)}
    (hcollecting : ∀ c', c = some c' → (c'.sessionsToDelete ++ c'.todo).Nodup ∧
      ∀ key ∈ c'.sessionsToDelete ++ c'.todo, key ∈ s.process.app.dataSessions)
    (hdying : c.elim [] Collecting.sessionsToDelete = s.dying) :
    Tallied { s with call := c, replies := replies } := by
  refine ⟨hs.announced, hs.named, hs.held, hcollecting, hs.idle, hs.offers, ?_⟩
  have hcount := hs.count
  rw [← hdying] at hcount
  exact hcount

theorem sample {rate : ℚ} (h : s.sample rate = some t) (hs : Tallied s) : Tallied t := by
  unfold Controller.sample at h
  split at h
  · cases h
  case h_2 c hcall =>
    split at h
    · cases h
    case h_2 key rest htodo =>
      cases h
      obtain ⟨hnodup, hheld⟩ := hs.collecting c hcall
      have hcount := hs.count
      rw [htodo] at hnodup hheld
      simp only [Controller.dying, hcall, Option.elim_some] at hcount
      by_cases hrate : rate = -1
      · refine ⟨hs.announced, hs.named, hs.held, ?_, hs.idle, hs.offers, ?_⟩
        · intro c' hc'
          cases hc'
          simp only [Collecting.sample, if_pos hrate, List.append_assoc, List.singleton_append]
          exact ⟨hnodup, hheld⟩
        · simp only [Controller.dying, Option.elim_some, Collecting.sample, if_pos hrate, List.length_append,
            List.length_singleton]
          change _ = ((s.announced.filter s.holds).length : ℤ)
          change _ - 1 + s.arriving + _ = _
          omega
      · refine ⟨hs.announced, hs.named, hs.held, ?_, hs.idle, hs.offers, ?_⟩
        · intro c' hc'
          cases hc'
          have hsub : (c.sessionsToDelete ++ rest).Sublist (c.sessionsToDelete ++ key :: rest) :=
            (List.sublist_cons_self key rest).append_left _
          simp only [Collecting.sample, if_neg hrate]
          exact ⟨hnodup.sublist hsub, fun k hk => hheld k (hsub.subset hk)⟩
        · simp only [Controller.dying, Option.elim_some, Collecting.sample, if_neg hrate]
          exact hcount

theorem eraseSession (h : s.eraseSession = some t) (hs : Tallied s) : Tallied t := by
  unfold Controller.eraseSession at h
  split at h
  · cases h
  case h_2 c hcall =>
    split at h
    case h_1 key rest htodo hdelete =>
      rw [Option.ite_none_left_eq_some] at h
      obtain ⟨-, h⟩ := h
      cases h
      obtain ⟨hnodup, hheld⟩ := hs.collecting c hcall
      rw [hdelete, htodo, List.append_nil] at hnodup hheld
      obtain ⟨hnotin, hnodup⟩ := List.nodup_cons.mp hnodup
      have hkey := hheld key (List.mem_cons_self)
      obtain ⟨hannounced, hset⟩ := hs.held key hkey
      refine ⟨hs.announced, hs.named, ?_, ?_, hs.idle, hs.offers, ?_⟩
      · intro k hk
        exact hs.held k (AList.mem_erase.mp hk).2
      · intro c' hc'
        cases hc'
        simp only [Collecting.erase, htodo, List.append_nil]
        refine ⟨hnodup, fun k hk => AList.mem_erase.mpr ⟨?_, hheld k (List.mem_cons_of_mem _ hk)⟩⟩
        rintro rfl
        exact hnotin hk
      · have hcount := hs.count
        let u : Controller := { s.withApp (deleteSession key s.process.app) with call := some (c.erase rest) }
        have hless : (s.announced.filter u.holds).length + 1 = (s.announced.filter s.holds).length := by
          have hsame : u.offered = s.offered := rfl
          refine length_filter_without hs.announced hannounced (by simp [Controller.holds, hkey])
            ?_ fun k _ hk => ?_
          · have hgone : key ∉ u.process.app.dataSessions := fun hin => (AList.mem_erase.mp hin).1 rfl
            simp only [Controller.holds, hgone, hsame, false_or, decide_eq_false_iff_not, not_and, not_not]
            exact hset
          · have hkept : k ∈ u.process.app.dataSessions ↔ k ∈ s.process.app.dataSessions :=
              AList.mem_erase.trans (and_iff_right hk)
            simp only [Controller.holds, hkept, hsame]
            rfl
        simp only [Controller.dying, hcall, Option.elim_some, hdelete, List.length_cons] at hcount
        change s.activeDataPlaneSessions + s.arriving + (rest.length : ℤ) =
          ((s.announced.filter u.holds).length : ℤ)
        omega
    · cases h

theorem nextRound {order : Traversal String} (h : s.nextRound order = some t) (hs : Tallied s) : Tallied t := by
  unfold Controller.nextRound at h
  split at h
  · cases h
  case h_2 c hcall =>
    split at h
    case h_1 htodo hdelete =>
      have hdying : s.dying = [] := by simp only [Controller.dying, hcall, Option.elim_some, hdelete]
      split at h <;> cases h
      · refine hs.called ?_ (by simp only [Option.elim_some, hdelete, hdying])
        intro c' hc'
        cases hc'
        simp only [hdelete, List.nil_append]
        exact sessionOrder_spec s order
      · exact hs.called (by simp) hdying.symm
    · cases h

end Tallied

/-- The keys of the announced stages are pairwise distinct; a call of `ConnectStageToGlobal` may fail for a
stage whose key is not announced. -/
def DistinctKeys (s : Controller) : Action → Prop
  | .register | .refuse => ∀ info ∈ offeredBy s.process.point, info.key ∉ s.announced
  | _ => True

instance : ∀ s action, Decidable (DistinctKeys s action)
  | _, .register | _, .refuse => inferInstanceAs (Decidable (∀ info ∈ _, _))
  | _, .stage _ | _, .enqueueStage _ | _, .countStage | _, .stop | _, .removeSession | _, .loop
  | _, .markStageReady _ | _, .collect _ _ | _, .sample _ | _, .erase | _, .nextRound _ =>
    inferInstanceAs (Decidable True)

theorem Tallied.step {action : Action} (h : s.step action = some t) (hdistinct : DistinctKeys s action)
    (hs : Tallied s) : Stuck t ∨ Tallied t := by
  cases action with
  | enqueueStage socket =>
    cases h
    exact .inr (hs.same rfl rfl rfl rfl rfl)
  | countStage =>
    simp only [Controller.step, Option.ite_none_right_eq_some] at h
    obtain ⟨_, h⟩ := h
    cases h
    exact .inr (hs.same rfl rfl rfl rfl rfl)
  | stop =>
    cases h
    exact .inr (hs.same rfl rfl rfl rfl rfl)
  | removeSession =>
    simp only [Controller.step, Option.ite_none_right_eq_some] at h
    obtain ⟨_, h⟩ := h
    split at h <;> cases h <;> exact .inr (hs.same rfl rfl rfl rfl rfl)
  | loop => exact .inr (hs.loop h)
  | stage action => exact .inr (hs.stage h)
  | register => exact .inr (hs.register h hdistinct)
  | refuse => exact .inr (hs.refuse h hdistinct)
  | markStageReady key =>
    simp only [Controller.step, Option.ite_none_right_eq_some] at h
    obtain ⟨hkey, h⟩ := h
    cases h
    exact hs.markStageReady hkey
  | collect aggregated order =>
    simp only [Controller.step] at h
    split at h <;> cases h
    case h_1 hcall =>
      refine .inr (hs.called ?_ (by simp only [Controller.dying, hcall]; rfl))
      intro c' hc'
      cases hc'
      exact Tallied.sessionOrder_spec s order
  | sample rate => exact .inr (hs.sample h)
  | erase => exact .inr (hs.eraseSession h)
  | nextRound order => exact .inr (hs.nextRound h)

theorem Stuck.step {action : Action} (h : s.step action = some t) (hdistinct : DistinctKeys s action)
    (hs : Stuck s) :
    Stuck t := by
  obtain ⟨hpoint, info, hbusy, hannounced, hgone⟩ := hs
  cases action with
  | enqueueStage socket =>
    cases h
    exact ⟨hpoint, info, hbusy, hannounced, hgone⟩
  | countStage =>
    simp only [Controller.step, Option.ite_none_right_eq_some] at h
    obtain ⟨_, h⟩ := h
    cases h
    exact ⟨hpoint, info, hbusy, hannounced, hgone⟩
  | stop =>
    cases h
    exact ⟨hpoint, info, hbusy, hannounced, hgone⟩
  | removeSession =>
    simp only [Controller.step, Option.ite_none_right_eq_some] at h
    obtain ⟨_, h⟩ := h
    split at h <;> cases h <;> exact ⟨hpoint, info, hbusy, hannounced, hgone⟩
  | loop =>
    simp only [Controller.step, Controller.loop, hpoint] at h
    cases h
  | stage action =>
    simp only [Controller.step, Controller.stage, Option.ite_none_right_eq_some, Option.map_eq_some_iff] at h
    obtain ⟨⟨_, hconnect⟩, process, hprocess, rfl⟩ := h
    cases step_offers hprocess fun _ _ _ _ => hconnect with
    | kept happ hsame =>
      have hbusy' : offeredBy process.point = some info := hsame.trans hbusy
      have hnotidle : process.point ≠ .idle := by
        intro hidle
        rw [hidle] at hbusy'
        cases hbusy'
      exact ⟨if_neg hnotidle, info, hbusy', hannounced, happ ▸ hgone⟩
    | started other haction hfree => simp [hbusy] at hfree
    | abandoned other hbusy' hprepared =>
      rw [hbusy] at hbusy'
      cases hbusy'
      exact absurd hprepared hgone
  | register => exact absurd hannounced (hdistinct info hbusy)
  | refuse => exact absurd hannounced (hdistinct info hbusy)
  | markStageReady key =>
    simp only [Controller.step, Option.ite_none_right_eq_some] at h
    obtain ⟨_, h⟩ := h
    cases h
    refine ⟨hpoint, info, hbusy, hannounced, fun hin => hgone ?_⟩
    exact (((markStageReady_keys key s.process.app).2 info.key).mp hin).1
  | collect aggregated order =>
    simp only [Controller.step] at h
    split at h <;> cases h
    exact ⟨hpoint, info, hbusy, hannounced, hgone⟩
  | sample rate =>
    simp only [Controller.step, Controller.sample] at h
    split at h
    · cases h
    · split at h <;> cases h
      exact ⟨hpoint, info, hbusy, hannounced, hgone⟩
  | erase =>
    simp only [Controller.step, Controller.eraseSession] at h
    split at h
    · cases h
    · split at h
      · split at h <;> cases h
        exact ⟨hpoint, info, hbusy, hannounced, hgone⟩
      · cases h
  | nextRound order =>
    simp only [Controller.step, Controller.nextRound] at h
    split at h
    · cases h
    · split at h
      · split at h <;> cases h <;> exact ⟨hpoint, info, hbusy, hannounced, hgone⟩
      · cases h

theorem tallied_reach (h : (machine rules).Reach DistinctKeys s) : Stuck s ∨ Tallied s := by
  refine h.invariant (I := fun s => Stuck s ∨ Tallied s) ?_ fun s t action hs hdistinct hstep => ?_
  · rintro s rfl
    exact .inr ⟨List.nodup_nil, nofun, nofun, nofun, fun _ _ => rfl, nofun, rfl⟩
  · rcases hs with hs | hs
    · exact .inl (hs.step hstep hdistinct)
    · exact hs.step hstep hdistinct

theorem Tallied.dying_managed (hs : Tallied s) : s.dying.Nodup ∧ ∀ key ∈ s.dying, key ∈ s.managed := by
  unfold Controller.dying
  cases hcall : s.call with
  | none => exact ⟨List.nodup_nil, nofun⟩
  | some c =>
    obtain ⟨hnodup, hheld⟩ := hs.collecting c hcall
    refine ⟨(List.nodup_append.mp hnodup).1, ?_⟩
    intro key hkey
    have hin := hheld key (List.mem_append_left _ hkey)
    exact List.mem_filter.mpr ⟨(hs.held key hin).1, by simp [manages, hin]⟩

theorem filter_holds (hpoint : s.point = .condition) :
    s.announced.filter s.holds = s.managed := by
  apply List.filter_congr
  intro key _
  simp [Controller.holds, manages, Controller.offered_of_point (s := s) (by simp [hpoint]), or_comm]

theorem active_counts_managed (h : (machine rules).Reach DistinctKeys s) (hpoint : s.point = .condition) :
    s.activeDataPlaneSessions + s.dying.length = s.managed.length ∧
      ∀ t, s.step .loop = some t → t.point = .exited → s.workingApplication = true →
        ∀ key ∈ s.managed, key ∈ s.dying := by
  have hs : Tallied s := (tallied_reach h).resolve_left (by simp [Stuck, hpoint])
  have hcount := hs.count
  rw [filter_holds hpoint] at hcount
  simp only [Controller.arriving, hpoint, reduceCtorEq, if_false, add_zero] at hcount
  refine ⟨hcount, ?_⟩
  intro t hstep hexited hworking
  have hactive : s.activeDataPlaneSessions ≤ 0 := by
    by_contra hpos
    simp only [Controller.step, Controller.loop, hpoint] at hstep
    rw [if_pos ⟨hworking, .inr (by omega)⟩] at hstep
    cases hstep
    cases hexited
  obtain ⟨hnodup, hmanaged⟩ := hs.dying_managed
  have hperm := (hnodup.subperm hmanaged).perm_of_length_le (by omega)
  intro key hkey
  exact hperm.mem_iff.mpr hkey

def takes (info : StageInfo) (answer : ℤ) : List Action :=
  [.loop, .loop, .loop, .loop, .loop, .stage (.handshake info), .stage .submit, .stage (.acknowledge answer),
    .stage .count]

def firstStage : List Action :=
  [.enqueueStage 7, .countStage, .loop, .loop] ++ takes ⟨"j", 1, "u", "A"⟩ 1 ++
    [.stage (.ready 1), .register, .loop]

def lastStageDies : List Action :=
  firstStage ++ [.markStageReady "j+1", .collect false .id, .sample (-1), .loop]

theorem active_counts_managed_last_stage :
    ∃ s t, (machine [LocalFeedbackLoop.channelRule]).Reach DistinctKeys s ∧ s.point = .condition ∧
      s.step .loop = some t ∧ t.point = .exited ∧ s.workingApplication = true ∧ s.managed = ["j+1"] ∧
      s.activeDataPlaneSessions + s.dying.length = s.managed.length ∧ ∀ key ∈ s.managed, key ∈ s.dying := by
  have hstart : (machine [LocalFeedbackLoop.channelRule]).Reach DistinctKeys
    (.start [LocalFeedbackLoop.channelRule]) :=
    .start rfl
  obtain ⟨s, hs, hpoint, hexits, hworking, hmanaged⟩ := hstart.of_exec lastStageDies
    (P := fun s => s.point = .condition ∧ (s.step .loop).any (fun t => decide (t.point = .exited)) = true ∧
      s.workingApplication = true ∧ s.managed = ["j+1"]) (by decide +kernel)
  obtain ⟨t, hstep, hexited⟩ := Machine.exists_of_any hexits
  obtain ⟨hcount, hdead⟩ := active_counts_managed hs hpoint
  exact ⟨s, t, hs, hpoint, hstep, hexited, hworking, hmanaged, hcount, hdead t hstep hexited hworking⟩

theorem active_counts_apart :
    ∃ s, (machine [LocalFeedbackLoop.channelRule]).Reach DistinctKeys s ∧ s.point = .condition ∧
      s.activeDataPlaneSessions = 0 ∧ s.managed = ["j+1"] ∧ s.workingApplication = true ∧
      (s.step .loop).any (fun t => decide (t.point = .exited)) = true := by
  have hstart : (machine [LocalFeedbackLoop.channelRule]).Reach DistinctKeys
    (.start [LocalFeedbackLoop.channelRule]) :=
    .start rfl
  exact hstart.of_exec lastStageDies (by decide +kernel)

end Cheferd.LocalThreads
