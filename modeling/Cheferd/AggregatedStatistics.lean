import Cheferd.ControlPlane
import Cheferd.StatisticsRounds
import Mathlib.Algebra.BigOperators.Group.Finset.Basic
import Mathlib.Algebra.BigOperators.Intervals
import Mathlib.Tactic.FieldSimp
import Mathlib.Tactic.Ring

namespace Cheferd

open Library

namespace Surroundings

def sample (outside : Surroundings) (key : String) (i : ℕ) : ℚ :=
  DataPlaneSession.collectGlobalStatistics (outside.stages key) i

def mean (outside : Surroundings) (key : String) (rounds : ℕ) : ℚ :=
  (∑ i ∈ Finset.range rounds, outside.sample key i) / rounds

theorem mean_succ (outside : Surroundings) (key : String) (n : ℕ) :
    outside.mean key (n + 1) = (outside.sample key n + outside.mean key n * n) / (n + 1) := by
  simp only [mean, Finset.sum_range_succ]
  by_cases hn : n = 0
  · simp [hn]
  · rw [div_mul_cancel₀ _ (by exact_mod_cast hn), add_comm]
    push_cast
    rfl

end Surroundings

namespace LocalControlApplication

variable {outside : Surroundings} {app : LocalControlApplication} {key : String}

theorem mem_traversal {sessions : Assoc String DataPlaneSession} :
    key ∈ outside.sessionOrder.order sessions.keys ↔ key ∈ sessions := by
  rw [(outside.sessionOrder.perm _).mem_iff, AList.mem_keys]

theorem collectGlobalStatistics_lookup (outside : Surroundings) (app : LocalControlApplication) (key : String) :
    (app.collectGlobalStatistics outside).2.lookup key =
      if key ∈ app.dataSessions then some (outside.sample key 0) else none := by
  simp only [collectGlobalStatistics, Assoc.lookup_ofKeys, mem_traversal]
  rfl

theorem foldl_addSample_lookup (rate : String → ℚ) (i : ℕ) {keys : List String} (hnodup : keys.Nodup)
    (stats : Assoc String ℚ) (key : String) :
    (keys.foldl (addSample rate i) stats).lookup key =
      if key ∈ keys then
        some ((stats.lookup key).elim (rate key) fun previousValue => (rate key + previousValue * i) / (i + 1))
      else stats.lookup key := by
  induction keys generalizing stats with
  | nil => simp
  | cons k keys ih =>
    obtain ⟨hnotin, hnodup⟩ := List.nodup_cons.mp hnodup
    rw [List.foldl_cons, ih hnodup, addSample, Assoc.lookup_insert_eq]
    by_cases hk : key = k
    · subst hk
      rw [if_neg hnotin, if_pos rfl, if_pos List.mem_cons_self]
    · simp only [hk, if_false, List.mem_cons, false_or]

end LocalControlApplication

namespace FeedbackLoop

open CoreControlApplication LocalControllerSession

variable {p q : Process}

def collectedStats (point : Point) : Assoc String Rates :=
  match point with
  | .collect _ collection => collection.collectedStats
  | .compute dStats => dStats
  | _ => ∅

theorem LoopStep.collected_from (h : LoopStep p q) {a : String} {rates : Rates}
    (hl : (collectedStats q.point).lookup a = some rates) :
    (collectedStats p.point).lookup a = some rates ∨ ∃ rule responseType,
      (rule, .stats responseType rates) ∈ (sessionOf p.core a).completionQueue := by
  cases h with
  | goes point h =>
    cases h with
    | collectSkip address rest collection hpoint h =>
      rw [hpoint]
      exact .inl hl
    | _ => cases hl
  | control hpoint h => rcases h.point with hq | hq <;> rw [hq] at hl <;> cases hl
  | collectDone collection active point hpoint hgone hactive hnext =>
    rw [hpoint]
    rcases hnext with ⟨rfl, _⟩ | rfl
    · cases hl
    · exact .inl hl
  | collectResult address rule rest collection collection' response core core' hpoint hcollects htakes h =>
    rw [hpoint]
    rcases collectStatisticsResult_collectedStats h with hsame | ⟨responseType, taken, rfl, hadded⟩
    · refine .inl ?_
      change collection.collectedStats.lookup a = some rates
      rw [← hsame]
      exact hl
    · simp only [collectedStats, hadded, Assoc.lookup_emplace] at hl ⊢
      split at hl
      case isTrue ha =>
        subst ha
        cases hold : collection.collectedStats.lookup a with
        | some old =>
          rw [hold] at hl
          exact .inl hl
        | none =>
          rw [hold] at hl
          cases hl
          obtain ⟨session', hcompletion, _⟩ := takes_sessionOf htakes a
          exact .inr ⟨rule, responseType, by rw [hcompletion]; exact List.mem_cons_self⟩
      case isFalse => exact .inl hl
  | _ => cases hl

theorem Asked.settled (hp : Asked p) {a : String} (ha : a ∈ collectedStats p.point) : p.asked a = 0 := by
  by_contra hne
  have hopen := hp.opened a hne
  unfold collectedStats at ha
  split at ha
  case h_1 todo collection hpoint =>
    simp only [Process.Open, hpoint] at hopen
    exact (hp.collecting todo collection hpoint).2 a ha hopen.1
  case h_2 dStats hpoint => simp only [Process.Open, hpoint] at hopen
  case h_3 => cases ha

theorem Asked.none_on_the_way (hp : Asked p) (htraced : Traced p)
    (htype : p.core.controlType = .dynamicLeftover) {a : String} {rest : List String}
    (hqueue : (sessionOf p.core a).submissionQueue = collectStatisticsRule 6 :: rest) :
    (∀ rule responseType rates, (rule, .stats responseType rates) ∉ (sessionOf p.core a).completionQueue) ∧
      a ∉ collectedStats p.point := by
  have honce := hp.once a
  have hcount : p.asked a =
      ((sessionOf p.core a).completionQueue.map Prod.fst).count (collectStatisticsRule 6) +
        (rest.count (collectStatisticsRule 6) + 1) := by
    rw [Process.asked, outstanding, hqueue, List.count_append, List.count_cons_self]
  constructor
  · intro rule responseType rates he
    have hrule := htraced.completed a rule responseType rates he
    rw [Process.subtype, if_pos htype] at hrule
    subst hrule
    have hpos := List.count_pos_iff.mpr (List.mem_map_of_mem (f := Prod.fst) he)
    dsimp only at hpos
    omega
  · intro ha
    have hsettled := hp.settled ha
    omega

end FeedbackLoop

namespace LocalInterface

open LocalControllerSession CoreControlApplication

theorem request_collectStatistics {subtype : ℤ} (h : subtype = 5 ∨ subtype = 6) :
    LocalInterface.request (collectStatisticsRule subtype) = .ok (some .collectGlobalStatistics) := by
  have htoken : (Strings.parseRule '|' (collectStatisticsRule subtype))[1]?.bind (Decimal.signed 32) =
      some subtype := by
    rcases h with rfl | rfl <;> decide
  simp only [LocalInterface.request, operationType_collectStatistics, htoken]
  rcases h with rfl | rfl <;> rfl

end LocalInterface

namespace ControlPlane

open CoreControlApplication LocalControllerSession FeedbackLoop

variable {s t : ControlPlane}

theorem call_collectStatistics {subtype : ℤ} (h : subtype = 5 ∨ subtype = 6) (outside : Surroundings)
    (app : LocalControlApplication) : LocalInterface.call outside (collectStatisticsRule subtype) app =
      .ok ((app.collectGlobalStatistics outside).1, ⟨0, (app.collectGlobalStatistics outside).2⟩) := by
  rw [LocalInterface.call, LocalInterface.request_collectStatistics h]
  rfl

def lastStatistics (s : ControlPlane) (address : String) : Option Call :=
  s.calls.find? fun call => call.address = address ∧ call.rule = collectStatisticsRule 6

def Reported (s : ControlPlane) (address : String) (rates : Rates) : Prop :=
  ∃ call, s.lastStatistics address = some call ∧ rates = (call.app.collectGlobalStatistics call.outside).2

structure Latest (s : ControlPlane) : Prop where
  completed : ∀ a rule responseType rates,
    (rule, .stats responseType rates) ∈ (sessionOf s.core.core a).completionQueue → s.Reported a rates
  collected : ∀ a rates, (collectedStats s.core.point).lookup a = some rates → s.Reported a rates

theorem Latest.kept (hs : Latest s) (hcalls : t.calls = s.calls)
    (hcompleted : ∀ a, (sessionOf t.core.core a).completionQueue <:+ (sessionOf s.core.core a).completionQueue)
    (hcollected : ∀ a rates, (collectedStats t.core.point).lookup a = some rates →
      (collectedStats s.core.point).lookup a = some rates ∨ ∃ rule responseType,
        (rule, .stats responseType rates) ∈ (sessionOf s.core.core a).completionQueue) : Latest t := by
  have hsame : ∀ a rates, s.Reported a rates → t.Reported a rates := by
    rintro a rates ⟨call, hlast, hrates⟩
    exact ⟨call, by rwa [lastStatistics, hcalls], hrates⟩
  refine ⟨fun a rule responseType rates he => hsame a rates ?_, fun a rates hl => hsame a rates ?_⟩
  · exact hs.completed a rule responseType rates ((hcompleted a).subset he)
  · rcases hcollected a rates hl with hl | ⟨rule, responseType, he⟩
    · exact hs.collected a rates hl
    · exact hs.completed a rule responseType rates he

theorem Reported.later {call : Call} {a : String} {rates : Rates} (h : s.Reported a rates)
    (hcalls : t.calls = call :: s.calls) (hne : ¬ (call.address = a ∧ call.rule = collectStatisticsRule 6)) :
    t.Reported a rates := by
  obtain ⟨last, hlast, hrates⟩ := h
  refine ⟨last, ?_, hrates⟩
  rw [lastStatistics, hcalls, List.find?_cons_of_neg (by simpa using hne)]
  exact hlast

theorem Latest.served {address rule : String} {rest : List String} {outside : Surroundings}
    {app : LocalControlApplication} {reply : Reply} {session : LocalControllerSession}
    (hs : Latest s) (htype : s.core.core.controlType = .dynamicLeftover) (htraced : Traced s.core)
    (hasked : Asked s.core) (hsession : s.core.core.localSessions.lookup address = some session)
    (hqueue : session.submissionQueue = rule :: rest)
    (hcall : LocalInterface.call outside rule (s.locals address).app = .ok (app, reply))
    (hcalls : t.calls = ⟨address, rule, outside, (s.locals address).app⟩ :: s.calls)
    (hpoint : t.core.point = s.core.point)
    (hafter : sessionOf t.core.core address =
      ⟨rest, session.completionQueue ++
        (sendRule rule reply).toList.map fun response => (rule, response)⟩)
    (hother : ∀ a ≠ address, sessionOf t.core.core a = sessionOf s.core.core a) : Latest t := by
  have hsame : sessionOf s.core.core address = session := sessionOf_of_lookup hsession
  rw [← hsame] at hqueue hafter
  by_cases hstats : rule = collectStatisticsRule 6
  · subst hstats
    -- The request was the only one, so that nothing of the controller is on its way to the policy.
    obtain ⟨hnone, huncollected⟩ := hasked.none_on_the_way htraced htype hqueue
    have hlater : ∀ a ≠ address, ∀ rates, s.Reported a rates → t.Reported a rates :=
      fun a ha rates h => h.later hcalls fun hcalled => ha hcalled.1.symm
    rw [call_collectStatistics (.inr rfl)] at hcall
    cases hcall
    refine ⟨fun a r responseType rates he => ?_, fun a rates hl => ?_⟩
    · by_cases ha : a = address
      · subst ha
        rw [hafter] at he
        rcases List.mem_append.mp he with he | he
        · exact absurd he (hnone r responseType rates)
        · rw [sendRule_collectStatistics (.inr rfl)] at he
          cases List.mem_singleton.mp he
          exact ⟨_, by rw [lastStatistics, hcalls, List.find?_cons_of_pos (by simp)], rfl⟩
      · rw [hother a ha] at he
        exact hlater a ha rates (hs.completed a r responseType rates he)
    · rw [hpoint] at hl
      have ha : a ≠ address := by
        rintro rfl
        exact huncollected (AList.lookup_isSome.mp (by rw [hl]; rfl))
      exact hlater a ha rates (hs.collected a rates hl)
  · have hlater : ∀ a rates, s.Reported a rates → t.Reported a rates :=
      fun a rates h => h.later hcalls fun hcalled => hstats hcalled.2
    have hrule := htraced.submitted address rule (by rw [hqueue]; exact List.mem_cons_self)
    rw [Process.Submits, Process.subtype, if_pos htype] at hrule
    refine ⟨fun a r responseType rates he => hlater a rates ?_, fun a rates hl => ?_⟩
    · by_cases ha : a = address
      · subst ha
        rw [hafter] at he
        rcases List.mem_append.mp he with he | he
        · exact hs.completed a r responseType rates he
        · obtain ⟨response, hresponse, heq⟩ := List.mem_map.mp he
          cases heq
          exact absurd (sendRule_stats (Option.mem_toList.mp hresponse)) (hrule.resolve_right hstats)
      · rw [hother a ha] at he
        exact hs.completed a r responseType rates he
    · rw [hpoint] at hl
      exact hlater a rates (hs.collected a rates hl)

theorem Step.latest {action : Action} (h : Step s action t) (htype : s.core.core.controlType = .dynamicLeftover)
    (htraced : Traced s.core) (hasked : Asked s.core) (hs : Latest s) : Latest t := by
  cases h with
  | core action core hserve hstage h =>
    cases FeedbackLoop.step_cases h with
    | served address reply session session' hsession h => exact absurd rfl (hserve address reply)
    | loop h =>
      refine hs.kept rfl (fun a => ?_) fun a rates hl => h.collected_from hl
      obtain ⟨requests, hfollows, -⟩ := h.follows a
      exact hfollows.completed
    | _ => exact hs.kept rfl (fun a => List.suffix_rfl) fun a rates hl => .inl hl
  | served address rule rest outside app reply session hsession hqueue hcall =>
    exact hs.served htype htraced hasked hsession hqueue hcall rfl rfl
      (sessionOf_of_lookup (AList.lookup_insert _))
      fun a ha => sessionOf_congr (AList.lookup_insert_ne ha)
  | stage address action process h hquiet =>
    exact hs.kept rfl (fun a => List.suffix_rfl) fun a rates hl => .inl hl
  | announced address info acknowledged ready hpoint =>
    exact hs.kept rfl (fun a => List.suffix_rfl) fun a rates hl => .inl hl

theorem latest_reach {allowed : ControlPlane → Action → Prop} (h : machine.Reach allowed s)
    (htype : s.core.core.controlType = .dynamicLeftover) : s.core.Crashed ∨ Latest s := by
  induction h with
  | start h =>
    obtain ⟨⟨_, _, _, _, core, hops, hcore⟩, _, _⟩ := h
    obtain ⟨ops, op, rfl⟩ := initializeOps_ok hops
    refine .inr ⟨?_, ?_⟩ <;> rw [hcore]
    · exact fun a rule responseType rates he => absurd he List.not_mem_nil
    · exact fun a rates hl => nomatch hl
  | @step s t action hreach hguard hstep ih =>
    have hs := step_cases hstep
    have hsame : t.core.core.controlType = s.core.core.controlType ∧ (s.core.Crashed → t.core.Crashed) := by
      rcases hs.core_step with he | ⟨coreAction, he⟩
      · rw [he]
        exact ⟨rfl, id⟩
      · have h := FeedbackLoop.step_cases he
        exact ⟨h.configured.controlType, h.crashed⟩
    rw [hsame.1] at htype
    have hcore := core_reach hreach
    rcases asked_reach hcore htype with hc | hasked
    · exact .inl (hsame.2 hc)
    · exact (ih htype).imp hsame.2 (hs.latest htype (traced_reach hcore) hasked)

theorem read_rate_mean_iff (h : machine.Reach (fun _ _ => True) s)
    (htype : s.core.core.controlType = .dynamicLeftover) {dStats : Assoc String Rates}
    (hpoint : s.core.point = .compute dStats) {address : String} {rates : Rates}
    (hrates : dStats.lookup address = some rates) :
    ∃ call, s.lastStatistics address = some call ∧
      (∀ key, rates.lookup key =
        if key ∈ call.app.dataSessions then some (call.outside.sample key 0) else none) ∧
      ∀ key ∈ call.app.dataSessions, rates.lookup key = some (call.outside.mean key collectRounds) ↔
        call.outside.sample key 0 = call.outside.mean key collectRounds := by
  have halive : ¬ s.core.Crashed := by simp [Process.Crashed, hpoint]
  have hlatest := (latest_reach h htype).resolve_left halive
  obtain ⟨call, hlast, rfl⟩ := hlatest.collected address rates (by rw [hpoint]; exact hrates)
  refine ⟨call, hlast, call.app.collectGlobalStatistics_lookup call.outside, fun key hkey => ?_⟩
  rw [LocalControlApplication.collectGlobalStatistics_lookup, if_pos hkey, Option.some.injEq]

def reporting (samples : ℕ → ℚ) : Surroundings :=
  ⟨fun _ => ⟨fun _ => some 1, fun i => some (samples i)⟩, .id, .id, .id⟩

def firstRound (outside : Surroundings) : List Action :=
  [.core (.enqueueLocal "A"), .core (.countLocal "A"), .core .loop, .core .loop, .core .loop,
    .serve "A" outside, .core .loop, .core .loop] ++
    [.handshake ⟨"j", 1, "u", ""⟩, .submit, .acknowledge 1, .count, .ready 1, .connect].map (.stage "A") ++
    [.core .countStage, .core .loop, .serve "A" outside, .core .loop, .core .loop, .core .loop,
      .serve "A" outside] ++
    List.replicate 22 (.core .loop)

theorem read_rate_mean_iff_steady :
    ∃ s call rates, machine.Reach (fun _ _ => True) s ∧ (collectedStats s.core.point).lookup "A" = some rates ∧
      s.lastStatistics "A" = some call ∧ "j+1" ∈ call.app.dataSessions ∧
      rates.lookup "j+1" = some (call.outside.mean "j+1" collectRounds) := by
  obtain ⟨s, hs, htype, hpoint, hcalls⟩ : ∃ s, machine.Reach (fun _ _ => True) s ∧
      s.core.core.controlType = .dynamicLeftover ∧
      s.core.point = .compute (AList.singleton "A" (AList.singleton "j+1" 7)) ∧
      ∀ call ∈ s.lastStatistics "A", "j+1" ∈ call.app.dataSessions ∧
        call.outside.sample "j+1" 0 = call.outside.mean "j+1" collectRounds :=
    reach_of_run .dynamicLeftover 100 (firstRound (reporting fun _ => 7)) (by decide +kernel)
  have hrates : (AList.singleton "A" (AList.singleton "j+1" 7) : Assoc String Rates).lookup "A" =
      some (AList.singleton "j+1" 7) := rfl
  obtain ⟨call, hlast, -, hmean⟩ := read_rate_mean_iff hs htype hpoint hrates
  obtain ⟨hkey, hsteady⟩ := hcalls call hlast
  exact ⟨s, call, _, hs, by rw [hpoint]; exact hrates, hlast, hkey, (hmean "j+1" hkey).mpr hsteady⟩

theorem read_rate_first_of_growing :
    ∃ s, machine.Reach (fun _ _ => True) s ∧ s.core.core.controlType = .dynamicLeftover ∧
      s.core.point = .compute (AList.singleton "A" (AList.singleton "j+1" 1)) ∧
      (s.calls.map fun call => call.outside.mean "j+1" collectRounds) = [3, 3, 3] :=
  reach_of_run .dynamicLeftover 100 (firstRound (reporting fun i => i + 1)) (by decide +kernel)

end ControlPlane

end Cheferd
