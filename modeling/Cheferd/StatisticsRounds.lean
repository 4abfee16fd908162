import Cheferd.ResponsePairing

namespace Cheferd

open Library

namespace CoreControlApplication

variable {core core' : CoreControlApplication} {a : String}

def sessionOf (core : CoreControlApplication) (address : String) : LocalControllerSession :=
  (core.localSessions.lookup address).getD .new

theorem sessionOf_of_lookup {session : LocalControllerSession}
    (h : core.localSessions.lookup a = some session) :
    sessionOf core a = session := by
  rw [sessionOf, h, Option.getD_some]

theorem sessionOf_congr (h : core'.localSessions.lookup a = core.localSessions.lookup a) :
    sessionOf core' a = sessionOf core a := by
  rw [sessionOf, sessionOf, h]

end CoreControlApplication

namespace FeedbackLoop

open CoreControlApplication LocalControllerSession

variable {p q : Process} {address rule : String} {session : LocalControllerSession} {requests : List String}

theorem takes_sessionOf {response : StageResponse} {core : CoreControlApplication}
    (h : Takes p address rule response core) (a : String) : ∃ session',
      (sessionOf p.core address).completionQueue = (rule, response) :: session'.completionQueue ∧
      (sessionOf p.core address).submissionQueue = session'.submissionQueue ∧
      sessionOf core a = if a = address then session' else sessionOf p.core a := by
  obtain ⟨session, session', hl, hr, hlookup⟩ := h.lookup
  obtain ⟨hcompletion, hsubmission⟩ := getResult_eq_some hr
  refine ⟨session', by rw [sessionOf_of_lookup hl, hcompletion],
    by rw [sessionOf_of_lookup hl, hsubmission], ?_⟩
  rw [sessionOf, hlookup]
  split <;> rfl

def Process.Submits (p : Process) (rule : String) : Prop :=
  operationType rule ≠ some 3 ∨ rule = collectStatisticsRule p.subtype

structure Follows (p : Process) (address : String) (session : LocalControllerSession) (requests : List String) :
    Prop where
  completed : session.completionQueue <:+ (sessionOf p.core address).completionQueue
  submitted : session.submissionQueue = (sessionOf p.core address).submissionQueue ++ requests

theorem Follows.same (h : session = sessionOf p.core address) : Follows p address session [] := by
  subst h
  exact ⟨List.suffix_rfl, (List.append_nil _).symm⟩

theorem Follows.submit (h : session = (sessionOf p.core address).submitRule rule) :
    Follows p address session [rule] := by
  subst h
  exact ⟨List.suffix_rfl, rfl⟩

theorem Takes.follows {response : StageResponse} {core : CoreControlApplication}
    (h : Takes p address rule response core) (a : String) : Follows p a (sessionOf core a) [] := by
  obtain ⟨session', hcompletion, hsubmission, hsession⟩ := takes_sessionOf h a
  rw [hsession]
  by_cases ha : a = address
  · subst ha
    rw [if_pos rfl]
    refine ⟨?_, by rw [hsubmission, List.append_nil]⟩
    rw [hcompletion]
    exact List.suffix_cons _ _
  · rw [if_neg ha]
    exact .same rfl

inductive Asks (p q : Process) (address : String) : List String → Prop
  | other (requests : List String) (h : ∀ rule ∈ requests, operationType rule ≠ some 3) :
      Asks p q address requests
  | statistics (h : p.core.controlType = .dynamicLeftover →
      p.point = .control ∧ p.roundsCounter = 0 ∧ q.point = .finish ∧ q.roundsCounter = 1 ∧
      address ∈ q.sessionsSent) :
      Asks p q address [collectStatisticsRule p.subtype]

theorem Asks.none : Asks p q address [] := .other [] fun _ h => absurd h List.not_mem_nil

theorem Asks.single (h : operationType rule ≠ some 3) : Asks p q address [rule] :=
  .other _ fun r hr => by rwa [List.mem_singleton.mp hr]

theorem computeAndEnforce_follows {dStats : Assoc String Rates} {core : CoreControlApplication}
    {updated : List String}
    (h : computeAndEnforce dStats p.sessionsSent p.core = .ok (core, updated)) (a : String) :
    ∃ requests, Follows p a (sessionOf core a) requests ∧ ∀ rule ∈ requests, operationType rule ≠ some 3 := by
  obtain ⟨core₁, operation, rules, hprepared, hr⟩ := (computeAndEnforce_computes h).requests
  have hsessions : core₁.localSessions = p.core.localSessions := by
    obtain ⟨_, _, _, _, _, rfl, _⟩ := hprepared
    rfl
  have hlookup := hr.sessions a
  rw [hsessions] at hlookup
  cases hl : p.core.localSessions.lookup a with
  | none =>
    rw [hl, Option.map_none] at hlookup
    exact ⟨[], .same (sessionOf_congr (hlookup.trans hl.symm)), fun _ hrule => absurd hrule List.not_mem_nil⟩
  | some session =>
    rw [hl, Option.map_some] at hlookup
    have hfollows : Follows p a (sessionOf core a) ((rules.filter (a ∈ ·.localToEnvs)).map (·.request a)) := by
      rw [show sessionOf core a = _ from sessionOf_of_lookup hlookup]
      have hbefore : sessionOf p.core a = session := sessionOf_of_lookup hl
      exact ⟨hbefore ▸ List.suffix_rfl, by rw [hbefore]⟩
    refine ⟨_, hfollows, fun rule hrule => ?_⟩
    obtain ⟨own, _, rfl⟩ := List.mem_map.mp hrule
    rw [EnforcementRule.request, operationType_enforcementRule]
    decide

theorem requested_follows {subtype : ℤ} (hsubtype : subtype = p.subtype)
    (hsessions : q.core.localSessions =
      (Process.requestStatistics subtype (Process.sessionOrder p.core) p.core).localSessions)
    (hsent : p.core.controlType = .dynamicLeftover →
      p.point = .control ∧ p.roundsCounter = 0 ∧ q.point = .finish ∧ q.roundsCounter = 1 ∧
      q.sessionsSent = (Process.sessionOrder p.core).filter (p.core.stagesOf · ≠ [])) (a : String) :
    ∃ requests, Follows p a (sessionOf q.core a) requests ∧ Asks p q a requests := by
  have hlookup := requestStatistics_lookup subtype (sessionOrder_nodup p.core) p.core a
  rw [← hsessions] at hlookup
  cases hl : p.core.localSessions.lookup a with
  | none =>
    rw [hl, Option.map_none] at hlookup
    exact ⟨[], .same (sessionOf_congr (hlookup.trans hl.symm)), .none⟩
  | some session =>
    rw [hl, Option.map_some] at hlookup
    split at hlookup
    case isTrue hasked =>
      refine ⟨[collectStatisticsRule p.subtype], .submit ?_, .statistics fun htype => ?_⟩
      · rw [sessionOf_of_lookup hlookup, sessionOf_of_lookup hl, hsubtype]
      · obtain ⟨hpoint, hround, hfinish, hcounter, hfilter⟩ := hsent htype
        refine ⟨hpoint, hround, hfinish, hcounter, ?_⟩
        rw [hfilter]
        exact List.mem_filter.mpr ⟨hasked.1, by simpa using hasked.2⟩
    case isFalse => exact ⟨[], .same (sessionOf_congr (hlookup.trans hl.symm)), .none⟩

theorem LoopStep.follows (h : LoopStep p q) (a : String) :
    ∃ requests, Follows p a (sessionOf q.core a) requests ∧ Asks p q a requests := by
  cases h with
  | localTaken address rest session hpoint hpending hqueue hsession =>
    by_cases ha : a = address
    · subst ha
      refine ⟨[p.core.localHandshakeRule], .submit ?_, .single ?_⟩
      · rw [sessionOf_of_lookup (AList.lookup_insert _), hsession, sessionOf]
      · rw [operationType_handshake]
        decide
    · refine ⟨[], .same (sessionOf_congr ?_), .none⟩
      rw [AList.lookup_insert_ne ha, Assoc.lookup_emplace, if_neg ha]
  | handshaken address rule response core hpoint htakes => exact ⟨[], htakes.follows a, .none⟩
  | stageTaken info rest session hpoint hpending hqueue hsession =>
    by_cases ha : a = info.localAddress
    · subst ha
      refine ⟨[stageReadyRule info], .submit ?_, .single ?_⟩
      · rw [sessionOf_of_lookup (AList.lookup_insert _), sessionOf_of_lookup hsession]
      · rw [operationType_stageReady]
        decide
    · exact ⟨[], .same (sessionOf_congr (AList.lookup_insert_ne ha)), .none⟩
  | marked info rule response core hpoint htakes => exact ⟨[], htakes.follows a, .none⟩
  | control hpoint h =>
    cases h with
    | requested htype =>
      refine requested_follows (?_ : 5 = p.subtype) rfl (fun hleftover => ?_) a
      · rcases htype with htype | htype <;> simp [Process.subtype, htype]
      · rcases htype with htype | htype <;> simp [hleftover] at htype
    | sent htype hround =>
      have hsubtype : 6 = p.subtype := by simp [Process.subtype, htype]
      exact requested_follows hsubtype rfl (fun _ => ⟨hpoint, hround, rfl, rfl, rfl⟩) a
    | _ => exact ⟨[], .same rfl, .none⟩
  | collectResult address rule rest collection collection' response core core' hpoint hcollects htakes h =>
    obtain ⟨_, _, _, hpurged, _⟩ := collectStatisticsResult_ok h
    refine ⟨[], ?_, .none⟩
    rw [show sessionOf core' a = sessionOf core a from sessionOf_congr (by rw [hpurged.localSessions])]
    exact htakes.follows a
  | collectFault address rule rest collection response core fault hpoint hcollects htakes h =>
    exact ⟨[], htakes.follows a, .none⟩
  | computed dStats core updated hpoint h =>
    obtain ⟨requests, hfollows, hother⟩ := computeAndEnforce_follows h a
    exact ⟨requests, hfollows, .other _ hother⟩
  | enforced job address rule rest response core hpoint htakes => exact ⟨[], htakes.follows a, .none⟩
  | _ => exact ⟨[], .same rfl, .none⟩

theorem sendRule_stats {reply : Reply} {responseType : ℤ} {rates : Rates}
    (h : sendRule rule reply = some (.stats responseType rates)) : operationType rule = some 3 := by
  unfold sendRule at h
  split at h
  case h_5 htype => exact htype
  all_goals cases h

structure Traced (p : Process) : Prop where
  submitted : ∀ a, ∀ rule ∈ (sessionOf p.core a).submissionQueue, p.Submits rule
  completed : ∀ a rule responseType rates,
    (rule, .stats responseType rates) ∈ (sessionOf p.core a).completionQueue →
    rule = collectStatisticsRule p.subtype

theorem Step.subtype {action : Action} (h : Step p action q) : q.subtype = p.subtype := by
  rw [Process.subtype, h.configured.controlType, Process.subtype]

theorem Step.traced {action : Action} (h : Step p action q) (hp : Traced p) : Traced q := by
  have hsubtype := h.subtype
  have hsubmits : ∀ rule, p.Submits rule → q.Submits rule := fun rule hr => by rwa [Process.Submits, hsubtype]
  cases h with
  | served address reply session session' hsession hserve =>
    unfold LocalControllerSession.serve at hserve
    split at hserve
    · cases hserve
    case h_2 rule rest hqueue =>
      cases hserve
      have hsame := sessionOf_of_lookup hsession
      have hrule : p.Submits rule := hp.submitted address rule (by rw [hsame, hqueue]; exact List.mem_cons_self)
      refine ⟨fun a r hr => hsubmits r ?_, fun a r responseType rates he => ?_⟩
      · by_cases ha : a = address
        · subst ha
          rw [sessionOf_of_lookup (AList.lookup_insert _)] at hr
          exact hp.submitted a r (by rw [hsame, hqueue]; exact List.mem_cons_of_mem _ hr)
        · rw [sessionOf_congr (AList.lookup_insert_ne ha)] at hr
          exact hp.submitted a r hr
      · rw [hsubtype]
        by_cases ha : a = address
        · subst ha
          rw [sessionOf_of_lookup (AList.lookup_insert _)] at he
          rcases List.mem_append.mp he with he | he
          · exact hp.completed a r responseType rates (by rwa [hsame])
          · obtain ⟨response, hresponse, heq⟩ := List.mem_map.mp he
            cases heq
            exact hrule.resolve_left fun hne => hne (sendRule_stats (Option.mem_toList.mp hresponse))
        · rw [sessionOf_congr (AList.lookup_insert_ne ha)] at he
          exact hp.completed a r responseType rates he
  | loop h =>
    refine ⟨fun a rule hr => ?_, fun a rule responseType rates he => ?_⟩ <;>
      obtain ⟨requests, hfollows, hasks⟩ := h.follows a
    · rw [hfollows.submitted] at hr
      rcases List.mem_append.mp hr with hr | hr
      · exact hsubmits rule (hp.submitted a rule hr)
      · cases hasks with
        | other requests h => exact .inl (h rule hr)
        | statistics h => exact hsubmits rule (.inr (List.mem_singleton.mp hr))
    · rw [hsubtype]
      exact hp.completed a rule responseType rates (hfollows.completed.subset he)
  | _ => exact ⟨hp.submitted, hp.completed⟩

theorem traced_reach {allowed : Process → Action → Prop} (h : machine.Reach allowed p) : Traced p := by
  refine h.invariant (I := Traced) ?_ fun _ _ _ hp _ hstep => (step_cases hstep).traced hp
  rintro p ⟨_, _, _, _, core, hops, rfl⟩
  obtain ⟨ops, op, rfl⟩ := initializeOps_ok hops
  exact ⟨fun a rule hr => absurd hr List.not_mem_nil,
    fun a rule responseType rates he => absurd he List.not_mem_nil⟩

namespace Process

def asked (p : Process) (address : String) : ℕ :=
  (sessionOf p.core address).outstanding.count (collectStatisticsRule 6)

def Open (p : Process) (address : String) : Prop :=
  match p.point with
  | .collect todo _ => address ∈ todo ∧ p.collects address = true
  | .compute _ => False
  | _ => p.roundsCounter ≠ 0 ∧ address ∈ p.sessionsSent

end Process

theorem Follows.count_le (h : Follows p address session requests) (rule : String) :
    session.outstanding.count rule ≤ (sessionOf p.core address).outstanding.count rule +
      requests.count rule := by
  have hcompleted := (h.completed.sublist.map Prod.fst).count_le rule
  simp only [outstanding, h.submitted, List.count_append]
  omega

theorem LoopStep.asked_le (h : LoopStep p q) (htype : p.core.controlType = .dynamicLeftover) (a : String) :
    q.asked a ≤ p.asked a ∨ q.asked a ≤ p.asked a + 1 ∧
      p.point = .control ∧ p.roundsCounter = 0 ∧ q.point = .finish ∧ q.roundsCounter = 1 ∧
      a ∈ q.sessionsSent := by
  obtain ⟨requests, hfollows, hasks⟩ := h.follows a
  have hcount := hfollows.count_le (collectStatisticsRule 6)
  cases hasks with
  | other requests hother =>
    have hnone : requests.count (collectStatisticsRule 6) = 0 :=
      List.count_eq_zero.mpr fun hmem => hother _ hmem (operationType_collectStatistics 6)
    rw [hnone] at hcount
    exact .inl hcount
  | statistics hsent =>
    refine .inr ⟨hcount.trans (Nat.add_le_add_left ?_ _), hsent htype⟩
    exact List.count_le_length

structure Asked (p : Process) : Prop where
  once : ∀ a, p.asked a ≤ 1
  opened : ∀ a, p.asked a ≠ 0 → p.Open a
  collecting : ∀ todo collection, p.point = .collect todo collection →
    todo.Nodup ∧ ∀ a ∈ collection.collectedStats, a ∉ todo

theorem Asked.kept (hp : Asked p) (hle : ∀ a, q.asked a ≤ p.asked a)
    (hopen : ∀ a, q.asked a ≠ 0 → p.Open a → q.Open a) (hcollecting : ∀ todo collection,
      q.point = .collect todo collection → todo.Nodup ∧ ∀ a ∈ collection.collectedStats, a ∉ todo) :
      Asked q := by
  refine ⟨fun a => (hle a).trans (hp.once a), fun a ha => hopen a ha (hp.opened a ?_), hcollecting⟩
  have hle := hle a
  omega

theorem collectStatisticsResult_collectedStats {response : StageResponse} {collection collection' : Collection}
    {core core' : CoreControlApplication}
    (h : collectStatisticsResult address response collection core = .ok (core', collection')) :
    collection'.collectedStats = collection.collectedStats ∨ ∃ responseType rates,
      response = .stats responseType rates ∧
        collection'.collectedStats = collection.collectedStats.emplace address rates := by
  unfold collectStatisticsResult at h
  split at h
  · cases h
  · cases h
  · split at h
    · split at h
      · cases h
      · obtain ⟨_, _, h⟩ := Fault.bind_eq_ok.mp h
        cases h
        exact .inl rfl
    · obtain ⟨_, _, h⟩ := Fault.bind_eq_ok.mp h
      cases h
      exact .inr ⟨_, _, rfl, rfl⟩

theorem Asked.collectResult {rest : List String} {collection collection' : Collection}
    {response : StageResponse}
    {core core' : CoreControlApplication} (hp : Asked p) (htraced : Traced p)
    (htype : p.core.controlType = .dynamicLeftover) (hpoint : p.point = .collect (address :: rest) collection)
    (htakes : Takes p address rule response core)
    (h : collectStatisticsResult address response collection core = .ok (core', collection')) :
    Asked { p with core := core', point := .collect rest collection' } := by
  obtain ⟨hnodup, hcollected⟩ := hp.collecting _ _ hpoint
  obtain ⟨hnotin, hrest⟩ := List.nodup_cons.mp hnodup
  obtain ⟨responseType, rates, rfl, hpurged, hstages, -⟩ := collectStatisticsResult_ok h
  obtain ⟨session', hcompletion, hsubmission, hsession⟩ := takes_sessionOf htakes address
  have hsessions : ∀ a, sessionOf core' a = sessionOf core a := fun a =>
    sessionOf_congr (by rw [hpurged.localSessions])
  have hrule : rule = collectStatisticsRule 6 := by
    have hown := htraced.completed address rule responseType rates
      (by rw [hcompletion]; exact List.mem_cons_self)
    rwa [Process.subtype, if_pos htype] at hown
  have hsettled : (sessionOf core' address).outstanding.count (collectStatisticsRule 6) = 0 := by
    have honce := hp.once address
    rw [Process.asked, outstanding, hcompletion, hsubmission, List.map_cons, List.cons_append, hrule,
      List.count_cons_self] at honce
    rw [hsessions, hsession, if_pos rfl, outstanding]
    omega
  have hcontrol : core'.controlType = p.core.controlType := by
    rw [show core'.controlType = core.controlType from
      congrArg (·.controlType) (collectStatisticsResult_forgets h).frame, htakes.tables]
  have hle : ∀ a, (sessionOf core' a).outstanding.count (collectStatisticsRule 6) ≤ p.asked a := fun a => by
    rw [hsessions a]
    exact (htakes.follows a).count_le _
  refine hp.kept hle (fun a ha hopen => ?_) ?_
  · have hne : a ≠ address := by
      rintro rfl
      exact ha hsettled
    have hsame : core'.stagesOf a = p.core.stagesOf a := by
      rw [hstages, if_neg hne, htakes.tables]
      rfl
    simp only [Process.Open, hpoint, List.mem_cons, hne, false_or, Process.collects] at hopen ⊢
    rwa [hsame, hcontrol]
  · rintro _ _ ⟨⟩
    refine ⟨hrest, fun a ha => ?_⟩
    rcases collectStatisticsResult_collectedStats h with hsame | ⟨_, _, _, hadded⟩
    · rw [hsame] at ha
      exact fun hin => hcollected a ha (List.mem_cons_of_mem _ hin)
    · by_cases hne : a = address
      · exact hne ▸ hnotin
      · rw [hadded, ← AList.lookup_isSome, Assoc.lookup_emplace, if_neg hne, AList.lookup_isSome] at ha
        exact fun hin => hcollected a ha (List.mem_cons_of_mem _ hin)

theorem LoopStep.open_asked (h : LoopStep p q) (htype : p.core.controlType = .dynamicLeftover)
    (hcovered : Covered p) (htraced : Traced p) (hp : Asked p) : q.Crashed ∨ Asked q := by
  have hle : p.point ≠ .control → ∀ a, q.asked a ≤ p.asked a := fun hne a =>
    (h.asked_le htype a).resolve_right fun hsent => hne hsent.2.1
  have halive := h.alive
  have hsent := h.asked_le htype
  cases h with
  | goes point h =>
    cases h with
    | started hpoint | entered hpoint | exited hpoint | localsDone hpoint
    | stagesDone hpoint | enforceDone hpoint =>
      refine .inr (hp.kept (hle (by simp [hpoint])) (fun a _ hopen => ?_) (by simp))
      simpa only [Process.Open, hpoint] using hopen
    | collectSkip address rest collection hpoint hskip =>
      obtain ⟨hnodup, hcollected⟩ := hp.collecting _ _ hpoint
      refine .inr (hp.kept (hle (by simp [hpoint])) (fun a _ hopen => ?_) ?_)
      · simp only [Process.Open, hpoint] at hopen ⊢
        refine ⟨(List.mem_cons.mp hopen.1).resolve_left ?_, hopen.2⟩
        rintro rfl
        exact hskip hopen.2
      · rintro _ _ ⟨⟩
        exact ⟨(List.nodup_cons.mp hnodup).2, fun a ha hin => hcollected a ha (List.mem_cons_of_mem _ hin)⟩
    | _ => exact .inl ⟨_, rfl⟩
  | localTaken address rest session hpoint | handshaken address rule response core hpoint
  | stageTaken info rest session hpoint | marked info rule response core hpoint
  | enforced job address rule rest response core hpoint | finished hpoint =>
    refine .inr (hp.kept (hle (by simp [hpoint])) (fun a _ hopen => ?_) (by simp))
    simpa only [Process.Open, hpoint] using hopen
  | control hpoint h =>
    cases h with
    | requested hother => rcases hother with hother | hother <;> simp [htype] at hother
    | idle hother => rcases hother with hother | hother <;> simp [htype] at hother
    | sent _ hround =>
      have hzero : ∀ a, p.asked a = 0 := fun a => by
        by_contra hne
        have hopen := hp.opened a hne
        simp only [Process.Open, hpoint, hround] at hopen
        exact hopen.1 rfl
      refine .inr ⟨fun a => ?_, fun a ha => ?_, by simp⟩
      · have hzero := hzero a
        rcases hsent a with hle | ⟨hle, -⟩ <;> omega
      · rcases hsent a with hle | ⟨-, -, -, -, -, hmem⟩
        · exact absurd (Nat.le_zero.mp (hzero a ▸ hle)) ha
        · exact ⟨Nat.one_ne_zero, hmem⟩
    | counted _ hround =>
      refine .inr (hp.kept (fun a => le_rfl) (fun a _ hopen => ?_) (by simp))
      simp only [Process.Open, hpoint] at hopen ⊢
      exact ⟨Nat.succ_ne_zero _, hopen.2⟩
    | gathered _ hround =>
      have hne : p.roundsCounter ≠ 0 := by
        intro hzero
        rw [hzero] at hround
        cases hround
      have hstages := hcovered.waiting (by simp [hpoint]) (by simp [hpoint]) halive hne
      refine .inr (hp.kept (fun a => le_rfl) (fun a ha hopen => ?_) ?_)
      · simp only [Process.Open, hpoint] at hopen ⊢
        refine ⟨mem_sessionOrder.mpr ?_, by simp [Process.collects, hstages a hopen.2, hopen.2]⟩
        by_contra hlost
        apply ha
        rw [Process.asked, sessionOf, AList.lookup_eq_none.mpr hlost]
        rfl
      · rintro _ _ ⟨⟩
        exact ⟨sessionOrder_nodup p.core, fun a ha => absurd ha (AList.notMem_empty a)⟩
  | collectDone collection active point hpoint hgone hactive hnext =>
    rcases hnext with ⟨rfl, hstatic⟩ | rfl
    · rw [htype] at hstatic
      cases hstatic
    · refine .inr (hp.kept (hle (by simp [hpoint])) (fun a _ hopen => ?_) (by simp))
      simp [Process.Open, hpoint] at hopen
  | collectResult address rule rest collection collection' response core core' hpoint hcollects htakes h =>
    exact .inr (hp.collectResult htraced htype hpoint htakes h)
  | collectFault address rule rest collection response core fault hpoint hcollects htakes h =>
    exact .inl ⟨fault, rfl⟩
  | computed dStats core updated hpoint h =>
    refine .inr (hp.kept (hle (by simp [hpoint])) (fun a _ hopen => ?_) (by simp))
    simp only [Process.Open, hpoint] at hopen

theorem Step.open_asked {action : Action} (h : Step p action q) (htype : p.core.controlType = .dynamicLeftover)
    (hcovered : Covered p) (htraced : Traced p) (hp : Asked p) : q.Crashed ∨ Asked q := by
  cases h with
  | served address reply session session' hsession hserve =>
    refine .inr (hp.kept (fun a => ?_) (fun a _ hopen => hopen) hp.collecting)
    by_cases ha : a = address
    · subst ha
      unfold LocalControllerSession.serve at hserve
      split at hserve
      · cases hserve
      case h_2 rule rest hqueue =>
        cases hserve
        have hanswered : ∀ response : Option StageResponse,
            ((response.toList.map fun response => (rule, response)).map Prod.fst).Sublist [rule] := by
          intro response
          cases response with
          | none => exact List.nil_sublist _
          | some response => exact List.Sublist.refl _
        rw [Process.asked, sessionOf_of_lookup (AList.lookup_insert _), Process.asked,
          sessionOf_of_lookup hsession]
        simp only [outstanding, hqueue, List.map_append, List.append_assoc]
        refine (List.Sublist.append_left ?_ _).count_le _
        exact (hanswered _).append_right rest
    · rw [Process.asked, sessionOf_congr (AList.lookup_insert_ne ha)]
      exact le_rfl
  | loop h => exact h.open_asked htype hcovered htraced hp
  | _ => exact .inr ⟨hp.once, hp.opened, hp.collecting⟩

theorem asked_reach {allowed : Process → Action → Prop} (h : machine.Reach allowed p)
    (htype : p.core.controlType = .dynamicLeftover) : p.Crashed ∨ Asked p := by
  induction h with
  | start h =>
    obtain ⟨_, _, _, _, core, hops, rfl⟩ := h
    obtain ⟨ops, op, rfl⟩ := initializeOps_ok hops
    exact .inr ⟨fun a => Nat.zero_le 1, fun a ha => absurd rfl ha, by simp [Process.start]⟩
  | step hreach hallowed hstep ih =>
    have hs := step_cases hstep
    rw [hs.configured.controlType] at htype
    rcases ih htype with hc | hp
    · exact .inl (hs.crashed hc)
    · exact hs.open_asked htype (covered_reach hreach htype) (traced_reach hreach) hp

end FeedbackLoop

end Cheferd
