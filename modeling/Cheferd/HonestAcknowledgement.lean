import Cheferd.RateConservation
import Cheferd.LocalMembership

namespace Cheferd

open Library Strings

namespace LocalControlApplication

structure Submission where
  stageNameEnv : String
  ruleId : ℤ
  channelObject : Int32 × Int32
  limit : ℤ
deriving DecidableEq

namespace Submission

def raw (x : Submission) : PaioInterface.EnforcementRuleRaw := rateRule x.ruleId x.limit x.channelObject

def Fits (x : Submission) : Prop := Decimal.InRange 64 x.ruleId ∧ Decimal.InRange 64 x.limit

end Submission

inductive Task
  | unknown (operation : String)
  | submit (submission : Submission)

def Task.submission? : Task → Option Submission
  | .unknown _ => none
  | .submit x => some x

def submissions (tasks : List Task) : List Submission := tasks.filterMap Task.submission?

def EndsInSubmission (tasks : List Task) : Prop := (tasks.getLast?.bind Task.submission?).isSome = true

abbrev Channels := Assoc String (List (Int32 × Int32))

def envTasks (channels : Channels) (operation : String) (rules : EnforcementOpRules) (envRate : Σ _ : ℤ, ℤ) :
    List Task :=
  match channels.lookup operation with
  | none => [.unknown operation]
  | some existingChannels => existingChannels.map fun channelObject =>
    .submit ⟨stageKey rules.stageName envRate.1, rules.ruleId, channelObject,
      limitPerChannel envRate.2 existingChannels.length⟩

def operationTasks (outside : Surroundings) (channels : Channels) (rules : Σ _ : String, EnforcementOpRules) :
    List Task :=
  (outside.envOrder.order rules.2.envRates.entries).flatMap (envTasks channels rules.1 rules.2)

def tasks (outside : Surroundings) (channels : Channels) (request : EnforcementRules) : List Task :=
  (outside.opOrder.order request.entries).flatMap (operationTasks outside channels)

def named (channels : Channels) (request : EnforcementRules) : List Submission :=
  request.entries.flatMap fun rules =>
    rules.2.envRates.entries.flatMap fun envRate => submissions (envTasks channels rules.1 rules.2 envRate)

def perform (stages : String → Stage) (s : Enforcing) : Task → Except Fault Enforcing
  | .unknown _ => .ok (if s.returned then s else { s with message := 0, ok := false })
  | .submit x => enforceChannel stages x.ruleId x.stageNameEnv x.limit s x.channelObject

theorem localPassthru_channels {stages : String → Stage} {key rule : String}
    {app app' : LocalControlApplication}
    {acked : Bool} (h : localPassthru stages key rule app = .ok (app', acked)) :
    app'.operationToChannelObject = app.operationToChannelObject := by
  unfold localPassthru at h
  split at h
  · cases h
  · obtain ⟨⟨session', value⟩, _, h⟩ := Fault.bind_eq_ok.mp h
    cases h
    rfl

theorem perform_channels {stages : String → Stage} {s t : Enforcing} {task : Task}
    (h : perform stages s task = .ok t) : t.app.operationToChannelObject = s.app.operationToChannelObject := by
  cases task with
  | unknown operation =>
    cases h
    split <;> rfl
  | submit x =>
    simp only [perform, enforceChannel] at h
    split at h
    · cases h
      rfl
    · obtain ⟨⟨app', acked⟩, hpass, h⟩ := Fault.bind_eq_ok.mp h
      cases h
      exact localPassthru_channels hpass

theorem foldlM_perform_returned {stages : String → Stage} {s : Enforcing} (hs : s.returned = true)
    (tasks : List Task) : tasks.foldlM (perform stages) s = .ok s := by
  induction tasks with
  | nil => rfl
  | cons task tasks ih =>
    have hstep : perform stages s task = .ok s := by
      cases task <;> simp [perform, enforceChannel, hs]
    rw [List.foldlM_cons, hstep]
    exact ih

theorem enforceEnv_eq {stages : String → Stage} {operation : String} {rules : EnforcementOpRules}
    (s : Enforcing)
    (envRate : Σ _ : ℤ, ℤ) :
    enforceEnv stages operation rules s envRate =
      (envTasks s.app.operationToChannelObject operation rules envRate).foldlM (perform stages) s := by
  by_cases hs : s.returned = true
  · rw [foldlM_perform_returned hs, enforceEnv, if_pos hs]
  · rw [enforceEnv, if_neg hs, envTasks]
    cases s.app.operationToChannelObject.lookup operation with
    | none => simp [perform, hs]
    | some existingChannels => rw [List.foldlM_map]; rfl

theorem createEnforcementRule_eq (outside : Surroundings) (request : EnforcementRules)
    (app : LocalControlApplication) :
    createEnforcementRule outside request app =
      (tasks outside app.operationToChannelObject request).foldlM (perform outside.stages)
      ⟨app, 0, true, false⟩ := by
  let I := fun s : Enforcing => s.app.operationToChannelObject = app.operationToChannelObject
  have hbody : ∀ s task t, I s → perform outside.stages s task = .ok t → I t := fun s task t hs ht =>
    (perform_channels ht).trans hs
  refine Lists.foldlM_flatMap (I := I) hbody (fun s rules hs => ?_) rfl
  refine Lists.foldlM_flatMap (I := I) hbody (fun s envRate hs => ?_) hs
  rw [enforceEnv_eq, hs]

def performLogged (stages : String → Stage) (s : Enforcing × List (Submission × Bool)) :
    Task → Except Fault (Enforcing × List (Submission × Bool))
  | .unknown _ => .ok (if s.1.returned then s else ({ s.1 with message := 0, ok := false }, s.2))
  | .submit x =>
    if s.1.returned then .ok s
    else do
      let (app, ok) ← localPassthru stages x.stageNameEnv
        (enforcementRule x.ruleId x.channelObject x.limit) s.1.app
      return (⟨app, 1, true, !ok⟩, s.2 ++ [(x, ok)])

theorem performLogged_fst (stages : String → Stage) (s : Enforcing × List (Submission × Bool)) (task : Task) :
    (performLogged stages s task).map Prod.fst = perform stages s.1 task := by
  cases task with
  | unknown operation =>
    by_cases hs : s.1.returned = true <;> simp [performLogged, perform, hs, Except.map]
  | submit x =>
    by_cases hs : s.1.returned = true
    · simp [performLogged, perform, enforceChannel, hs, Except.map]
    · simp only [performLogged, perform, enforceChannel, if_neg hs]
      cases localPassthru stages x.stageNameEnv (enforcementRule x.ruleId x.channelObject x.limit)
        s.1.app <;> rfl

def createEnforcementRuleLogged (outside : Surroundings) (request : EnforcementRules)
    (app : LocalControlApplication) : Except Fault (Enforcing × List (Submission × Bool)) :=
  (tasks outside app.operationToChannelObject request).foldlM (performLogged outside.stages)
    (⟨app, 0, true, false⟩, [])

theorem createEnforcementRuleLogged_fst (outside : Surroundings) (request : EnforcementRules)
    (app : LocalControlApplication) :
    (createEnforcementRuleLogged outside request app).map Prod.fst =
    createEnforcementRule outside request app := by
  rw [createEnforcementRule_eq, createEnforcementRuleLogged]
  exact Lists.foldlM_map_state Prod.fst (performLogged_fst outside.stages) _ _

def rulesTo (stageNameEnv : String) (done : List Submission) : List PaioInterface.EnforcementRuleRaw :=
  (done.filter (·.stageNameEnv = stageNameEnv)).map Submission.raw

def receivedBy (app : LocalControlApplication) (stageNameEnv : String) :
    List PaioInterface.EnforcementRuleRaw :=
  (app.dataSessions.lookup stageNameEnv).elim [] (·.received)

def Acknowledged (stages : String → Stage) (app : LocalControlApplication)
    (submissions : List Submission) : Prop :=
  ∀ done x rest, submissions = done ++ x :: rest →
    x.Fits ∧ (stages x.stageNameEnv).acknowledge
      (app.receivedBy x.stageNameEnv ++ rulesTo x.stageNameEnv done ++ [x.raw]) = some 1

section Acknowledged

variable {stages : String → Stage} {app app' : LocalControlApplication} {x : Submission} {xs : List Submission}

theorem receivedBy_of_lookup {key : String} {session : DataPlaneSession}
    (hl : app.dataSessions.lookup key = some session) : app.receivedBy key = session.received := by
  rw [receivedBy, hl]
  rfl

theorem receivedBy_delivered {added : String → List PaioInterface.EnforcementRuleRaw}
    (h : Delivered added app app')
    {key : String} (hkey : key ∈ app.dataSessions) : app'.receivedBy key = app.receivedBy key ++ added key := by
  obtain ⟨session, hl⟩ := Option.isSome_iff_exists.mp (AList.lookup_isSome.mpr hkey)
  simp [receivedBy, h.sessions, hl]

theorem acknowledged_nil : Acknowledged stages app [] := by
  intro done x rest h
  exact absurd h.symm (by simp)

theorem acknowledged_cons
    (h : Delivered (fun key => if key = x.stageNameEnv then [x.raw] else []) app app')
    (hkeys : ∀ y ∈ xs, y.stageNameEnv ∈ app.dataSessions) :
    Acknowledged stages app (x :: xs) ↔
      (x.Fits ∧ (stages x.stageNameEnv).acknowledge (app.receivedBy x.stageNameEnv ++ [x.raw]) = some 1) ∧
      Acknowledged stages app' xs := by
  have hbefore : ∀ done, ∀ y ∈ xs, app'.receivedBy y.stageNameEnv ++ rulesTo y.stageNameEnv done =
      app.receivedBy y.stageNameEnv ++ rulesTo y.stageNameEnv (x :: done) := by
    intro done y hy
    rw [receivedBy_delivered h (hkeys y hy), List.append_assoc]
    congr 1
    by_cases hkey : x.stageNameEnv = y.stageNameEnv
    · simp [rulesTo, hkey]
    · simp [rulesTo, hkey, Ne.symm hkey]
  constructor
  · intro hall
    refine ⟨?_, fun done y rest hxs => ?_⟩
    · simpa [rulesTo] using hall [] x xs rfl
    · rw [hbefore done y (by simp [hxs])]
      exact hall (x :: done) y rest (by rw [hxs]; rfl)
  · rintro ⟨hx, hxs⟩ done y rest hcons
    cases done with
    | nil =>
      cases hcons
      simpa [rulesTo] using hx
    | cons z done =>
      obtain ⟨rfl, htail⟩ := List.cons.inj hcons
      rw [← hbefore done y (by simp [htail])]
      exact hxs done y rest htail

end Acknowledged

theorem localPassthru_rate {stages : String → Stage} {key : String} {session : DataPlaneSession}
    {ruleId limit : ℤ}
    {channelObject : Int32 × Int32} {app app' : LocalControlApplication} {acked : Bool}
    (hl : app.dataSessions.lookup key = some session)
    (h : localPassthru stages key (enforcementRule ruleId channelObject limit) app = .ok (app', acked)) :
    (Decimal.InRange 64 ruleId ∧ Decimal.InRange 64 limit) ∧
      (acked = true →
        (stages key).acknowledge (session.received ++ [rateRule ruleId limit channelObject]) = some 1) := by
  simp only [localPassthru, hl, DataPlaneSession.createEnforcementRule, parseRule_enforcementRule] at h
  obtain ⟨⟨session', value⟩, hsession, h⟩ := Fault.bind_eq_ok.mp h
  obtain ⟨raw, hraw, hsession⟩ := Fault.bind_eq_ok.mp hsession
  obtain ⟨hfits, rfl⟩ := (fillEnforcementRule_rate channelObject raw).mp hraw
  refine ⟨hfits, fun hacked => ?_⟩
  cases h
  have hvalue : value = 1 := by simpa using hacked
  subst hvalue
  cases hack : (stages key).acknowledge (session.received ++ [rateRule ruleId limit channelObject]) with
  | none =>
    rw [hack] at hsession
    cases hsession
  | some value =>
    rw [hack] at hsession
    cases hsession
    rfl

section Runs

variable {stages : String → Stage} {s t : Enforcing × List (Submission × Bool)} {ts : List Task}

theorem foldlM_performLogged_returned (hs : s.1.returned = true) (ts : List Task) :
    ts.foldlM (performLogged stages) s = .ok s := by
  induction ts with
  | nil => rfl
  | cons task ts ih =>
    have hstep : performLogged stages s task = .ok s := by
      cases task <;> simp [performLogged, hs]
    rw [List.foldlM_cons, hstep]
    exact ih

theorem foldlM_performLogged_acknowledged (hs : s.1.returned = false)
    (hkeys : ∀ x ∈ submissions ts, x.stageNameEnv ∈ s.1.app.dataSessions)
    (hack : Acknowledged stages s.1.app (submissions ts)) :
    ∃ t, ts.foldlM (performLogged stages) s = .ok (t, s.2 ++ (submissions ts).map (·, true)) ∧
      (t.ok = true ∧ t.message = 1 ↔
        ts.getLast?.elim (s.1.ok = true ∧ s.1.message = 1) (·.submission?.isSome = true)) := by
  induction ts generalizing s with
  | nil => exact ⟨s.1, by simp [submissions, pure, Except.pure], Iff.rfl⟩
  | cons task ts ih =>
    have hlast : ∀ p : Prop, (p ↔ task.submission?.isSome = true) →
        (ts.getLast?.elim p (·.submission?.isSome = true) ↔
          (task :: ts).getLast?.elim (s.1.ok = true ∧ s.1.message = 1) (·.submission?.isSome = true)) := by
      intro p hp
      rw [List.getLast?_cons]
      cases ts.getLast? with
      | none => exact hp
      | some last => exact Iff.rfl
    cases task with
    | unknown operation =>
      obtain ⟨t, hfold, ht⟩ := ih (s := ({ s.1 with message := 0, ok := false }, s.2)) hs hkeys hack
      refine ⟨t, ?_, ht.trans (hlast _ (by simp [Task.submission?]))⟩
      rw [List.foldlM_cons, performLogged, if_neg (by simp [hs])]
      exact hfold
    | submit x =>
      obtain ⟨session, hl⟩ := Option.isSome_iff_exists.mp (AList.lookup_isSome.mpr (hkeys x List.mem_cons_self))
      obtain ⟨hfits, hfirst⟩ := hack [] x (submissions ts) rfl
      rw [receivedBy_of_lookup hl, rulesTo, List.filter_nil, List.map_nil, List.append_nil] at hfirst
      obtain ⟨app', hpass, hdelivered⟩ := localPassthru_delivered x.channelObject hfirst hl hfits.1 hfits.2
      have hrest : ∀ y ∈ submissions ts, y.stageNameEnv ∈ s.1.app.dataSessions := fun y hy =>
        hkeys y (List.mem_cons_of_mem _ hy)
      obtain ⟨t, hfold, ht⟩ := ih (s := (⟨app', 1, true, false⟩, s.2 ++ [(x, true)])) rfl
        (fun y hy => ((localPassthru_keys hpass).2 _).mpr (hrest y hy))
        ((acknowledged_cons hdelivered hrest).mp hack).2
      refine ⟨t, ?_, ht.trans (hlast _ (by simp [Task.submission?]))⟩
      rw [List.foldlM_cons, performLogged, if_neg (by simp [hs]), hpass]
      simpa [submissions, Task.submission?] using hfold

theorem foldlM_performLogged_ok (hs : s.1.returned = false)
    (hkeys : ∀ x ∈ submissions ts, x.stageNameEnv ∈ s.1.app.dataSessions)
    (h : ts.foldlM (performLogged stages) s = .ok t) :
    Acknowledged stages s.1.app (submissions ts) ∨
      t.1.ok = true ∧ t.1.message = 1 ∧ ∃ e ∈ t.2, e.2 = false := by
  induction ts generalizing s with
  | nil => exact .inl acknowledged_nil
  | cons task ts ih =>
    rw [List.foldlM_cons] at h
    obtain ⟨u, hu, h⟩ := Fault.bind_eq_ok.mp h
    cases task with
    | unknown operation =>
      rw [performLogged, if_neg (by simp [hs])] at hu
      cases hu
      exact ih (s := ({ s.1 with message := 0, ok := false }, s.2)) hs hkeys h
    | submit x =>
      rw [performLogged, if_neg (by simp [hs])] at hu
      obtain ⟨⟨app', acked⟩, hpass, hu⟩ := Fault.bind_eq_ok.mp hu
      cases hu
      cases acked with
      | false =>
        rw [foldlM_performLogged_returned rfl] at h
        cases h
        exact .inr ⟨rfl, rfl, (x, false), by simp, rfl⟩
      | true =>
        obtain ⟨session, hl⟩ := Option.isSome_iff_exists.mp
          (AList.lookup_isSome.mpr (hkeys x List.mem_cons_self))
        obtain ⟨hfits, hack⟩ := localPassthru_rate hl hpass
        have hdelivered : Delivered (fun key => if key = x.stageNameEnv then [x.raw] else []) s.1.app app' := by
          obtain ⟨app'', hpass', hdelivered⟩ :=
            localPassthru_delivered x.channelObject (hack rfl) hl hfits.1 hfits.2
          rw [hpass'] at hpass
          cases hpass
          exact hdelivered
        have hrest : ∀ y ∈ submissions ts, y.stageNameEnv ∈ s.1.app.dataSessions := fun y hy =>
          hkeys y (List.mem_cons_of_mem _ hy)
        have hlater := ih (s := (⟨app', 1, true, false⟩, s.2 ++ [(x, true)])) rfl
          (fun y hy => ((localPassthru_keys hpass).2 _).mpr (hrest y hy)) h
        refine hlater.imp_left fun hacks => (acknowledged_cons hdelivered hrest).mpr ⟨⟨hfits, ?_⟩, hacks⟩
        rw [receivedBy_of_lookup hl]
        exact hack rfl

end Runs

section Requests

variable (outside : Surroundings) (request : EnforcementRules) (app : LocalControlApplication)

theorem submissions_tasks (channels : Channels) :
    (submissions (tasks outside channels request)).Perm (named channels request) := by
  rw [submissions, tasks, List.filterMap_flatMap]
  refine List.Perm.flatMap (outside.opOrder.perm _) fun rules _ => ?_
  rw [operationTasks, List.filterMap_flatMap]
  exact List.Perm.flatMap_right _ (outside.envOrder.perm _)

theorem mem_named {channels : Channels} {x : Submission} (h : x ∈ named channels request) :
    ∃ rules ∈ request.entries, ∃ envRate ∈ rules.2.envRates.entries,
      x.stageNameEnv = stageKey rules.2.stageName envRate.1 := by
  obtain ⟨rules, hrules, h⟩ := List.mem_flatMap.mp h
  obtain ⟨envRate, henvRate, h⟩ := List.mem_flatMap.mp h
  obtain ⟨task, htask, hx⟩ := List.mem_filterMap.mp h
  refine ⟨rules, hrules, envRate, henvRate, ?_⟩
  unfold envTasks at htask
  split at htask
  · cases List.mem_singleton.mp htask
    cases hx
  · obtain ⟨channelObject, _, rfl⟩ := List.mem_map.mp htask
    cases hx
    rfl

def Honest : Prop :=
  ∃ t log, createEnforcementRuleLogged outside request app = .ok (t, log) ∧
    (log.map Prod.fst).Perm (named app.operationToChannelObject request) ∧
    (t.ok = true ∧ t.message = 1 →
      (∀ rules ∈ request.entries, rules.1 ∈ app.operationToChannelObject) ∧ ∀ e ∈ log, e.2 = true)

/-- An unknown operation is told as long as no rule is submitted after its last turn, a stage that refuses
never. -/
theorem acknowledgement_honest_iff
    (hsessions : ∀ rules ∈ request.entries, ∀ envRate ∈ rules.2.envRates.entries,
      stageKey rules.2.stageName envRate.1 ∈ app.dataSessions) :
    Honest outside request app ↔
      Acknowledged outside.stages app (submissions (tasks outside app.operationToChannelObject request)) ∧
      (EndsInSubmission (tasks outside app.operationToChannelObject request) →
        ∀ rules ∈ request.entries, rules.1 ∈ app.operationToChannelObject) := by
  have hperm := submissions_tasks outside request app.operationToChannelObject
  have hkeys : ∀ x ∈ submissions (tasks outside app.operationToChannelObject request),
      x.stageNameEnv ∈ app.dataSessions := by
    intro x hx
    obtain ⟨rules, hrules, envRate, henvRate, hkey⟩ := mem_named request (hperm.mem_iff.mp hx)
    rw [hkey]
    exact hsessions rules hrules envRate henvRate
  have hserved : Acknowledged outside.stages app
      (submissions (tasks outside app.operationToChannelObject request)) →
      ∃ t, createEnforcementRuleLogged outside request app =
          .ok (t, (submissions (tasks outside app.operationToChannelObject request)).map (·, true)) ∧
        (t.ok = true ∧ t.message = 1 ↔ EndsInSubmission (tasks outside app.operationToChannelObject request)) :=
        by
    intro hack
    obtain ⟨t, hrun, ht⟩ := foldlM_performLogged_acknowledged (s := (⟨app, 0, true, false⟩, [])) rfl hkeys hack
    refine ⟨t, hrun, ht.trans ?_⟩
    unfold EndsInSubmission
    cases (tasks outside app.operationToChannelObject request).getLast? <;> simp
  constructor
  · rintro ⟨t, log, hrun, _, hhonest⟩
    rcases foldlM_performLogged_ok (s := (⟨app, 0, true, false⟩, [])) rfl hkeys hrun with hack |
      ⟨hok, hmessage, hrefused⟩
    · obtain ⟨t', hrun', ht'⟩ := hserved hack
      rw [hrun'] at hrun
      cases hrun
      exact ⟨hack, fun hends => (hhonest (ht'.mpr hends)).1⟩
    · obtain ⟨e, he, hrefused⟩ := hrefused
      exact absurd ((hhonest ⟨hok, hmessage⟩).2 e he) (by simp [hrefused])
  · rintro ⟨hack, hknown⟩
    obtain ⟨t, hrun, ht⟩ := hserved hack
    refine ⟨t, _, hrun, ?_, fun hreply => ⟨hknown (ht.mp hreply), ?_⟩⟩
    · simpa [List.map_map, Function.comp_def] using hperm
    · intro e he
      obtain ⟨x, _, rfl⟩ := List.mem_map.mp he
      rfl

end Requests

section Refusal

def twoStages : LocalControlApplication :=
  { LocalControlApplication.new [] with
    dataSessions := ((∅ : Assoc String DataPlaneSession).insert (stageKey "app" 2) .new).insert
      (stageKey "app" 1) .new
    operationToChannelObject := (∅ : Channels).insert "read" [(1000, 1)] }

def readRequest : EnforcementRules :=
  (∅ : EnforcementRules).insert "read" ⟨1, "app", ((∅ : Assoc ℤ ℤ).insert 2 200).insert 1 100⟩

def refusing : Surroundings :=
  ⟨fun key => ⟨fun _ => if key = stageKey "app" 1 then some 0 else some 1, fun _ => none⟩, .id, .id, .id⟩

theorem acknowledgement_dishonest :
    (∀ rules ∈ readRequest.entries, ∀ envRate ∈ rules.2.envRates.entries,
      stageKey rules.2.stageName envRate.1 ∈ twoStages.dataSessions) ∧
    (∃ t, createEnforcementRuleLogged refusing readRequest twoStages =
        .ok (t, [(⟨stageKey "app" 1, 1, (1000, 1), 100⟩, false)]) ∧ t.ok = true ∧ t.message = 1) ∧
    ¬ Honest refusing readRequest twoStages := by
  have hsessions : ∀ rules ∈ readRequest.entries, ∀ envRate ∈ rules.2.envRates.entries,
      stageKey rules.2.stageName envRate.1 ∈ twoStages.dataSessions := by decide +kernel
  have hrun : (createEnforcementRuleLogged refusing readRequest twoStages).toOption.any (fun p => decide
      (p.2 = [(⟨stageKey "app" 1, 1, (1000, 1), 100⟩, false)] ∧ p.1.ok = true ∧ p.1.message = 1)) = true := by
    decide +kernel
  obtain ⟨⟨t, log⟩, hrun, rfl, hreply⟩ := Fault.exists_of_any hrun
  refine ⟨hsessions, ⟨t, hrun, hreply⟩, ?_⟩
  rintro ⟨t', log', hrun', _, hhonest⟩
  rw [hrun] at hrun'
  cases hrun'
  exact absurd ((hhonest hreply).2 _ List.mem_cons_self) (by decide)

def agreeing : Surroundings := ⟨fun _ => ⟨fun _ => some 1, fun _ => none⟩, .id, .id, .id⟩

theorem acknowledgement_honest_two_stages :
    Honest agreeing readRequest twoStages ∧
      submissions (tasks agreeing twoStages.operationToChannelObject readRequest) =
        [⟨stageKey "app" 1, 1, (1000, 1), 100⟩, ⟨stageKey "app" 2, 1, (1000, 1), 200⟩] := by
  have hsubmissions : submissions (tasks agreeing twoStages.operationToChannelObject readRequest) =
      [⟨stageKey "app" 1, 1, (1000, 1), 100⟩, ⟨stageKey "app" 2, 1, (1000, 1), 200⟩] := by decide +kernel
  refine ⟨(acknowledgement_honest_iff agreeing readRequest twoStages (by decide +kernel)).mpr ⟨?_, ?_⟩,
    hsubmissions⟩
  · intro done x rest hsplit
    have hfits : ∀ x ∈ submissions (tasks agreeing twoStages.operationToChannelObject readRequest), x.Fits := by
      rw [hsubmissions]
      unfold Submission.Fits
      decide
    exact ⟨hfits x (by rw [hsplit]; simp), rfl⟩
  · exact fun _ => by decide +kernel

end Refusal

end LocalControlApplication

end Cheferd
