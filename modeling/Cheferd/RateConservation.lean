import Cheferd.EnforcementRoundTrip
import Cheferd.Enforcement
import Cheferd.Registry
import Mathlib.Algebra.BigOperators.Ring.List

namespace Cheferd

open Library Strings

namespace LocalControlApplication

structure Delivered (added : String → List PaioInterface.EnforcementRuleRaw)
    (app app' : LocalControlApplication) :
    Prop where
  frame : app' = { app with dataSessions := app'.dataSessions }
  sessions : ∀ key, app'.dataSessions.lookup key =
    (app.dataSessions.lookup key).map fun session => ⟨session.received ++ added key⟩

theorem Delivered.none (app : LocalControlApplication) : Delivered (fun _ => []) app app := by
  refine ⟨rfl, fun key => ?_⟩
  simp only [List.append_nil]
  exact Option.map_id'.symm

theorem Delivered.trans {added added' : String → List PaioInterface.EnforcementRuleRaw}
    {app app' app'' : LocalControlApplication} (h : Delivered added app app')
    (h' : Delivered added' app' app'') :
    Delivered (fun key => added key ++ added' key) app app'' := by
  refine ⟨?_, fun key => ?_⟩
  · rw [h'.frame, h.frame]
  · rw [h'.sessions, h.sessions, Option.map_map]
    congr 1
    funext session
    simp

def rateRule (ruleId limit : ℤ) (channelObject : Int32 × Int32) : PaioInterface.EnforcementRuleRaw :=
  ⟨ruleId, channelObject.1.toInt, channelObject.2.toInt, 2, limit, -1, -1⟩

theorem inRange_int32 (v : Int32) : Decimal.InRange 64 v.toInt :=
  Decimal.InRange.widen ⟨Int32.le_toInt v, Int32.toInt_lt v⟩

theorem parseRule_enforcementRule (ruleId : ℤ) (channelObject : Int32 × Int32) (limit : ℤ) :
    PaioInterface.parseRule (enforcementRule ruleId channelObject limit) =
      ["6", toString ruleId, toString channelObject.1.toInt, toString channelObject.2.toInt, "drl", "rate",
        toString limit] := by
  have hplain := fun v : ℤ => plain_toString '|' v (by decide) (by decide)
  have hsplit : enforcementRule ruleId channelObject limit =
      terminated "|" ["6", toString ruleId, toString channelObject.1.toInt,
      toString channelObject.2.toInt, "drl", "rate"] ++ toString limit := by
    refine String.toList_inj.mp ?_
    simp only [enforcementRule, terminated, List.foldr_cons, List.foldr_nil, String.toList_append,
      List.append_assoc]
    rfl
  rw [hsplit]
  simp only [terminated, List.foldr_cons, List.foldr_nil, PaioInterface.parseRule, String.append_assoc,
    String.empty_append, parseRule_append '|' "|" _ _ rfl, parseRule_single '|' _ (hplain _).1 (hplain _).2]
  rfl

theorem fillEnforcementRule_rate {ruleId limit : ℤ} (channelObject : Int32 × Int32)
    (raw : PaioInterface.EnforcementRuleRaw) :
    PaioInterface.fillEnforcementRule ["6", toString ruleId, toString channelObject.1.toInt,
        toString channelObject.2.toInt, "drl", "rate", toString limit] = .ok raw ↔
      (Decimal.InRange 64 ruleId ∧ Decimal.InRange 64 limit) ∧ raw = rateRule ruleId limit channelObject := by
  have hchannel := number_toString 64 _ (inRange_int32 channelObject.1)
  have hobject := number_toString 64 _ (inRange_int32 channelObject.2)
  have hoperation : RulesFileParser.convertEnforcementOperation
      (RulesFileParser.convertObjectType "drl") "rate" = 2 := by
    decide
  simp only [PaioInterface.fillEnforcementRule, token, List.getElem?_cons_zero, List.getElem?_cons_succ,
    Fault.ok_bind, hoperation, stoll, stol, hchannel, hobject, Fault.bind_eq_ok, number_toString_eq_ok]
  constructor
  · rintro ⟨_, ⟨hid, rfl⟩, _, ⟨hlimit, rfl⟩, h⟩
    cases h
    exact ⟨⟨hid, hlimit⟩, rfl⟩
  · rintro ⟨⟨hid, hlimit⟩, rfl⟩
    exact ⟨_, ⟨hid, rfl⟩, _, ⟨hlimit, rfl⟩, rfl⟩

theorem localPassthru_delivered {stages : String → Stage} {app : LocalControlApplication} {key : String}
    {session : DataPlaneSession} {ruleId limit : ℤ} (channelObject : Int32 × Int32)
    (hack : (stages key).acknowledge (session.received ++ [rateRule ruleId limit channelObject]) = some 1)
    (hl : app.dataSessions.lookup key = some session) (hid : Decimal.InRange 64 ruleId)
    (hlimit : Decimal.InRange 64 limit) :
    ∃ app', localPassthru stages key (enforcementRule ruleId channelObject limit) app = .ok (app', true) ∧
      Delivered (fun k => if k = key then [rateRule ruleId limit channelObject] else []) app app' := by
  have hfill := (fillEnforcementRule_rate channelObject _).mpr ⟨⟨hid, hlimit⟩, rfl⟩
  have hsend : session.createEnforcementRule (stages key) (enforcementRule ruleId channelObject limit) =
      .ok (⟨session.received ++ [rateRule ruleId limit channelObject]⟩, 1) := by
    rw [DataPlaneSession.createEnforcementRule, parseRule_enforcementRule]
    simp only [hfill, Fault.ok_bind, hack]
    rfl
  refine ⟨_, by rw [localPassthru, hl]; simp only [hsend, Fault.ok_bind]; rfl, rfl, fun k => ?_⟩
  refine (Assoc.lookup_insert_eq _ _ _ _).trans ?_
  by_cases hk : k = key
  · subst hk
    simp [hl]
  · simp only [hk, if_false, List.append_nil]
    exact Option.map_id'.symm

theorem enforceChannels_delivered {stages : String → Stage} {key : String} {ruleId limit : ℤ}
    (hack : ∀ received, (stages key).acknowledge received = some 1) (hid : Decimal.InRange 64 ruleId)
    (hlimit : Decimal.InRange 64 limit) (channels : List (Int32 × Int32)) {s : Enforcing}
    (hs : s.returned = false)
    (hmem : key ∈ s.app.dataSessions) :
    ∃ t, channels.foldlM (enforceChannel stages ruleId key limit) s = .ok t ∧ t.returned = false ∧
      Delivered (fun k => if k = key then channels.map (rateRule ruleId limit) else []) s.app t.app := by
  induction channels generalizing s with
  | nil => exact ⟨s, rfl, hs, by simpa using Delivered.none s.app⟩
  | cons channelObject channels ih =>
    obtain ⟨session, hl⟩ := Option.isSome_iff_exists.mp (AList.lookup_isSome.mpr hmem)
    obtain ⟨app', hpass, hdelivered⟩ := localPassthru_delivered channelObject (hack _) hl hid hlimit
    have hstep : enforceChannel stages ruleId key limit s channelObject = .ok ⟨app', 1, true, false⟩ := by
      rw [enforceChannel, hs]
      simp only [hpass, Fault.ok_bind]
      rfl
    have hmem' : key ∈ app'.dataSessions := by
      rw [← AList.lookup_isSome, hdelivered.sessions, hl]
      rfl
    obtain ⟨t, hfold, ht, hrest⟩ := ih (s := ⟨app', 1, true, false⟩) rfl hmem'
    refine ⟨t, by rw [List.foldlM_cons, hstep]; exact hfold, ht, ?_⟩
    have hboth := hdelivered.trans hrest
    have heq : (fun k => (if k = key then [rateRule ruleId limit channelObject] else []) ++
        if k = key then channels.map (rateRule ruleId limit) else []) =
        fun k => if k = key then (channelObject :: channels).map (rateRule ruleId limit) else [] := by
      funext k
      by_cases hk : k = key <;> simp [hk]
    rwa [heq] at hboth

structure Ready (stages : String → Stage) (operation name : String) (channels : List (Int32 × Int32))
    (app : LocalControlApplication) (envs : List ℤ) : Prop where
  channels : app.operationToChannelObject.lookup operation = some channels
  sessions : ∀ env ∈ envs, stageKey name env ∈ app.dataSessions
  acknowledges : ∀ env ∈ envs, ∀ received, (stages (stageKey name env)).acknowledge received = some 1

def rulesFor (ruleId limit : ℤ) (name : String) (channels : List (Int32 × Int32)) (envs : List ℤ)
    (key : String) :
    List PaioInterface.EnforcementRuleRaw :=
  envs.flatMap fun env => if key = stageKey name env then channels.map (rateRule ruleId limit) else []

theorem rulesFor_nodup {ruleId limit : ℤ} {name : String} {channels : List (Int32 × Int32)} {envs : List ℤ}
    (hnodup : envs.Nodup) {env : ℤ} (henv : env ∈ envs) :
    rulesFor ruleId limit name channels envs (stageKey name env) = channels.map (rateRule ruleId limit) := by
  induction envs with
  | nil => cases henv
  | cons other envs ih =>
    obtain ⟨hnotin, hnodup⟩ := List.nodup_cons.mp hnodup
    have hnone : env ∉ envs → rulesFor ruleId limit name channels envs (stageKey name env) = [] := by
      intro hn
      refine List.flatMap_eq_nil_iff.mpr fun e he => if_neg fun hkey => hn ?_
      rwa [(stageKey_inj hkey).2]
    rw [rulesFor, List.flatMap_cons]
    rcases List.mem_cons.mp henv with rfl | henv
    · have hrest := hnone hnotin
      rw [rulesFor] at hrest
      rw [if_pos rfl, hrest, List.append_nil]
    · have hne : stageKey name env ≠ stageKey name other := by
        intro hkey
        exact hnotin ((stageKey_inj hkey).2 ▸ henv)
      rw [if_neg hne, List.nil_append]
      exact ih hnodup henv

theorem enforceEnvs_delivered {stages : String → Stage} {operation : String}
    {rules : EnforcementOpRules} {rate : ℤ}
    {channels : List (Int32 × Int32)} (hid : Decimal.InRange 64 rules.ruleId)
    (hlimit : Decimal.InRange 64 (limitPerChannel rate channels.length)) {envs : List ℤ} {s : Enforcing}
    (hs : s.returned = false) (hready : Ready stages operation rules.stageName channels s.app envs) :
    ∃ t, (envs.map fun env => (⟨env, rate⟩ : Σ _ : ℤ, ℤ)).foldlM (enforceEnv stages operation rules) s = .ok t ∧
      t.returned = false ∧
      Delivered (rulesFor rules.ruleId (limitPerChannel rate channels.length) rules.stageName channels envs)
        s.app t.app := by
  induction envs generalizing s with
  | nil => exact ⟨s, rfl, hs, Delivered.none s.app⟩
  | cons env envs ih =>
    obtain ⟨u, hstep, hu, hdelivered⟩ :=
      enforceChannels_delivered (hready.acknowledges env List.mem_cons_self) hid
      hlimit channels hs (hready.sessions env List.mem_cons_self)
    have hmem : ∀ key, key ∈ s.app.dataSessions → key ∈ u.app.dataSessions := by
      intro key hkey
      rw [← AList.lookup_isSome] at hkey ⊢
      rw [hdelivered.sessions, Option.isSome_map]
      exact hkey
    have hready' : Ready stages operation rules.stageName channels u.app envs :=
      ⟨by rw [hdelivered.frame]; exact hready.channels,
        fun e he => hmem _ (hready.sessions e (List.mem_cons_of_mem _ he)),
        fun e he => hready.acknowledges e (List.mem_cons_of_mem _ he)⟩
    obtain ⟨t, hfold, ht, hrest⟩ := ih hu hready'
    refine ⟨t, ?_, ht, hdelivered.trans hrest⟩
    rw [List.map_cons, List.foldlM_cons, enforceEnv, hs]
    simp only [hready.channels, hstep, Fault.ok_bind, Bool.false_eq_true, if_false]
    exact hfold

theorem createEnforcementRule_delivered (outside : Surroundings) {app : LocalControlApplication}
    {operation name : String} {rate : ℤ} {channels : List (Int32 × Int32)} {envs : List ℤ}
    {envRates : Assoc ℤ ℤ}
    (hlimit : Decimal.InRange 64 (limitPerChannel rate channels.length)) (hnodup : envs.Nodup)
    (hperm : envRates.entries.Perm (envs.map fun env => ⟨env, rate⟩))
    (hready : Ready outside.stages operation name channels app envs) :
    ∃ t added, createEnforcementRule outside ((∅ : EnforcementRules).insert operation ⟨0, name, envRates⟩)
      app = .ok t ∧
      Delivered added app t.app ∧
      ∀ env ∈ envs, added (stageKey name env) =
        channels.map (rateRule 0 (limitPerChannel rate channels.length)) := by
  have horder : (outside.envOrder.order envRates.entries).Perm (envs.map fun env => ⟨env, rate⟩) :=
    (outside.envOrder.perm _).trans hperm
  obtain ⟨envs', hpermEnvs, hentries⟩ : ∃ envs' : List ℤ, envs'.Perm envs ∧
      outside.envOrder.order envRates.entries = envs'.map fun env => (⟨env, rate⟩ : Σ _ : ℤ, ℤ) := by
    refine ⟨(outside.envOrder.order envRates.entries).map Sigma.fst, ?_, ?_⟩
    · simpa [List.map_map, Function.comp_def] using horder.map Sigma.fst
    · rw [List.map_map]
      refine (List.map_id _).symm.trans (List.map_congr_left fun e he => ?_)
      obtain ⟨env, _, rfl⟩ := List.mem_map.mp (horder.mem_iff.mp he)
      rfl
  have hready' : Ready outside.stages operation name channels app envs' :=
    ⟨hready.channels, fun env he => hready.sessions env (hpermEnvs.mem_iff.mp he),
      fun env he => hready.acknowledges env (hpermEnvs.mem_iff.mp he)⟩
  have hzero : Decimal.InRange 64 0 := by decide
  have hid : Decimal.InRange 64 (⟨0, name, envRates⟩ : EnforcementOpRules).ruleId := hzero
  obtain ⟨t, hfold, _, hdelivered⟩ := enforceEnvs_delivered (s := ⟨app, 0, true, false⟩) hid hlimit rfl hready'
  have hsingle : outside.opOrder.order ((∅ : EnforcementRules).insert operation ⟨0, name, envRates⟩).entries =
      [⟨operation, ⟨0, name, envRates⟩⟩] :=
    List.perm_singleton.mp (outside.opOrder.perm _)
  refine ⟨t, _, ?_, hdelivered, fun env henv =>
    rulesFor_nodup (hpermEnvs.nodup_iff.mpr hnodup) (hpermEnvs.mem_iff.mpr henv)⟩
  rw [createEnforcementRule, hsingle, List.foldlM_cons, enforceOperation, hentries, hfold]
  rfl

end LocalControlApplication

open CoreControlApplication LocalControlApplication

def received (before after : LocalControlApplication) (key : String) : List PaioInterface.EnforcementRuleRaw :=
  ((after.dataSessions.lookup key).elim [] (·.received)).drop
    ((before.dataSessions.lookup key).elim 0 (·.received.length))

theorem LocalControlApplication.Delivered.received {added : String → List PaioInterface.EnforcementRuleRaw}
    {app app' : LocalControlApplication}
    (h : Delivered added app app') {key : String} (hmem : key ∈ app.dataSessions) :
    received app app' key = added key := by
  obtain ⟨session, hl⟩ := Option.isSome_iff_exists.mp (AList.lookup_isSome.mpr hmem)
  simp [Cheferd.received, h.sessions, hl]

def receivedRate (before after : String → LocalControlApplication) (job : String) (locations : Locations) : ℤ :=
  (locations.entries.map fun e => (e.2.map fun env =>
    ((received (before e.1) (after e.1) (stageKey job env)).map (·.propertyFirst)).sum).sum).sum

theorem sum_eq_of_const {α : Type} {l : List α} {f : α → ℤ} {c : ℤ} (h : ∀ a ∈ l, f a = c) :
    (l.map f).sum = l.length * c := by
  rw [List.map_congr_left h, List.map_const', List.sum_replicate, nsmul_eq_mul]

theorem receivedRate_eq {before after : String → LocalControlApplication} {job : String} {locations : Locations}
    {channels : String → List (Int32 × Int32)} {c : ℕ} {share : ℤ}
    (hc : ∀ a ∈ locations, (channels a).length = c)
    (h : ∀ e ∈ locations.entries, ∀ env ∈ e.2,
      received (before e.1) (after e.1) (stageKey job env) = (channels e.1).map (rateRule 0 share)) :
    receivedRate before after job locations = totalStages locations * (c * share) := by
  have hentry : ∀ e ∈ locations.entries, (e.2.map fun env =>
      ((received (before e.1) (after e.1) (stageKey job env)).map (·.propertyFirst)).sum).sum =
        (e.2.length : ℤ) * (c * share) := by
    intro e he
    refine sum_eq_of_const fun env henv => ?_
    rw [h e he env henv, List.map_map, ← hc e.1 (AList.mem_keys.mpr (List.mem_map_of_mem he))]
    exact sum_eq_of_const fun _ _ => rfl
  rw [receivedRate, totalStages, List.map_congr_left hentry, List.sum_map_mul_right]

theorem share_bounds {rate n : ℤ} {c : ℕ} (hn : 0 < n) (hc : 1 ≤ c) :
    rate - n * c < n * (c * (rate / n / c)) ∧ n * (c * (rate / n / c)) ≤ rate := by
  have hc' : (0 : ℤ) < c := by exact_mod_cast hc
  have hpos : 0 < n * c := mul_pos hn hc'
  rw [Int.ediv_ediv_of_nonneg hn.le, ← mul_assoc]
  have hdiv := Int.mul_ediv_add_emod rate (n * c)
  have hlow := Int.emod_nonneg rate hpos.ne'
  have hhigh := Int.emod_lt_of_pos rate hpos
  constructor <;> linarith

theorem limit_eq {rate n : ℤ} (hrate : 0 ≤ rate ∧ rate < 2 ^ 53) (hn : 0 < n) :
    Double.ofInt (rate.tdiv n) = rate / n ∧ 0 ≤ rate / n ∧ rate / n < 2 ^ 53 := by
  have hle : rate / n ≤ rate := Int.ediv_le_self n hrate.1
  have hnonneg : 0 ≤ rate / n := Int.ediv_nonneg hrate.1 hn.le
  refine ⟨?_, hnonneg, hle.trans_lt hrate.2⟩
  rw [Int.tdiv_eq_ediv_of_nonneg hrate.1]
  exact Double.ofInt_eq (by omega)

theorem limitPerChannel_eq {rate : ℤ} {c : ℕ} (hrate : 0 ≤ rate ∧ rate < 2 ^ 53) (hc : 1 ≤ c) :
    limitPerChannel rate c = rate / c ∧ Decimal.InRange 64 (rate / c) := by
  obtain ⟨heq, hlow, hhigh⟩ := limit_eq hrate (n := c) (by exact_mod_cast hc)
  refine ⟨by rw [limitPerChannel, if_pos (show c > 0 from hc)]; exact heq, ?_⟩
  unfold Decimal.InRange
  norm_num
  constructor <;> linarith

section Conservation

variable {core : CoreControlApplication} {job operation : String} {locations : Locations}
  {locals : String → LocalControlApplication} {outside : String → Surroundings}
  {channels : String → List (Int32 × Int32)} {rate : ℤ} {c : ℕ}

theorem call_enforcement (hjob : Plain '.' job ∧ Plain '|' job)
    (hop : Plain '.' operation ∧ Plain '|' operation)
    (hrate : 0 ≤ rate ∧ rate < 2 ^ 53) (hc : 1 ≤ c) {app : LocalControlApplication} {envs : List ℤ}
    {outside : Surroundings} {channels : List (Int32 × Int32)} (hlength : channels.length = c)
    (henvs : envs.Nodup ∧ ∀ env ∈ envs, Decimal.InRange 32 env)
    (hready : Ready outside.stages operation job channels app envs) :
    ∃ app' reply, LocalInterface.call outside
      (CoreControlApplication.enforcementRule job operation envs rate) app =
        .ok (app', reply) ∧
      ∀ env ∈ envs, received app app' (stageKey job env) = channels.map (rateRule 0 (rate / c)) := by
  obtain ⟨hchannel, hrange⟩ := limitPerChannel_eq hrate hc
  have hlimit : Decimal.InRange 64 rate := by
    unfold Decimal.InRange
    norm_num
    constructor <;> linarith
  obtain ⟨envRates, hperm, hdecode⟩ := LocalInterface.createEnforcementRule_enforcementRule hjob hop
    (fun env henv => (henvs.2 env henv).widen) henvs.1 hlimit
  subst hlength
  obtain ⟨t, added, hcreate, hdelivered, hadded⟩ := createEnforcementRule_delivered outside
    (hchannel ▸ hrange) henvs.1 hperm hready
  refine ⟨t.app, ⟨if t.ok then t.message else 0, ∅⟩, ?_, fun env henv => ?_⟩
  · have hrequest : LocalInterface.request (CoreControlApplication.enforcementRule job operation envs rate) =
        .ok (some (.createEnforcementRule ((∅ : EnforcementRules).insert operation ⟨0, job, envRates⟩))) := by
      simp only [LocalInterface.request, operationType_enforcementRule, hdecode, Fault.ok_bind]
      rfl
    rw [LocalInterface.call, hrequest]
    simp only [Fault.ok_bind, LocalInterface.handle, hcreate]
    rfl
  · rw [hdelivered.received (hready.sessions env henv), hadded env henv, hchannel]

theorem rate_conserved (hjob : Plain '.' job ∧ Plain '|' job) (hop : Plain '.' operation ∧ Plain '|' operation)
    (hread : core.jobRates.read job = rate) (hrate : 0 ≤ rate ∧ rate < 2 ^ 53)
    (hn : 0 < totalStages locations)
    (henvs : ∀ e ∈ locations.entries, e.2.Nodup ∧ ∀ env ∈ e.2, Decimal.InRange 32 env)
    (hsessions : ∀ a ∈ locations, a ∈ core.localSessions)
    (hc : 1 ≤ c) (hchannels : ∀ a ∈ locations, (channels a).length = c)
    (hready : ∀ e ∈ locations.entries,
      Ready (outside e.1).stages operation job (channels e.1) (locals e.1) e.2)
    (updated : List String) :
    ∃ core' updated' after, sendEnforcementRule job locations operation core updated = .ok (core', updated') ∧
      (∀ a ∈ locations, ∃ rule session reply, core.localSessions.lookup a = some session ∧
        core'.localSessions.lookup a = some (session.submitRule rule) ∧
        LocalInterface.call (outside a) rule (locals a) = .ok (after a, reply)) ∧
      (∀ e ∈ locations.entries, ∀ env ∈ e.2, received (locals e.1) (after e.1) (stageKey job env) =
        (channels e.1).map (rateRule 0 (rate / totalStages locations / c))) ∧
      rate - totalStages locations * c < receivedRate locals after job locations ∧
      receivedRate locals after job locations ≤ rate := by
  obtain ⟨hlimit, hlow, hhigh⟩ := limit_eq hrate hn
  obtain ⟨⟨core', updated'⟩, hsend⟩ : ∃ s, sendEnforcementRule job locations operation core updated = .ok s :=
    sendEnforcementRule_total hn.ne' hsessions
  have hsent := (sendEnforcementRule_ok hsend).1
  have hshare : limitPerStage core job locations = rate / totalStages locations := by
    rw [limitPerStage, hread, hlimit]
  have hcalls : ∀ a, ∃ after, ∀ envs, locations.lookup a = some envs →
      (∃ reply, LocalInterface.call (outside a) (CoreControlApplication.enforcementRule job operation envs
        (rate / totalStages locations)) (locals a) = .ok (after, reply)) ∧
      ∀ env ∈ envs, received (locals a) after (stageKey job env) =
        (channels a).map (rateRule 0 (rate / totalStages locations / c)) := by
    intro a
    cases hl : locations.lookup a with
    | none => exact ⟨locals a, fun envs h => by cases h⟩
    | some envs =>
      have he : (⟨a, envs⟩ : Σ _ : String, List ℤ) ∈ locations.entries := AList.mem_lookup_iff.mp hl
      have ha : a ∈ locations := AList.lookup_isSome.mp (by rw [hl]; rfl)
      obtain ⟨app', reply, hcall, hreceived⟩ := call_enforcement hjob hop ⟨hlow, hhigh⟩ hc (hchannels a ha)
        (henvs _ he) (hready _ he)
      exact ⟨app', fun _ h => by cases h; exact ⟨⟨reply, hcall⟩, hreceived⟩⟩
  choose after hafter using hcalls
  have hreceived : ∀ e ∈ locations.entries, ∀ env ∈ e.2, received (locals e.1) (after e.1) (stageKey job env) =
      (channels e.1).map (rateRule 0 (rate / totalStages locations / c)) := fun e he =>
    (hafter e.1 e.2 (Assoc.lookup_of_mem_entries he)).2
  refine ⟨core', updated', after, hsend, fun a ha => ?_, hreceived, ?_⟩
  · obtain ⟨session, hl⟩ := Option.isSome_iff_exists.mp (AList.lookup_isSome.mpr (hsessions a ha))
    obtain ⟨envs, henvs⟩ := Option.isSome_iff_exists.mp (AList.lookup_isSome.mpr ha)
    obtain ⟨⟨reply, hcall⟩, _⟩ := hafter a envs henvs
    refine ⟨_, session, reply, hl, ?_, hcall⟩
    rw [hsent.sessions, hl, Option.map_some, if_pos ha, hshare, henvs, Option.getD_some]
  · rw [receivedRate_eq hchannels hreceived]
    exact share_bounds hn hc

end Conservation

section ThreeStages

def threeStages : Locations := ((∅ : Locations).insert "B" [3]).insert "A" [1, 2]

def threeStagesCore : CoreControlApplication :=
  { CoreControlApplication.new .static [] 2000 .id with
    localSessions := ((∅ : Assoc String LocalControllerSession).insert "B" .new).insert "A" .new
    jobRates := (∅ : Assoc String ℤ).insert "app" 1000 }

def threeStagesLocal (address : String) : LocalControlApplication :=
  { LocalControlApplication.new [] with
    dataSessions := Assoc.ofKeys (fun _ => .new) (((threeStages.lookup address).getD []).map (stageKey "app"))
    operationToChannelObject := (∅ : Assoc String (List (Int32 × Int32))).insert "data" [(1000, 1), (1001, 1)] }

def acknowledging : Surroundings := ⟨fun _ => ⟨fun _ => some 1, fun _ => some 0⟩, .id, .id, .id⟩

theorem rate_conserved_three_stages :
    ∃ core' updated' after, sendEnforcementRule "app" threeStages "data" threeStagesCore [] =
      .ok (core', updated') ∧
      (∀ a ∈ threeStages, ∃ rule session reply, threeStagesCore.localSessions.lookup a = some session ∧
        core'.localSessions.lookup a = some (session.submitRule rule) ∧
        LocalInterface.call acknowledging rule (threeStagesLocal a) = .ok (after a, reply)) ∧
      (∀ e ∈ threeStages.entries, ∀ env ∈ e.2, received (threeStagesLocal e.1) (after e.1)
      (stageKey "app" env) =
        [(1000, 1), (1001, 1)].map (rateRule 0 (1000 / totalStages threeStages / (2 : ℕ)))) ∧
      1000 - totalStages threeStages * (2 : ℕ) < receivedRate threeStagesLocal after "app" threeStages ∧
      receivedRate threeStagesLocal after "app" threeStages ≤ 1000 := by
  have hentries : threeStages.entries = [⟨"A", [1, 2]⟩, ⟨"B", [3]⟩] := by decide
  refine @rate_conserved threeStagesCore "app" "data" threeStages threeStagesLocal (fun _ => acknowledging)
    (fun _ => [(1000, 1), (1001, 1)]) 1000 2 (by decide) (by decide) (by decide) (by decide)
    (by decide) (by decide)
    ?_ (by decide) (fun _ _ => rfl) (fun e he => ?_) []
  · intro a ha
    rw [AList.mem_keys, AList.keys, hentries] at ha
    rcases List.mem_pair.mp ha with rfl | rfl <;> decide
  · rw [hentries] at he
    rcases List.mem_pair.mp he with rfl | rfl <;> exact ⟨by decide, by decide, fun _ _ _ => rfl⟩

end ThreeStages

end Cheferd
