import Cheferd.HonestAcknowledgement
import Cheferd.Library.Relay

namespace Cheferd

open Library Strings

namespace EnforcementRule

open CoreControlApplication LocalControlApplication

def envs (rule : EnforcementRule) (address : String) : List ℤ := (rule.localToEnvs.lookup address).getD []

def keys (rule : EnforcementRule) (address : String) : List String :=
  (rule.envs address).map (stageKey rule.appName)

def raws (rule : EnforcementRule) (channels : Channels) : List PaioInterface.EnforcementRuleRaw :=
  let existingChannels := (channels.lookup rule.operation).getD []
  existingChannels.map (rateRule 0 (limitPerChannel rule.limitPerStage existingChannels.length))

structure Writable (rule : EnforcementRule) : Prop where
  appName : Plain '.' rule.appName ∧ Plain '|' rule.appName
  operation : Plain '.' rule.operation ∧ Plain '|' rule.operation
  envs : ∀ address, ∀ env ∈ rule.envs address, Decimal.InRange 64 env
  limit : rule.limitPerStage.natAbs ≤ 2 ^ 53

end EnforcementRule

inductive Instruction
  | ready (info : StageInfo)
  | enforce (rule : EnforcementRule)
deriving DecidableEq

namespace Instruction

open CoreControlApplication LocalControlApplication

def request (address : String) : Instruction → String
  | .ready info => stageReadyRule info
  | .enforce rule => rule.request address

def effect (channels : Channels) (address key : String) (received : List PaioInterface.EnforcementRuleRaw) :
    Instruction → List PaioInterface.EnforcementRuleRaw
  | .ready info => if info.key = key then [] else received
  | .enforce rule => if key ∈ rule.keys address then received ++ rule.raws channels else received

end Instruction

namespace LocalControlApplication

open CoreControlApplication

variable {app app' : LocalControlApplication} {outside : Surroundings} {address : String}
    {rule : EnforcementRule}

theorem inRange_of_natAbs {v : ℤ} (h : v.natAbs ≤ 2 ^ 53) : Decimal.InRange 64 v := by
  unfold Decimal.InRange
  norm_num
  omega

theorem limitPerChannel_inRange {limit : ℤ} (h : limit.natAbs ≤ 2 ^ 53) (n : ℕ) :
    Decimal.InRange 64 (limitPerChannel limit n) := by
  have hquotient : (limit.tdiv n).natAbs ≤ 2 ^ 53 := by
    rw [Int.natAbs_tdiv]
    exact (Nat.div_le_self _ _).trans h
  unfold limitPerChannel
  split
  · rw [Double.ofInt_eq hquotient]
    exact inRange_of_natAbs hquotient
  · decide

theorem rulesFor_eq {ruleId limit : ℤ} {name : String} {channels : List (Int32 × Int32)} {envs : List ℤ}
    (hnodup : envs.Nodup) (key : String) :
    rulesFor ruleId limit name channels envs key =
      if key ∈ envs.map (stageKey name) then channels.map (rateRule ruleId limit) else [] := by
  split
  case isTrue hkey =>
    obtain ⟨env, henv, rfl⟩ := List.mem_map.mp hkey
    exact rulesFor_nodup hnodup henv
  case isFalse hkey =>
    refine List.flatMap_eq_nil_iff.mpr fun env henv => if_neg ?_
    rintro rfl
    exact hkey (List.mem_map_of_mem henv)

theorem foldlM_enforceEnv_unknown (stages : String → Stage) {operation : String} (rules : EnforcementOpRules)
    (envRates : List (Σ _ : ℤ, ℤ)) {s : Enforcing}
    (h : s.app.operationToChannelObject.lookup operation = none) :
    ∃ t, envRates.foldlM (enforceEnv stages operation rules) s = .ok t ∧ t.app = s.app := by
  induction envRates generalizing s with
  | nil => exact ⟨s, rfl, rfl⟩
  | cons envRate envRates ih =>
    obtain ⟨u, hstep, hu⟩ : ∃ u, enforceEnv stages operation rules s envRate = .ok u ∧ u.app = s.app := by
      unfold enforceEnv
      split
      · exact ⟨s, rfl, rfl⟩
      · rw [h]
        exact ⟨_, rfl, rfl⟩
    obtain ⟨t, hfold, ht⟩ := ih (s := u) (by rw [hu]; exact h)
    exact ⟨t, by rw [List.foldlM_cons, hstep]; exact hfold, ht.trans hu⟩

theorem order_envRates (order : Traversal (Σ _ : ℤ, ℤ)) {envRates : Assoc ℤ ℤ} {envs : List ℤ} {limit : ℤ}
    (h : envRates.entries.Perm (envs.map fun env => ⟨env, limit⟩)) :
    ∃ envs' : List ℤ, envs'.Perm envs ∧
      order.order envRates.entries = envs'.map fun env => (⟨env, limit⟩ : Σ _ : ℤ, ℤ) := by
  have horder := (order.perm envRates.entries).trans h
  refine ⟨(order.order envRates.entries).map Sigma.fst, ?_, ?_⟩
  · simpa [List.map_map, Function.comp_def] using horder.map Sigma.fst
  · rw [List.map_map]
    refine (List.map_id _).symm.trans (List.map_congr_left fun e he => ?_)
    obtain ⟨env, _, rfl⟩ := List.mem_map.mp (horder.mem_iff.mp he)
    rfl

theorem enforceEnvs_keys (envRates : Assoc ℤ ℤ) {envs : List ℤ} (hrule : rule.Writable)
    (hnodup : (rule.envs address).Nodup) (hperm : envs.Perm (rule.envs address))
    (hsessions : ∀ key ∈ rule.keys address, key ∈ app.dataSessions)
    (hack : ∀ key ∈ app.dataSessions, ∀ received, (outside.stages key).acknowledge received = some 1) :
    ∃ t, (envs.map fun env => (⟨env, rule.limitPerStage⟩ : Σ _ : ℤ, ℤ)).foldlM
        (enforceEnv outside.stages rule.operation ⟨0, rule.appName, envRates⟩) ⟨app, 0, true, false⟩ = .ok t ∧
      Delivered (fun key => if key ∈ rule.keys address then rule.raws app.operationToChannelObject else []) app
        t.app := by
  cases hl : app.operationToChannelObject.lookup rule.operation with
  | none =>
    obtain ⟨t, hfold, ht⟩ := foldlM_enforceEnv_unknown outside.stages ⟨0, rule.appName, envRates⟩
      (envs.map fun env => ⟨env, rule.limitPerStage⟩) (s := ⟨app, 0, true, false⟩) hl
    refine ⟨t, hfold, ?_⟩
    rw [ht]
    simpa only [EnforcementRule.raws, hl, Option.getD_none, List.map_nil, ite_self] using Delivered.none app
  | some channels =>
    have hmem : ∀ env ∈ envs, stageKey rule.appName env ∈ app.dataSessions := fun env henv =>
      hsessions _ (List.mem_map_of_mem (hperm.mem_iff.mp henv))
    have hready : Ready outside.stages rule.operation rule.appName channels app envs :=
      ⟨hl, hmem, fun env henv => hack _ (hmem env henv)⟩
    have hid : Decimal.InRange 64 (⟨0, rule.appName, envRates⟩ : EnforcementOpRules).ruleId := by
      show Decimal.InRange 64 0
      decide
    obtain ⟨t, hfold, _, hdelivered⟩ := enforceEnvs_delivered (s := ⟨app, 0, true, false⟩) hid
      (limitPerChannel_inRange hrule.limit _) rfl hready
    refine ⟨t, hfold, ?_⟩
    convert hdelivered using 2 with key
    have hkeys : key ∈ envs.map (stageKey rule.appName) ↔ key ∈ rule.keys address := (hperm.map _).mem_iff
    rw [rulesFor_eq (hperm.nodup_iff.mpr hnodup)]
    simp only [hkeys, EnforcementRule.raws, hl, Option.getD_some]

theorem request_enforce (hrule : rule.Writable) (hnodup : (rule.envs address).Nodup) : ∃ envRates : Assoc ℤ ℤ,
    envRates.entries.Perm ((rule.envs address).map fun env => ⟨env, rule.limitPerStage⟩) ∧
    LocalInterface.request (rule.request address) = .ok (some (.createEnforcementRule
      ((∅ : EnforcementRules).insert rule.operation ⟨0, rule.appName, envRates⟩))) := by
  obtain ⟨envRates, hperm, hdecode⟩ := LocalInterface.createEnforcementRule_enforcementRule hrule.appName
    hrule.operation (hrule.envs address) hnodup (inRange_of_natAbs hrule.limit)
  have hrequest : rule.request address = CoreControlApplication.enforcementRule rule.appName rule.operation
      (rule.envs address) rule.limitPerStage := rfl
  refine ⟨envRates, hperm, ?_⟩
  rw [hrequest]
  simp only [LocalInterface.request, operationType_enforcementRule, hdecode, Fault.ok_bind]
  rfl

theorem call_enforce (hrule : rule.Writable) (hnodup : (rule.envs address).Nodup)
    (hsessions : ∀ key ∈ rule.keys address, key ∈ app.dataSessions)
    (hack : ∀ key ∈ app.dataSessions, ∀ received, (outside.stages key).acknowledge received = some 1) :
    ∃ app' reply, LocalInterface.call outside (rule.request address) app = .ok (app', reply) ∧
      Delivered (fun key => if key ∈ rule.keys address then rule.raws app.operationToChannelObject else [])
      app app' := by
  obtain ⟨envRates, hperm, hrequest⟩ := request_enforce hrule hnodup
  obtain ⟨envs, hpermEnvs, hentries⟩ := order_envRates outside.envOrder hperm
  obtain ⟨t, hfold, hdelivered⟩ := enforceEnvs_keys envRates hrule hnodup hpermEnvs hsessions hack
  have hsingle : outside.opOrder.order
      ((∅ : EnforcementRules).insert rule.operation ⟨0, rule.appName, envRates⟩).entries =
      [⟨rule.operation, ⟨0, rule.appName, envRates⟩⟩] := List.perm_singleton.mp (outside.opOrder.perm _)
  have hcreate : createEnforcementRule outside
      ((∅ : EnforcementRules).insert rule.operation ⟨0, rule.appName, envRates⟩) app = .ok t := by
    rw [createEnforcementRule, hsingle, List.foldlM_cons, enforceOperation, hentries, hfold]
    rfl
  refine ⟨t.app, ⟨if t.ok then t.message else 0, ∅⟩, ?_, hdelivered⟩
  rw [LocalInterface.call, hrequest]
  simp only [Fault.ok_bind, LocalInterface.handle, hcreate]
  rfl

end LocalControlApplication

end Cheferd
