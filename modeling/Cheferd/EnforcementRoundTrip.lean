import Cheferd.LocalInterface

namespace Cheferd

open Library Strings

namespace LocalInterface

open CoreControlApplication

def envRate (limit env : ℤ) : String := toString env ++ (":" ++ toString limit)

theorem plain_envRate (c : Char) (limit env : ℤ) (hd : c.isDigit = false) (hm : c ≠ '-') (hc : c ≠ ':') :
    Plain c (envRate limit env) := by
  refine ⟨?_, fun h => ?_⟩
  · simp only [envRate, String.toList_append, List.mem_append, not_or]
    exact ⟨Decimal.notMem_toString env c hd hm, by simpa using hc, Decimal.notMem_toString limit c hd hm⟩
  · have hlen := congrArg (fun s : String => s.toList.length) h
    simp [envRate] at hlen

theorem addEnvRate_envRate {limit env : ℤ} (hlimit : Decimal.InRange 64 limit) (henv : Decimal.InRange 64 env)
    (envRates : Assoc ℤ ℤ) : addEnvRate envRates (envRate limit env) = .ok (envRates.insert env limit) := by
  have hparse : parseRule ':' (envRate limit env) = [toString env, toString limit] := by
    have henv := plain_toString ':' env (by decide) (by decide)
    have hlimit := plain_toString ':' limit (by decide) (by decide)
    rw [envRate, parseRule_append ':' ":" _ _ rfl, parseRule_single ':' _ henv.1 henv.2,
      parseRule_single ':' _ hlimit.1 hlimit.2]
    rfl
  rw [addEnvRate, hparse]
  simp only [token, List.getElem?_cons_zero, List.getElem?_cons_succ, Fault.ok_bind, stoll,
    number_toString 64 env henv, number_toString 64 limit hlimit]
  rfl

theorem foldlM_addEnvRate {limit : ℤ} (hlimit : Decimal.InRange 64 limit) {envs : List ℤ}
    (henvs : ∀ env ∈ envs, Decimal.InRange 64 env) (hnodup : envs.Nodup) {envRates : Assoc ℤ ℤ}
    (hnew : ∀ env ∈ envs, env ∉ envRates) :
    ∃ envRates', (envs.map (envRate limit)).foldlM addEnvRate envRates = .ok envRates' ∧
      envRates'.entries = (envs.map fun env => ⟨env, limit⟩).reverse ++ envRates.entries := by
  -- The induction is on the stages; a stage that is not in the map yet comes to its front
  induction envs generalizing envRates with
  | nil => exact ⟨envRates, rfl, rfl⟩
  | cons env envs ih =>
    obtain ⟨hnotin, hnodup⟩ := List.nodup_cons.mp hnodup
    have hrest : ∀ other ∈ envs, other ∉ envRates.insert env limit := by
      intro other ho hm
      rcases (AList.mem_insert _).mp hm with rfl | hm
      · exact hnotin ho
      · exact hnew other (List.mem_cons_of_mem _ ho) hm
    obtain ⟨envRates', hfold, hentries⟩ := ih (fun e he => henvs e (List.mem_cons_of_mem _ he)) hnodup hrest
    refine ⟨envRates', ?_, ?_⟩
    · rw [List.map_cons, List.foldlM_cons, addEnvRate_envRate hlimit (henvs env List.mem_cons_self)]
      exact hfold
    · rw [hentries, AList.entries_insert_of_notMem (hnew env List.mem_cons_self)]
      simp

def body (limit : ℤ) (envs : List ℤ) : String :=
  envs.foldr (fun env rest => "*" ++ toString env ++ ":" ++ toString limit ++ rest) "" ++ "*"

theorem body_eq (limit : ℤ) (envs : List ℤ) :
    body limit envs = "" ++ ("*" ++ terminated "*" (envs.map (envRate limit))) := by
  induction envs with
  | nil => rfl
  | cons env envs ih =>
    have h := congrArg String.toList ih
    refine String.toList_inj.mp ?_
    simp only [body, terminated, envRate, List.foldr_cons, List.map_cons, String.toList_append] at h ⊢
    simp only [List.append_assoc, h]
    simp

theorem plain_body (c : Char) (limit : ℤ) (envs : List ℤ) (hd : c.isDigit = false) (hm : c ≠ '-') (hc : c ≠ ':')
    (hs : c ≠ '*') : Plain c (body limit envs) := by
  refine ⟨?_, fun h => ?_⟩
  · rw [body_eq]
    have hrest : c ∉ (terminated "*" (envs.map (envRate limit))).toList := by
      refine notMem_terminated c "*" (by simpa using hs) fun t ht => ?_
      obtain ⟨env, _, rfl⟩ := List.mem_map.mp ht
      exact (plain_envRate c limit env hd hm hc).1
    simpa [hs] using hrest
  · have hlen := congrArg (fun s : String => s.toList.length) h
    simp [body] at hlen

theorem enforcementRule_eq (app operation : String) (envs : List ℤ) (limit : ℤ) :
    enforcementRule app operation envs limit =
      terminated "." ["6|", "0|" ++ (app ++ ("|" ++ (operation ++ ("|" ++ body limit envs))))] := by
  refine String.toList_inj.mp ?_
  simp only [enforcementRule, terminated, body, List.foldr_cons, List.foldr_nil, String.toList_append,
    List.append_assoc]
  rfl

theorem parseRule_body (limit : ℤ) (envs : List ℤ) :
    parseRule '*' (body limit envs) = envs.map (envRate limit) := by
  have hplain : ∀ t ∈ envs.map (envRate limit), Plain '*' t := by
    intro t ht
    obtain ⟨env, _, rfl⟩ := List.mem_map.mp ht
    exact plain_envRate '*' limit env (by decide) (by decide) (by decide)
  rw [body_eq, parseRule_append '*' "*" _ _ rfl, parseRule_nil, parseRule_plain '*' "*" rfl _ hplain,
    List.nil_append]

theorem createEnforcementRule_enforcementRule {app operation : String} {envs : List ℤ} {limit : ℤ}
    (happ : Plain '.' app ∧ Plain '|' app) (hop : Plain '.' operation ∧ Plain '|' operation)
    (henvs : ∀ env ∈ envs, Decimal.InRange 64 env) (hnodup : envs.Nodup) (hlimit : Decimal.InRange 64 limit) :
    ∃ envRates : Assoc ℤ ℤ, envRates.entries.Perm (envs.map fun env => ⟨env, limit⟩) ∧
      createEnforcementRule (enforcementRule app operation envs limit) =
        .ok ((∅ : EnforcementRules).insert operation ⟨0, app, envRates⟩) := by
  obtain ⟨envRates, hfold, hentries⟩ := foldlM_addEnvRate hlimit henvs hnodup
    fun env _ => (AList.notMem_empty env : env ∉ (∅ : Assoc ℤ ℤ))
  have hdot : parseRule '.' (enforcementRule app operation envs limit) =
      ["6|", "0|" ++ (app ++ ("|" ++ (operation ++ ("|" ++ body limit envs))))] := by
    have hbody := (plain_body '.' limit envs (by decide) (by decide) (by decide) (by decide)).1
    rw [enforcementRule_eq, parseRule_plain '.' "." rfl]
    intro t ht
    rcases List.mem_pair.mp ht with rfl | rfl
    · exact by decide
    · refine ⟨?_, fun h => ?_⟩
      · simp only [String.toList_append, List.mem_append, not_or]
        exact ⟨by decide, happ.1.1, by decide, hop.1.1, by decide, hbody⟩
      · have hlen := congrArg (fun s : String => s.toList.length) h
        simp at hlen
  have hbar : parseRule '|' ("0|" ++ (app ++ ("|" ++ (operation ++ ("|" ++ body limit envs))))) =
      ["0", app, operation, body limit envs] := by
    have hbody := plain_body '|' limit envs (by decide) (by decide) (by decide) (by decide)
    have hzero : ("0|" : String) = "0" ++ "|" := rfl
    rw [hzero, String.append_assoc, parseRule_append '|' "|" _ _ rfl, parseRule_append '|' "|" _ _ rfl,
      parseRule_append '|' "|" _ _ rfl, parseRule_single '|' "0" (by decide) (by decide),
      parseRule_single '|' app happ.2.1 happ.2.2, parseRule_single '|' operation hop.2.1 hop.2.2,
      parseRule_single '|' _ hbody.1 hbody.2]
    rfl
  have hzero : stoll "0" = .ok 0 := rfl
  refine ⟨envRates, ?_, ?_⟩
  · rw [hentries]
    exact (List.append_nil _).symm ▸ List.reverse_perm _
  · have hadd : addOpRules ∅ ("0|" ++ (app ++ ("|" ++ (operation ++ ("|" ++ body limit envs))))) =
        .ok ((∅ : EnforcementRules).insert operation ⟨0, app, envRates⟩) := by
      simp [addOpRules, hbar, token, hzero, parseRule_body, hfold]
    rw [createEnforcementRule, hdot, List.tail_cons, List.foldlM_cons, hadd]
    rfl

theorem lookup_envRates {envs : List ℤ} {limit : ℤ} {envRates : Assoc ℤ ℤ}
    (h : envRates.entries.Perm (envs.map fun env => ⟨env, limit⟩)) (env : ℤ) :
    envRates.lookup env = if env ∈ envs then some limit else none := by
  split
  case isTrue henv => exact Assoc.lookup_of_mem_entries (h.mem_iff.mpr (List.mem_map_of_mem henv))
  case isFalse henv =>
    refine AList.lookup_eq_none.mpr fun hm => henv ?_
    obtain ⟨e, he, rfl⟩ := List.mem_map.mp (AList.mem_keys.mp hm)
    obtain ⟨env, hmem, rfl⟩ := List.mem_map.mp (h.mem_iff.mp he)
    exact hmem

theorem parseRule_length_le (c : Char) (t : String) (hc : c ∉ t.toList) : (parseRule c t).length ≤ 1 := by
  by_cases ht : t = ""
  · simp [ht, parseRule_nil]
  · simp [parseRule_single c t hc ht]

theorem addOpRules_short {opRules : EnforcementRules} {t : String} (h : (parseRule '|' t).length ≤ 2) :
    addOpRules opRules ("0|" ++ t) = .error .missingToken := by
  have hparse : parseRule '|' ("0|" ++ t) = "0" :: parseRule '|' t := by
    have hzero : ("0|" : String) = "0" ++ "|" := rfl
    rw [hzero, String.append_assoc, parseRule_append '|' "|" _ _ rfl,
      parseRule_single '|' "0" (by decide) (by decide), List.singleton_append]
  have hzero : stoll "0" = .ok 0 := rfl
  have hlast : (parseRule '|' t)[2]? = none := List.getElem?_eq_none h
  rw [addOpRules, hparse]
  cases hfirst : (parseRule '|' t)[0]? with
  | none => simp [token, hzero, hfirst]
  | some name => simp [token, hzero, hfirst, hlast]

theorem createEnforcementRule_cut {t : String} (rest : String) (hpoint : '.' ∉ t.toList)
    (h : (parseRule '|' t).length ≤ 2) :
    createEnforcementRule ("6|" ++ ("." ++ ("0|" ++ t ++ ("." ++ rest)))) = .error .missingToken := by
  have hplain : Plain '.' ("0|" ++ t) := by
    refine ⟨?_, fun h => ?_⟩
    · simp only [String.toList_append, List.mem_append, not_or]
      exact ⟨by decide, hpoint⟩
    · have hlen := congrArg (fun s : String => s.toList.length) h
      simp at hlen
  rw [createEnforcementRule, parseRule_append '.' "." _ _ rfl, parseRule_append '.' "." _ _ rfl,
    parseRule_single '.' "6|" (by decide) (by decide), parseRule_single '.' _ hplain.1 hplain.2]
  simp only [List.singleton_append, List.tail_cons, List.foldlM_cons, addOpRules_short h, Fault.error_bind]

theorem split_at_point {t : String} (h : '.' ∈ t.toList) :
    ∃ before after : String, t = before ++ ("." ++ after) ∧ '.' ∉ before.toList ∧
      ∀ c, c ∉ t.toList → c ∉ before.toList := by
  obtain ⟨before, after, ht, hbefore⟩ := List.eq_append_cons_of_mem h
  refine ⟨String.ofList before, String.ofList after, ?_, by simpa using hbefore, fun c hc hm => hc ?_⟩
  · refine String.toList_inj.mp ?_
    simp [ht]
  · rw [ht]
    exact List.mem_append_left _ (by simpa using hm)

theorem createEnforcementRule_point {app operation : String} (envs : List ℤ) (limit : ℤ)
    (happ : Plain '|' app) (hop : Plain '|' operation) (h : '.' ∈ app.toList ∨ '.' ∈ operation.toList) :
    createEnforcementRule (enforcementRule app operation envs limit) = .error .missingToken := by
  by_cases hpoint : '.' ∈ app.toList
  · obtain ⟨before, after, rfl, hbefore, hbar⟩ := split_at_point hpoint
    have hcut := createEnforcementRule_cut
      (after ++ ("|" ++ (operation ++ ("|" ++ (body limit envs ++ "."))))) hbefore
      ((parseRule_length_le '|' before (hbar '|' happ.1)).trans (by decide))
    rw [← hcut, enforcementRule_eq]
    congr 1
    refine String.toList_inj.mp ?_
    simp [terminated]
  · obtain ⟨before, after, rfl, hbefore, hbar⟩ := split_at_point (h.resolve_left hpoint)
    have hlength : (parseRule '|' (app ++ ("|" ++ before))).length ≤ 2 := by
      rw [parseRule_append '|' "|" _ _ rfl, List.length_append]
      have := parseRule_length_le '|' app happ.1
      have := parseRule_length_le '|' before (hbar '|' hop.1)
      omega
    have hnone : '.' ∉ (app ++ ("|" ++ before)).toList := by
      simp only [String.toList_append, List.mem_append, not_or]
      exact ⟨hpoint, by decide, hbefore⟩
    rw [← createEnforcementRule_cut (after ++ ("|" ++ (body limit envs ++ "."))) hnone hlength,
      enforcementRule_eq]
    congr 1
    refine String.toList_inj.mp ?_
    simp [terminated]

theorem enforcement_round_trip_iff {app operation : String} {envs : List ℤ} {limit : ℤ}
    (happ : Plain '|' app) (hop : Plain '|' operation) (henvs : ∀ env ∈ envs, Decimal.InRange 32 env)
    (hnodup : envs.Nodup) (hlimit : Decimal.InRange 64 limit) :
    (∃ envRates : Assoc ℤ ℤ, (∀ env, envRates.lookup env = if env ∈ envs then some limit else none) ∧
      createEnforcementRule (enforcementRule app operation envs limit) =
        .ok ((∅ : EnforcementRules).insert operation ⟨0, app, envRates⟩)) ↔
      '.' ∉ app.toList ∧ '.' ∉ operation.toList := by
  constructor
  · rintro ⟨envRates, _, hdecode⟩
    by_contra h
    rw [createEnforcementRule_point envs limit happ hop (by tauto)] at hdecode
    cases hdecode
  · rintro ⟨happoint, hoppoint⟩
    obtain ⟨envRates, hperm, hdecode⟩ := createEnforcementRule_enforcementRule ⟨⟨happoint, happ.2⟩, happ⟩
      ⟨⟨hoppoint, hop.2⟩, hop⟩ (fun env henv => (henvs env henv).widen) hnodup hlimit
    exact ⟨envRates, lookup_envRates hperm, hdecode⟩

theorem enforcement_round_trip_two_envs :
    (∃ envRates : Assoc ℤ ℤ, (∀ env, envRates.lookup env = if env ∈ [10, 11] then some 500 else none) ∧
      createEnforcementRule (enforcementRule "app" "data" [10, 11] 500) =
        .ok ((∅ : EnforcementRules).insert "data" ⟨0, "app", envRates⟩)) ↔
      '.' ∉ "app".toList ∧ '.' ∉ "data".toList :=
  enforcement_round_trip_iff (by decide) (by decide) (by decide) (by decide) (by decide)

theorem dotted_name_not_decoded :
    createEnforcementRule (enforcementRule "my.app" "data" [10, 11] 500) = .error .missingToken ∧
      ¬ ∃ envRates : Assoc ℤ ℤ, createEnforcementRule (enforcementRule "my.app" "data" [10, 11] 500) =
        .ok ((∅ : EnforcementRules).insert "data" ⟨0, "my.app", envRates⟩) := by
  have h : createEnforcementRule (enforcementRule "my.app" "data" [10, 11] 500) =
    .error .missingToken := by decide
  refine ⟨h, ?_⟩
  rintro ⟨envRates, hdecode⟩
  rw [h] at hdecode
  cases hdecode

end LocalInterface

end Cheferd
