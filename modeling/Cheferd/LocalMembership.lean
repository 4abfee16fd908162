import Cheferd.AggregatedStatistics

namespace Cheferd

open Library Strings

namespace LocalControlApplication

variable {outside : Surroundings} {app app' : LocalControlApplication} {key : String}

def SameKeys (app app' : LocalControlApplication) : Prop :=
  app'.preparingDataSessions = app.preparingDataSessions ∧
    ∀ key, key ∈ app'.dataSessions ↔ key ∈ app.dataSessions

theorem SameKeys.trans {app'' : LocalControlApplication} (h : SameKeys app app') (h' : SameKeys app' app'') :
    SameKeys app app'' :=
  ⟨h'.1.trans h.1, fun key => (h'.2 key).trans (h.2 key)⟩

theorem localPassthru_keys {stages : String → Stage} {rule : String} {ok : Bool}
    (h : localPassthru stages key rule app = .ok (app', ok)) : SameKeys app app' := by
  unfold localPassthru at h
  split at h
  · cases h
  case h_2 session hl =>
    obtain ⟨⟨session', value⟩, _, h⟩ := Fault.bind_eq_ok.mp h
    cases h
    refine ⟨rfl, fun k => ?_⟩
    rw [AList.mem_insert, or_iff_right_of_imp]
    rintro rfl
    exact AList.lookup_isSome.mp (by rw [hl]; rfl)

theorem enforceChannel_keys {stages : String → Stage} {ruleId limit : ℤ} {s t : Enforcing}
    {channelObject : Int32 × Int32} (h : enforceChannel stages ruleId key limit s channelObject = .ok t) :
    SameKeys s.app t.app := by
  unfold enforceChannel at h
  split at h
  · cases h
    exact ⟨rfl, fun _ => Iff.rfl⟩
  · obtain ⟨⟨app, ok⟩, hpass, h⟩ := Fault.bind_eq_ok.mp h
    cases h
    exact localPassthru_keys hpass

theorem enforceEnv_keys {stages : String → Stage} {operation : String} {rules : EnforcementOpRules}
    {s t : Enforcing}
    {envRate : Σ _ : ℤ, ℤ} (h : enforceEnv stages operation rules s envRate = .ok t) :
    SameKeys s.app t.app := by
  unfold enforceEnv at h
  split at h
  · cases h
    exact ⟨rfl, fun _ => Iff.rfl⟩
  · split at h
    · cases h
      exact ⟨rfl, fun _ => Iff.rfl⟩
    · exact Lists.foldlM_invariant (I := fun u : Enforcing => SameKeys s.app u.app)
        (fun u channelObject v hu hv => hu.trans (enforceChannel_keys hv)) ⟨rfl, fun _ => Iff.rfl⟩ h

theorem createEnforcementRule_keys {rules : EnforcementRules} {t : Enforcing}
    (h : createEnforcementRule outside rules app = .ok t) : SameKeys app t.app := by
  refine Lists.foldlM_invariant (I := fun u : Enforcing => SameKeys app u.app)
    (fun u opRules v hu hv => hu.trans ?_)
    ⟨rfl, fun _ => Iff.rfl⟩ h
  exact Lists.foldlM_invariant (I := fun w : Enforcing => SameKeys u.app w.app)
    (fun w envRate x hw hx => hw.trans (enforceEnv_keys hx)) ⟨rfl, fun _ => Iff.rfl⟩ hv

theorem markStageReady_keys (key : String) (app : LocalControlApplication) :
    (∀ k, k ∈ (app.markStageReady key).1.dataSessions ↔
      k ∈ app.dataSessions ∨ k = key ∧ key ∈ app.preparingDataSessions) ∧
    ∀ k, k ∈ (app.markStageReady key).1.preparingDataSessions ↔ k ∈ app.preparingDataSessions ∧ k ≠ key := by
  unfold markStageReady
  cases hl : app.preparingDataSessions.lookup key with
  | none =>
    have hnot : key ∉ app.preparingDataSessions := AList.lookup_eq_none.mp hl
    refine ⟨fun k => by simp [hnot], fun k => ?_⟩
    exact ⟨fun hk => ⟨hk, fun he => hnot (he ▸ hk)⟩, And.left⟩
  | some stage =>
    have hin : key ∈ app.preparingDataSessions := AList.lookup_isSome.mp (by rw [hl]; rfl)
    refine ⟨fun k => ?_, fun k => by rw [AList.mem_erase, and_comm]⟩
    simp only [hin, and_true, Assoc.emplace]
    split
    case isTrue hm =>
      rw [or_iff_left_of_imp]
      rintro rfl
      exact hm
    case isFalse => rw [AList.mem_insert, or_comm]

theorem markStageReady_replies {key : String} (app : LocalControlApplication) (hnew : key ∉ app.dataSessions) :
    ∃ marked, app.markStageReady key = (marked, some 1) := by
  unfold markStageReady
  split
  · exact ⟨_, rfl⟩
  · exact ⟨_, by rw [if_neg hnew]⟩

theorem collectGlobalStatistics_keys (outside : Surroundings) (app : LocalControlApplication) :
    (app.collectGlobalStatistics outside).1.preparingDataSessions = app.preparingDataSessions ∧
      ∀ k, k ∈ (app.collectGlobalStatistics outside).1.dataSessions ↔
        k ∈ app.dataSessions ∧ (app.collectGlobalStatistics outside).2.lookup k ≠ some (-1) := by
  refine ⟨rfl, fun k => ?_⟩
  rw [collectGlobalStatistics_lookup, collectGlobalStatistics, Assoc.mem_eraseKeys]
  simp only [List.mem_filter, mem_traversal, not_and, decide_eq_true_eq]
  constructor
  · rintro ⟨hk, halive⟩
    rw [if_pos hk]
    exact ⟨hk, fun he => halive hk (Option.some.inj he)⟩
  · rintro ⟨hk, halive⟩
    rw [if_pos hk] at halive
    exact ⟨hk, fun _ he => halive (congrArg some he)⟩

end LocalControlApplication

namespace LocalInterface

variable {outside : Surroundings} {app app' : LocalControlApplication} {rule : String} {reply : Reply}

theorem handle_markStageReady {key : String}
    (h : handle outside app (.markStageReady key) = .ok (app', reply)) :
    app.markStageReady key = (app', some reply.message) := by
  simp only [handle] at h
  split at h
  case h_1 app₁ message hmarked =>
    cases h
    exact hmarked
  case h_2 => cases h

theorem call_markStageReady (htype : LocalControllerSession.operationType rule = some 1)
    (h : call outside rule app = .ok (app', reply)) :
    ∃ key, (parseRule '|' rule)[1]? = some key ∧ app' = (app.markStageReady key).1 := by
  unfold call at h
  obtain ⟨request, hrequest, h⟩ := Fault.bind_eq_ok.mp h
  simp only [LocalInterface.request, htype] at hrequest
  obtain ⟨key, hkey, hrequest⟩ := Fault.bind_eq_ok.mp hrequest
  cases hrequest
  refine ⟨key, token_eq_ok.mp hkey, ?_⟩
  rw [handle_markStageReady h]

theorem call_keys (hready : LocalControllerSession.operationType rule ≠ some 1)
    (hstats : LocalControllerSession.operationType rule ≠ some 3)
    (h : call outside rule app = .ok (app', reply)) :
    app.SameKeys app' := by
  unfold call at h
  obtain ⟨request, hrequest, h⟩ := Fault.bind_eq_ok.mp h
  unfold LocalInterface.request at hrequest
  split at hrequest
  · cases hrequest
    obtain ⟨app₁, happ, h⟩ := Fault.bind_eq_ok.mp h
    cases h
    rw [LocalControlApplication.localHandshake_ok happ]
    exact ⟨rfl, fun _ => Iff.rfl⟩
  · cases hrequest
    cases h
    exact ⟨rfl, fun _ => Iff.rfl⟩
  · exact absurd ‹_› hready
  · obtain ⟨rules, _, hrequest⟩ := Fault.bind_eq_ok.mp hrequest
    cases hrequest
    obtain ⟨s, hs, h⟩ := Fault.bind_eq_ok.mp h
    cases h
    exact LocalControlApplication.createEnforcementRule_keys hs
  · exact absurd ‹_› hstats
  · cases hrequest
    cases h
    exact ⟨rfl, fun _ => Iff.rfl⟩

end LocalInterface

end Cheferd
