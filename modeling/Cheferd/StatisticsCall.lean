import Cheferd.LocalThreads
import Cheferd.Library.Lists

namespace Cheferd.LocalThreads

open Library LocalControlApplication

variable {s t u : Controller} {rules : List String}

def Leads (rules : List String) (s t : Controller) : Prop :=
  (machine rules).Reach (fun _ _ => True) s → (machine rules).Reach (fun _ _ => True) t

theorem Leads.trans (h : Leads rules s t) (h' : Leads rules t u) : Leads rules s u :=
  fun hs => h' (h hs)

theorem Leads.step {a : Action} (h : s.step a = some t) : Leads rules s t :=
  fun hs => hs.step trivial h

def Controller.during (s : Controller) (app : LocalControlApplication) (active : ℤ) (call : Option Collecting) :
    Controller :=
  { s.withApp app with activeDataPlaneSessions := active, call := call }

namespace Collecting

variable (c : Collecting) (rate : String → ℚ)

def sampled (keys : List String) : Collecting :=
  { c with
    todo := []
    sessionsToDelete := c.sessionsToDelete ++ keys.filter (rate · = -1)
    reply := keys.foldl (c.answer rate) c.reply }

theorem sampled_sample (key : String) (rest : List String) :
    (c.sample key rest (rate key)).sampled rate rest = c.sampled rate (key :: rest) := by
  have hdelete : (if rate key = -1 then c.sessionsToDelete ++ [key] else c.sessionsToDelete) ++
      rest.filter (rate · = -1) = c.sessionsToDelete ++ (key :: rest).filter (rate · = -1) := by
    by_cases hrate : rate key = -1 <;> simp [hrate]
  simp only [sampled, sample, hdelete]
  rfl

end Collecting

section Steps

variable (rules : List String) (s : Controller) (app : LocalControlApplication)

theorem leads_samples (rate : String → ℚ) (keys : List String) {c : Collecting} (active : ℤ)
    (htodo : c.todo = keys) :
    ∃ active', Leads rules (s.during app active (some c))
      (s.during app active' (some (c.sampled rate keys))) := by
  induction keys generalizing c active with
  | nil =>
    have hstays : c.sampled rate [] = c := by
      cases c
      subst htodo
      simp [Collecting.sampled]
    exact ⟨active, by rw [hstays]; exact id⟩
  | cons key rest ih =>
    obtain ⟨active', hrest⟩ := ih (c := c.sample key rest (rate key))
      (if rate key = -1 then active - 1 else active) rfl
    rw [c.sampled_sample] at hrest
    refine ⟨active', Leads.trans (.step (a := .sample (rate key)) ?_) hrest⟩
    simp only [Controller.step, Controller.sample, Controller.during, Controller.withApp, htodo]

theorem leads_erases (keys : List String) {c : Collecting} (active : ℤ) (haggregated : c.aggregated = false)
    (htodo : c.todo = []) (hdelete : c.sessionsToDelete = keys) :
    Leads rules (s.during app active (some c))
      (s.during (keys.foldl (fun app key => deleteSession key app) app) active (some (c.erase []))) := by
  induction keys generalizing app c with
  | nil =>
    have hstays : c.erase [] = c := by
      cases c
      subst hdelete
      rfl
    rw [hstays]
    exact id
  | cons key rest ih =>
    refine Leads.trans (.step (a := .erase) ?_) (ih _ (c := c.erase rest) haggregated htodo rfl)
    simp only [Controller.step, Controller.eraseSession, Controller.during, Controller.withApp, htodo, hdelete,
      haggregated, Bool.false_eq_true, if_false]

end Steps

theorem deleteSessions (keys : List String) (app : LocalControlApplication) :
    keys.foldl (fun app key => deleteSession key app) app =
      { app with dataSessions := keys.foldr AList.erase app.dataSessions } := by
  induction keys generalizing app with
  | nil => rfl
  | cons key rest ih =>
    rw [List.foldl_cons, ih]
    simp only [deleteSession, Assoc.eraseKeys_erase, List.foldr_cons]

theorem leads_collectGlobalStatistics (outside : Surroundings) (hcall : s.call = none) :
    ∃ active reply, (∀ key, reply.lookup key = (s.process.app.collectGlobalStatistics outside).2.lookup key) ∧
      Leads rules s { s.during (s.process.app.collectGlobalStatistics outside).1 active none with
        replies := s.replies ++ [reply] } := by
  let rate := fun key => DataPlaneSession.collectGlobalStatistics (outside.stages key) 0
  let keys := s.sessionOrder outside.sessionOrder
  have hstart : Leads rules s
      (s.during s.process.app s.activeDataPlaneSessions (some (.start false keys))) := by
    apply Leads.step (a := .collect false outside.sessionOrder)
    simp only [Controller.step, hcall]
    rfl
  obtain ⟨active, hsamples⟩ := leads_samples rules s s.process.app rate keys
    (c := .start false keys) s.activeDataPlaneSessions rfl
  have herases := leads_erases rules s s.process.app (keys.filter (rate · = -1))
    (c := (Collecting.start false keys).sampled rate keys) active rfl rfl (List.nil_append _)
  rw [deleteSessions] at herases
  refine ⟨active, keys.foldl (fun reply key => reply.insert key (rate key)) ∅, ?_, ?_⟩
  · intro key
    rw [Assoc.lookup_insertKeys, collectGlobalStatistics, Assoc.lookup_ofKeys]
    rfl
  · exact (hstart.trans (hsamples.trans herases)).trans (.step (a := .nextRound outside.sessionOrder) rfl)

theorem aggregateRound_eq_some {outside : Surroundings}
    {t t' : LocalControlApplication × Assoc String ℚ} {i : ℕ}
    (h : aggregateRound outside t i = some t') :
    let rate := fun key => DataPlaneSession.collectGlobalStatistics (outside.stages key) i
    let sessions := outside.sessionOrder.order t.1.dataSessions.keys
    sessions.filter (rate · = -1) = [] ∧
      t' = (t.1, (sessions.filter (rate · ≠ -1)).foldl (addSample rate i) t.2) := by
  unfold aggregateRound at h
  dsimp only at h ⊢
  split at h
  case h_1 hnone =>
    cases h
    exact ⟨hnone, rfl⟩
  case h_2 => cases h

theorem leads_round (rules : List String) (s : Controller) (outside : Surroundings) (i : ℕ) (active : ℤ)
    {t t' : LocalControlApplication × Assoc String ℚ} (h : aggregateRound outside t i = some t') :
    ∃ active', Leads rules
      (s.during t.1 active (some ⟨true, i, outside.sessionOrder.order t.1.dataSessions.keys, [], t.2⟩))
      (s.during t'.1 active' (some ⟨true, i, [], [], t'.2⟩)) := by
  obtain ⟨hnone, rfl⟩ := aggregateRound_eq_some h
  let rate := fun key => DataPlaneSession.collectGlobalStatistics (outside.stages key) i
  let keys := outside.sessionOrder.order t.1.dataSessions.keys
  let c : Collecting := ⟨true, i, keys, [], t.2⟩
  obtain ⟨active', hsamples⟩ := leads_samples rules s t.1 rate keys (c := c) active rfl
  have hanswer : keys.foldl (c.answer rate) t.2 = (keys.filter (rate · ≠ -1)).foldl (addSample rate i) t.2 := by
    rw [List.foldl_filter]
    congr 1
    funext reply key
    by_cases hrate : rate key = -1 <;> simp [Collecting.answer, c, hrate]
  have hcall : c.sampled rate keys =
      ⟨true, i, [], [], (keys.filter (rate · ≠ -1)).foldl (addSample rate i) t.2⟩ := by
    rw [← hanswer]
    simp only [Collecting.sampled, c, List.nil_append]
    rw [hnone]
  rw [hcall] at hsamples
  exact ⟨active', hsamples⟩

theorem leads_rounds (rules : List String) (outside : Surroundings) (i : ℕ) (hi : i < collectRounds)
    (hcall : s.call = none) {t : LocalControlApplication × Assoc String ℚ}
    (h : (List.range (i + 1)).foldlM (aggregateRound outside) (s.process.app, ∅) = some t) :
    ∃ active, Leads rules s (s.during t.1 active (some ⟨true, i, [], [], t.2⟩)) := by
  induction i generalizing t with
  | zero =>
    have hround : aggregateRound outside (s.process.app, ∅) 0 = some t := by
      rwa [Lists.foldlM_range_succ] at h
    have hstart : Leads rules s (s.during s.process.app s.activeDataPlaneSessions
        (some (.start true (s.sessionOrder outside.sessionOrder)))) := by
      apply Leads.step (a := .collect true outside.sessionOrder)
      simp only [Controller.step, hcall]
      rfl
    obtain ⟨active, hround⟩ := leads_round rules s outside 0 s.activeDataPlaneSessions hround
    exact ⟨active, hstart.trans hround⟩
  | succ i ih =>
    rw [Lists.foldlM_range_succ] at h
    obtain ⟨u, hu, h⟩ := Option.bind_eq_some_iff.mp h
    obtain ⟨active, hrounds⟩ := ih (by omega) hu
    obtain ⟨active', hround⟩ := leads_round rules s outside (i + 1) active h
    have hnext : (s.during u.1 active (some ⟨true, i, [], [], u.2⟩)).step (.nextRound outside.sessionOrder) =
        some (s.during u.1 active
          (some ⟨true, i + 1, outside.sessionOrder.order u.1.dataSessions.keys, [], u.2⟩)) := by
      simp only [Controller.step, Controller.nextRound, Controller.during]
      exact if_pos hi
    exact ⟨active', hrounds.trans ((Leads.step hnext).trans hround)⟩

theorem leads_collectGlobalStatisticsAggregated (outside : Surroundings) (hcall : s.call = none)
    {t : LocalControlApplication × Assoc String ℚ}
    (h : s.process.app.collectGlobalStatisticsAggregated outside = some t) :
    ∃ active, Leads rules s { s.during t.1 active none with replies := s.replies ++ [t.2] } := by
  obtain ⟨active, hrounds⟩ := leads_rounds rules outside 4 (by decide) hcall h
  exact ⟨active, hrounds.trans (.step (a := .nextRound outside.sessionOrder) rfl)⟩

end Cheferd.LocalThreads
