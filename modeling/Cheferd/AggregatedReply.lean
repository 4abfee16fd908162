import Cheferd.AggregatedStatistics

namespace Cheferd

open Library

def Surroundings.AliveFor (outside : Surroundings) (key : String) (rounds : ℕ) : Prop :=
  ∀ i < rounds, outside.sample key i ≠ -1

instance (outside : Surroundings) (key : String) (rounds : ℕ) : Decidable (outside.AliveFor key rounds) :=
  inferInstanceAs (Decidable (∀ i < rounds, _))

theorem Surroundings.aliveFor_succ {outside : Surroundings} {key : String} {n : ℕ} :
    outside.AliveFor key (n + 1) ↔ outside.AliveFor key n ∧ outside.sample key n ≠ -1 := by
  unfold AliveFor
  rw [Nat.forall_lt_succ_right]

namespace LocalControlApplication

structure Aggregation where
  app : LocalControlApplication
  reply : Assoc String ℚ
  activeDataPlaneSessions : ℤ

namespace Aggregation

def round (outside : Surroundings) (s : Aggregation) (i : ℕ) : Option Aggregation :=
  let sessions := outside.sessionOrder.order s.app.dataSessions.keys
  (aggregateRound outside (s.app, s.reply) i).map fun t =>
    { app := t.1
      reply := t.2
      activeDataPlaneSessions := s.activeDataPlaneSessions -
        (sessions.filter (outside.sample · i = -1)).length }

def start (app : LocalControlApplication) (active : ℤ) : Aggregation := ⟨app, ∅, active⟩

def run (outside : Surroundings) (rounds : ℕ) (s : Aggregation) : Option Aggregation :=
  (List.range rounds).foldlM (round outside) s

theorem run_collectRounds (outside : Surroundings) (app : LocalControlApplication) (active : ℤ) :
    (run outside collectRounds (start app active)).map (fun s => (s.app, s.reply)) =
      app.collectGlobalStatisticsAggregated outside := by
  have hrounds : ∀ n, (run outside n (start app active)).map (fun s => (s.app, s.reply)) =
      (List.range n).foldlM (aggregateRound outside) (app, ∅) := by
    intro n
    induction n with
    | zero => rfl
    | succ n ih =>
      rw [run, Lists.foldlM_range_succ, Lists.foldlM_range_succ, ← ih, Option.map_bind, Option.bind_map]
      congr 1
      funext s
      simp only [Function.comp_apply, round, Option.map_map]
      exact Option.map_id'
  exact hrounds collectRounds

section Round

variable {outside : Surroundings} {s t : Aggregation} {i : ℕ}

theorem round_eq_some (h : round outside s i = some t) :
    (∀ key ∈ s.app.dataSessions, outside.sample key i ≠ -1) ∧ t.app = s.app ∧
      t.activeDataPlaneSessions = s.activeDataPlaneSessions ∧ ∀ key, t.reply.lookup key =
        if key ∈ s.app.dataSessions then
          some ((s.reply.lookup key).elim (outside.sample key i) fun previousValue =>
            (outside.sample key i + previousValue * i) / (i + 1))
        else s.reply.lookup key := by
  obtain ⟨u, hround, rfl⟩ := Option.map_eq_some_iff.mp h
  unfold aggregateRound at hround
  dsimp only at hround
  split at hround
  case h_2 => cases hround
  case h_1 hnone =>
    cases hround
    have hnodup : (outside.sessionOrder.order s.app.dataSessions.keys).Nodup :=
      (outside.sessionOrder.perm _).nodup_iff.mpr s.app.dataSessions.keys_nodup
    have halive : ∀ key ∈ s.app.dataSessions, outside.sample key i ≠ -1 := by
      intro key hkey
      have hmem : key ∈ outside.sessionOrder.order s.app.dataSessions.keys := mem_traversal.mpr hkey
      exact fun he => List.filter_eq_nil_iff.mp hnone key hmem (decide_eq_true he)
    refine ⟨halive, rfl, ?_, fun key => ?_⟩
    · change _ - (((outside.sessionOrder.order s.app.dataSessions.keys).filter
        (outside.sample · i = -1)).length : ℤ) = _
      rw [show (outside.sessionOrder.order s.app.dataSessions.keys).filter (outside.sample · i = -1) =
        [] from hnone]
      simp
    · rw [foldl_addSample_lookup _ _ (hnodup.filter _)]
      simp only [List.mem_filter, mem_traversal]
      by_cases hkey : key ∈ s.app.dataSessions
      · have hlive := halive key hkey
        unfold Surroundings.sample at hlive
        simp only [hkey, hlive, true_and, decide_true, ne_eq, not_false_eq_true, if_true]
        rfl
      · simp [hkey]

theorem round_isSome (h : ∀ key ∈ s.app.dataSessions, outside.sample key i ≠ -1) :
    (round outside s i).isSome := by
  have hnone : (outside.sessionOrder.order s.app.dataSessions.keys).filter
      (fun key => DataPlaneSession.collectGlobalStatistics (outside.stages key) i = -1) = [] := by
    refine List.filter_eq_nil_iff.mpr fun key hkey => ?_
    exact fun he => h key (mem_traversal.mp hkey) (of_decide_eq_true he)
  simp only [round, aggregateRound, Option.isSome_map, hnone, Option.isSome_some]

end Round

variable {outside : Surroundings} {app : LocalControlApplication} {active : ℤ} {n : ℕ} {s : Aggregation}

structure Tallied (outside : Surroundings) (app : LocalControlApplication) (active : ℤ) (n : ℕ)
    (s : Aggregation) :
    Prop where
  alive : ∀ key ∈ app.dataSessions, outside.AliveFor key n
  kept : s.app = app
  activeDataPlaneSessions : s.activeDataPlaneSessions = active
  reply : ∀ key, s.reply.lookup key = if key ∈ app.dataSessions ∧ n ≠ 0 then some (outside.mean key n) else none

theorem Tallied.round {t : Aggregation} (h : Tallied outside app active n s)
    (hround : round outside s n = some t) :
    Tallied outside app active (n + 1) t := by
  obtain ⟨halive, happ, hactive, hreply⟩ := round_eq_some hround
  rw [h.kept] at halive
  refine ⟨fun key hkey => ?_, happ.trans h.kept, hactive.trans h.activeDataPlaneSessions, fun key => ?_⟩
  · exact Surroundings.aliveFor_succ.mpr ⟨h.alive key hkey, halive key hkey⟩
  · rw [hreply, h.reply, h.kept]
    by_cases hkey : key ∈ app.dataSessions
    · by_cases hn : n = 0
      · subst hn
        simp [hkey, Surroundings.mean]
      · simp [hkey, hn, Surroundings.mean_succ]
    · simp [hkey]

theorem tallied_run (h : run outside n (start app active) = some s) : Tallied outside app active n s := by
  induction n generalizing s with
  | zero =>
    cases h
    exact ⟨fun key _ i hi => absurd hi i.not_lt_zero, rfl, rfl, fun key => by simp [start]⟩
  | succ n ih =>
    rw [run, Lists.foldlM_range_succ] at h
    obtain ⟨t, ht, h⟩ := Option.bind_eq_some_iff.mp h
    exact (ih ht).round h

theorem run_isSome (h : ∀ key ∈ app.dataSessions, outside.AliveFor key n) :
    (run outside n (start app active)).isSome := by
  induction n with
  | zero => rfl
  | succ n ih =>
    have hbefore : ∀ key ∈ app.dataSessions, outside.AliveFor key n := fun key hkey =>
      (Surroundings.aliveFor_succ.mp (h key hkey)).1
    obtain ⟨s, hs⟩ := Option.isSome_iff_exists.mp (ih hbefore)
    rw [run, Lists.foldlM_range_succ]
    rw [run] at hs
    rw [hs, Option.bind_some]
    apply round_isSome
    rw [(tallied_run hs).kept]
    exact fun key hkey => (Surroundings.aliveFor_succ.mp (h key hkey)).2

def Reports (outside : Surroundings) (app : LocalControlApplication) (active : ℤ) (rounds : ℕ)
    (s : Aggregation) :
    Prop :=
  (∀ key, key ∈ s.reply ↔ key ∈ app.dataSessions) ∧
    (∀ key ∈ app.dataSessions, s.reply.lookup key =
      some (if ∃ i < rounds, outside.sample key i = -1 then -1 else outside.mean key rounds)) ∧
    (∀ key, key ∈ s.app.dataSessions ↔ key ∈ app.dataSessions ∧ ¬ ∃ i < rounds, outside.sample key i = -1) ∧
    s.activeDataPlaneSessions =
      active - (app.dataSessions.keys.filter fun key => ∃ i < rounds, outside.sample key i = -1).length

theorem aggregated_reply_iff (outside : Surroundings) (app : LocalControlApplication) (active : ℤ) {rounds : ℕ}
    (hrounds : 1 ≤ rounds) :
    (∃ s, run outside rounds (start app active) = some s ∧ Reports outside app active rounds s) ↔
      ∀ key ∈ app.dataSessions, ∀ i < rounds, outside.sample key i ≠ -1 := by
  constructor
  · rintro ⟨s, hs, -⟩
    exact (tallied_run hs).alive
  · intro halive
    have hreturns : (run outside rounds (start app active)).isSome := run_isSome halive
    obtain ⟨s, hs⟩ := Option.isSome_iff_exists.mp hreturns
    have htallied := tallied_run hs
    have hdead : ∀ key ∈ app.dataSessions, ¬ ∃ i < rounds, outside.sample key i = -1 := by
      rintro key hkey ⟨i, hi, hlost⟩
      exact halive key hkey i hi hlost
    have hrounds := Nat.one_le_iff_ne_zero.mp hrounds
    refine ⟨s, hs, fun key => ?_, fun key hkey => ?_, fun key => ?_, ?_⟩
    · rw [← AList.lookup_isSome, htallied.reply]
      by_cases hkey : key ∈ app.dataSessions <;> simp [hkey, hrounds]
    · rw [htallied.reply, if_pos ⟨hkey, hrounds⟩, if_neg (hdead key hkey)]
    · rw [htallied.kept]
      exact ⟨fun hkey => ⟨hkey, hdead key hkey⟩, And.left⟩
    · have hnone : app.dataSessions.keys.filter (fun key => ∃ i < rounds, outside.sample key i = -1) = [] :=
        List.filter_eq_nil_iff.mpr fun key hkey => by simpa using hdead key hkey
      rw [htallied.activeDataPlaneSessions, hnone, List.length_nil, Nat.cast_zero, sub_zero]

def twoStages : LocalControlApplication :=
  { LocalControlApplication.new [] with
    dataSessions := ((∅ : Assoc String DataPlaneSession).insert "b+2" .new).insert "a+1" .new }

theorem aggregated_reply_iff_two_stages :
    let outside : Surroundings :=
      ⟨fun key => ⟨fun _ => none, fun i => some (if key = "a+1" then if i = 0 then 1 else 3 else 4)⟩,
        .id, .id, .id⟩
    ∃ s, run outside 2 (start twoStages 2) = some s ∧ Reports outside twoStages 2 2 s :=
  (aggregated_reply_iff _ twoStages 2 one_le_two).mpr (by decide)

theorem aggregated_reply_lost_stage :
    let outside : Surroundings :=
      ⟨fun key => ⟨fun _ => none, fun i => if key = "a+1" then some 1 else if i = 0 then some 4 else none⟩,
        .id, .id, .id⟩
    run outside 2 (start twoStages 2) = none ∧
      ¬ ∃ s, run outside 2 (start twoStages 2) = some s ∧ Reports outside twoStages 2 2 s := by
  intro outside
  have hlost : run outside 2 (start twoStages 2) = none := Option.eq_none_iff_forall_ne_some.mpr fun s hs =>
    (tallied_run hs).alive "b+2" (by decide) 1 one_lt_two rfl
  refine ⟨hlost, ?_⟩
  rintro ⟨s, hs, -⟩
  rw [hlost] at hs
  cases hs

end Aggregation

end LocalControlApplication

end Cheferd
