import Cheferd.RegistryModel

namespace Cheferd

open Library

namespace CoreControlApplication

variable {core core' : CoreControlApplication}

def locationEntry (core : CoreControlApplication) (job address : String) : Option (List ℤ) :=
  (core.jobLocationTracker.lookup job).bind (·.lookup address)

theorem locationEntry_eq (hne : NoEmpty core) (job address : String) :
    core.locationEntry job address =
      if core.envsOf job address = [] then none else some (core.envsOf job address) := by
  unfold locationEntry envsOf
  cases hl : core.jobLocationTracker.lookup job with
  | none => simp
  | some locations =>
    cases he : locations.lookup address with
    | none => simp [he]
    | some envs => simp [he, (hne job locations hl).2 address envs he]

structure Isolated (address : String) (dead : List String) (core core' : CoreControlApplication) : Prop where
  locations : ∀ other ≠ address, ∀ job, core'.locationEntry job other = core.locationEntry job other
  stages : ∀ other ≠ address, core'.localToStages.lookup other = core.localToStages.lookup other
  infos : ∀ other ≠ address, ∀ key ∈ core.stagesOf other,
    core'.stageInfoDetailed.lookup key = core.stageInfoDetailed.lookup key
  gone : ∀ key ∈ dead, core'.stageInfoDetailed.lookup key = none ∧ key ∉ core'.stagesOf address
  untracked : ∀ job env, stageKey job env ∈ dead → env ∉ core'.envsOf job address

structure Exclusive (address : String) (dead : List String) (core : CoreControlApplication) : Prop where
  nodup : dead.Nodup
  known : ∀ key ∈ dead, key ∈ core.stageInfoDetailed
  apart : ∀ key ∈ dead, ∀ other ≠ address, key ∉ core.stagesOf other

theorem Exclusive.of_isolated {address : String} {dead : List String} (hp : Purged dead core core')
    (h : Isolated address dead core core') : Exclusive address dead core := by
  refine ⟨hp.nodup, hp.known, fun key hk other hne hmem => ?_⟩
  have hsame := h.infos other hne key hmem
  rw [hp.stageInfoDetailed, if_pos hk] at hsame
  exact AList.lookup_eq_none.mp hsame.symm (hp.known key hk)

theorem Exclusive.namesEnv {address : String} {dead : List String} (h : Exclusive address dead core)
    (hl : core.registry.Located) (ho : core.registry.Owned) (job other : String) (env : ℤ) :
    namesEnv core.stageInfoDetailed.lookup dead job other env = true ↔
      other = address ∧ stageKey job env ∈ dead := by
  have hown : ∀ key ∈ dead, ∀ info, core.stageInfoDetailed.lookup key = some info →
      info.localAddress = address := by
    intro key hk info hinfo
    by_contra hne
    exact h.apart key hk _ hne (ho key info hinfo)
  rw [namesEnv_iff]
  constructor
  · rintro ⟨key, hk, info, hinfo, rfl, rfl, rfl⟩
    have hkey : key = info.key := (hl key info hinfo).1
    exact ⟨hown key hk info hinfo, by rw [← StageInfo.key, ← hkey]; exact hk⟩
  · rintro ⟨rfl, hk⟩
    obtain ⟨info, hinfo⟩ := Option.isSome_iff_exists.mp (AList.lookup_isSome.mpr (h.known _ hk))
    obtain ⟨hname, henv⟩ := stageKey_inj (hl _ info hinfo).1
    exact ⟨_, hk, info, hinfo, hname.symm, hown _ hk info hinfo, henv.symm⟩

theorem Exclusive.isolated {address : String} {response : StageResponse} {responseType : ℤ} {rates : Rates}
    {collection collection' : Collection} (h : Exclusive address (core.deadOf address rates) core)
    (hl : core.registry.Located) (ho : core.registry.Owned) (hne : NoEmpty core)
    (hresponse : response = .stats responseType rates)
    (hok : collectStatisticsResult address response collection core = .ok (core', collection')) :
    Isolated address (core.deadOf address rates) core core' := by
  obtain ⟨_, _, heq, hp, hstages, hother, _⟩ := collectStatisticsResult_ok hok
  rw [hresponse] at heq
  cases heq
  have henvs : ∀ other ≠ address, ∀ job, core'.envsOf job other = core.envsOf job other := by
    intro other hother job
    rw [hp.envsOf, List.filter_eq_self]
    intro env _
    rw [Bool.not_eq_true', Bool.eq_false_iff, ne_eq, h.namesEnv hl ho]
    exact fun hn => hother hn.1
  refine ⟨fun other hother job => ?_, hother, fun other hother key hmem => ?_, fun key hk => ?_,
    fun job env hk hmem => ?_⟩
  · rw [locationEntry_eq hne, locationEntry_eq (hp.noEmpty hne), henvs other hother]
  · rw [hp.stageInfoDetailed, if_neg fun hk => h.apart key hk other hother hmem]
  · refine ⟨by rw [hp.stageInfoDetailed, if_pos hk], ?_⟩
    rw [hstages, if_pos rfl]
    exact fun hmem => by simpa [hk] using (List.mem_filter.mp hmem).2
  · rw [hp.envsOf] at hmem
    have hn := (h.namesEnv hl ho job address env).mpr ⟨rfl, hk⟩
    simpa [hn] using (List.mem_filter.mp hmem).2

end CoreControlApplication

namespace FeedbackLoop

open CoreControlApplication

variable {p : Process} {allowed : Process → Action → Prop}

theorem located_owned_reach (h : machine.Reach allowed p) :
    p.Crashed ∨ p.registry.Located ∧ p.registry.Owned := by
  refine registry_invariant (I := fun r => r.Located ∧ r.Owned) ⟨?_, ?_⟩ ?_ ?_ h
  · rintro key info ⟨⟩
  · rintro key info ⟨⟩
  · intro p info rest _ _ _ _ hI
    exact ⟨hI.1.register info, hI.2.register info⟩
  · intro p r address rest collection session session' rule responseType rates _ _ _ _ _ hp hI
    exact ⟨hI.1.filter hp.infos hp.envs, hI.2.purge hp⟩

theorem reply_isolated_iff (h : machine.Reach (fun _ _ => True) p) (hcrashed : ¬ p.Crashed)
    (hpoint : ∀ info, p.point ≠ .markReady info) (address : String) (responseType : ℤ) (rates : Rates)
    (collection : Collection) (hcollects : p.core.stagesOf address ≠ [])
    (hreported : ∀ key ∈ p.core.deadOf address rates, key ∈ p.core.stagesOf address) :
    (∃ core collection',
      collectStatisticsResult address (.stats responseType rates) collection p.core = .ok (core, collection') ∧
        Isolated address (p.core.deadOf address rates) p.core core) ↔
      Exclusive address (p.core.deadOf address rates) p.core := by
  have hI := (located_owned_reach h).resolve_left hcrashed
  rw [registry_eq hpoint] at hI
  obtain ⟨hl, ho⟩ := hI
  constructor
  · rintro ⟨core, collection', hok, hisolated⟩
    obtain ⟨_, _, heq, hp, _⟩ := collectStatisticsResult_ok hok
    cases heq
    exact .of_isolated hp hisolated
  · intro hx
    obtain ⟨core, collection', hok⟩ := collectStatisticsResult_total responseType collection hl
      hcollects hx.nodup hx.known hreported
    exact ⟨core, collection', hok, hx.isolated hl ho (noEmpty_reach h) rfl hok⟩

def twinRun : List Action :=
  let accept (address : String) : List Action := [.loop, .serve address ⟨1, ∅⟩, .loop]
  [.enqueueLocal "A", .countLocal "A", .enqueueLocal "B", .countLocal "B", .loop, .loop] ++
    accept "A" ++ accept "B" ++ [.loop] ++
    [.enqueueStage ⟨"j", 7, "u", "A"⟩, .countStage, .enqueueStage ⟨"j", 7, "u", "B"⟩, .countStage] ++
    accept "A" ++ accept "B" ++ [.rehash ⟨fun _ => .reverse, fun _ => List.reverse_perm⟩, .loop, .loop]

def twinReply : Rates := AList.singleton "j+7" (-1)

theorem twinRun_reach :
    ∃ p, machine.Reach (fun _ _ => True) p ∧ p.point = .collect ["A", "B"] .empty ∧
      p.core.deadOf "A" twinReply = ["j+7"] ∧ p.core.stagesOf "A" = ["j+7"] ∧
      p.core.locationEntry "j" "B" = some [7] ∧
      (collectStatisticsResult "A" (.stats 5 twinReply) .empty p.core).toOption.map
        (fun s => s.1.locationEntry "j" "B") = some none :=
  reach_of_run .static 100 twinRun (by decide)

theorem reply_isolated_iff_twin :
    ∃ p, machine.Reach (fun _ _ => True) p ∧ p.core.deadOf "A" twinReply = ["j+7"] ∧
      ((∃ core collection,
        collectStatisticsResult "A" (.stats 5 twinReply) .empty p.core = .ok (core, collection) ∧
          Isolated "A" (p.core.deadOf "A" twinReply) p.core core) ↔
        Exclusive "A" (p.core.deadOf "A" twinReply) p.core) := by
  obtain ⟨p, hp, hpoint, hdead, hstages, _⟩ := twinRun_reach
  refine ⟨p, hp, hdead, reply_isolated_iff hp ?_ ?_ "A" 5 twinReply .empty ?_ ?_⟩
  · simp [Process.Crashed, hpoint]
  · simp [hpoint]
  · simp [hstages]
  · simp [hdead, hstages]

theorem reply_takes_twin_of_other_controller :
    ∃ p, machine.Reach (fun _ _ => True) p ∧ p.point = .collect ["A", "B"] .empty ∧
      p.core.deadOf "A" twinReply = ["j+7"] ∧ p.core.stagesOf "A" = ["j+7"] ∧
      ∃ core collection, collectStatisticsResult "A" (.stats 5 twinReply) .empty p.core =
      .ok (core, collection) ∧
        p.core.locationEntry "j" "B" = some [7] ∧ core.locationEntry "j" "B" = none ∧
        ¬ Isolated "A" (p.core.deadOf "A" twinReply) p.core core := by
  obtain ⟨p, hp, hpoint, hdead, hstages, hbefore, hafter⟩ := twinRun_reach
  cases hr : collectStatisticsResult "A" (.stats 5 twinReply) .empty p.core with
  | error fault => simp [hr, Except.toOption] at hafter
  | ok s =>
    obtain ⟨core, collection⟩ := s
    have hgone : core.locationEntry "j" "B" = none := by simpa [hr, Except.toOption] using hafter
    refine ⟨p, hp, hpoint, hdead, hstages, core, collection, hr, hbefore, hgone, fun hi => ?_⟩
    have hsame := hi.locations "B" (by decide) "j"
    rw [hbefore, hgone] at hsame
    cases hsame

end FeedbackLoop

end Cheferd
