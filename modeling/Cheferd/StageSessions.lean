import Cheferd.LocalControlApplication
import Mathlib.Logic.Function.Basic

namespace Cheferd.StageSessions

open Library

def pointers (preparing data : Assoc String ℕ) : List ℕ := (preparing.entries ++ data.entries).map Sigma.snd

structure Sessions where
  preparingDataSessions : Assoc String ℕ
  dataSessions : Assoc String ℕ
  created : ℕ
  unique : (pointers preparingDataSessions dataSessions).Nodup
  below : ∀ session ∈ pointers preparingDataSessions dataSessions, session < created

section Pointers

variable {preparing data : Assoc String ℕ} {key : String} {session : ℕ}

theorem pointers_erase (key : String) (preparing data : Assoc String ℕ) :
    (pointers (preparing.erase key) data).Sublist (pointers preparing data) := by
  apply List.Sublist.map
  exact (List.kerase_sublist key preparing.entries).append_right data.entries

theorem pointers_insert (key : String) (session : ℕ) (preparing data : Assoc String ℕ) :
    pointers (preparing.insert key session) data = session :: pointers (preparing.erase key) data := by
  simp only [pointers, AList.entries_insert, List.cons_append, List.map_cons]
  rfl

theorem pointers_move (h : preparing.lookup key = some session) (hdata : key ∉ data) :
    (pointers (preparing.erase key) (data.insert key session)).Perm (pointers preparing data) := by
  have hmem : ⟨key, session⟩ ∈ preparing.entries := List.mem_dlookup_iff preparing.nodupKeys |>.mp h
  obtain ⟨value, before, after, -, hentries, herase⟩ :=
    List.exists_of_kerase (List.mem_keys_of_mem hmem : key ∈ preparing.entries.keys)
  have hvalue : value = session := by
    have hlookup : preparing.lookup key = some value :=
      Assoc.lookup_of_mem_entries (by rw [hentries]; simp)
    exact Option.some.inj (hlookup.symm.trans h)
  have hkept : (preparing.erase key).entries = before ++ after := herase
  unfold pointers
  rw [AList.entries_insert_of_notMem hdata, hkept, hentries, hvalue]
  apply List.Perm.map
  simp only [List.append_assoc, List.cons_append]
  refine List.Perm.append_left before ?_
  exact List.perm_middle

theorem mem_pointers_preparing (h : preparing.lookup key = some session) :
    session ∈ pointers preparing data := by
  have hmem : ⟨key, session⟩ ∈ preparing.entries := List.mem_dlookup_iff preparing.nodupKeys |>.mp h
  exact List.mem_map.mpr ⟨_, List.mem_append_left _ hmem, rfl⟩

theorem mem_pointers_data (h : data.lookup key = some session) : session ∈ pointers preparing data := by
  have hmem : ⟨key, session⟩ ∈ data.entries := List.mem_dlookup_iff data.nodupKeys |>.mp h
  exact List.mem_map.mpr ⟨_, List.mem_append_right _ hmem, rfl⟩

end Pointers

namespace Sessions

def empty : Sessions := ⟨∅, ∅, 0, List.nodup_nil, fun _ h => absurd h List.not_mem_nil⟩

def addSession (key : String) (s : Sessions) : Sessions where
  preparingDataSessions := s.preparingDataSessions.insert key s.created
  dataSessions := s.dataSessions
  created := s.created + 1
  unique := by
    have hsublist := pointers_erase key s.preparingDataSessions s.dataSessions
    rw [pointers_insert, List.nodup_cons]
    exact ⟨fun h => lt_irrefl _ (s.below _ (hsublist.subset h)), hsublist.nodup s.unique⟩
  below := by
    have hsublist := pointers_erase key s.preparingDataSessions s.dataSessions
    rw [pointers_insert]
    intro session h
    rcases List.mem_cons.mp h with rfl | h
    · exact Nat.lt_succ_self _
    · exact (s.below session (hsublist.subset h)).trans (Nat.lt_succ_self _)

/-- The entry of the new session in `call_stage_handshake`. A session that the key had is destroyed while
its thread waits on a condition variable, which does not return. -/
def prepare (key : String) (s : Sessions) : Option Sessions :=
  if key ∈ s.preparingDataSessions then none else some (s.addSession key)

def discard (key : String) (s : Sessions) : Sessions where
  preparingDataSessions := s.preparingDataSessions.erase key
  dataSessions := s.dataSessions
  created := s.created
  unique := (pointers_erase key _ _).nodup s.unique
  below := fun session h => s.below session ((pointers_erase key _ _).subset h)

theorem insert_pointers (s : Sessions) (key : String) :
    ∃ l, l.Sublist (pointers s.preparingDataSessions s.dataSessions) ∧
      (pointers (s.preparingDataSessions.erase key)
        ((s.preparingDataSessions.lookup key).elim s.dataSessions fun session =>
          s.dataSessions.emplace key session)).Perm l := by
  cases hlookup : s.preparingDataSessions.lookup key with
  | none => exact ⟨_, pointers_erase key _ _, .refl _⟩
  | some session =>
    simp only [Option.elim, Assoc.emplace]
    split
    · exact ⟨_, pointers_erase key _ _, .refl _⟩
    case isFalse hdata => exact ⟨_, .refl _, pointers_move hlookup hdata⟩

/-- The node is extracted and inserted. An empty one is not, nor one whose key is there: that one is
destroyed with its session, whose thread waits, and there is no reply. -/
def markStageReady (key : String) (s : Sessions) : Sessions × Option ℤ :=
  ({ preparingDataSessions := s.preparingDataSessions.erase key
     dataSessions := (s.preparingDataSessions.lookup key).elim s.dataSessions fun session =>
       s.dataSessions.emplace key session
     created := s.created
     unique := by
       obtain ⟨l, hl, hperm⟩ := s.insert_pointers key
       exact hperm.nodup_iff.mpr (hl.nodup s.unique)
     below := by
       obtain ⟨l, hl, hperm⟩ := s.insert_pointers key
       exact fun session h => s.below session (hl.subset (hperm.mem_iff.mp h)) },
    if key ∈ s.preparingDataSessions ∧ key ∈ s.dataSessions then none else some 1)

def Truthful (key : String) (s t : Sessions) : Prop :=
  (∃ session, s.preparingDataSessions.lookup key = some session ∧ t.dataSessions.lookup key = some session) ∧
    key ∉ t.preparingDataSessions ∧
    ∀ k, k ≠ key → t.preparingDataSessions.lookup k = s.preparingDataSessions.lookup k ∧
      t.dataSessions.lookup k = s.dataSessions.lookup k

theorem markStageReady_moves {s : Sessions} {key : String} (hprepared : key ∈ s.preparingDataSessions)
    (hdata : key ∉ s.dataSessions) : Truthful key s (s.markStageReady key).1 := by
  obtain ⟨session, hsession⟩ := Option.isSome_iff_exists.mp (AList.lookup_isSome.mpr hprepared)
  simp only [Truthful, markStageReady, hsession, Option.elim, Assoc.emplace, if_neg hdata]
  refine ⟨⟨session, rfl, AList.lookup_insert _⟩, by simp, fun k hk => ?_⟩
  exact ⟨AList.lookup_erase_ne hk, AList.lookup_insert_ne hk⟩

example : (((empty.addSession "j+1").markStageReady "j+1").1.prepare "j+1").map
    (fun again => (again.markStageReady "j+1").2) = some none := by decide

end Sessions

section Refinement

variable {contents : ℕ → DataPlaneSession} {s : Sessions} {app : LocalControlApplication} {key : String}

def Shows (contents : ℕ → DataPlaneSession) (s : Sessions) (app : LocalControlApplication) : Prop :=
  (∀ k, app.preparingDataSessions.lookup k = (s.preparingDataSessions.lookup k).map contents) ∧
    ∀ k, app.dataSessions.lookup k = (s.dataSessions.lookup k).map contents

theorem Shows.mem_preparing (h : Shows contents s app) (key : String) :
    key ∈ app.preparingDataSessions ↔ key ∈ s.preparingDataSessions := by
  rw [← AList.lookup_isSome, h.1 key, Option.isSome_map, AList.lookup_isSome]

theorem Shows.mem_data (h : Shows contents s app) (key : String) :
    key ∈ app.dataSessions ↔ key ∈ s.dataSessions := by
  rw [← AList.lookup_isSome, h.2 key, Option.isSome_map, AList.lookup_isSome]

theorem Shows.markStageReady (h : Shows contents s app) :
    Shows contents (s.markStageReady key).1 (app.markStageReady key).1 ∧
      (app.markStageReady key).2 = (s.markStageReady key).2 := by
  have happ : app.markStageReady key = ({ app with
      preparingDataSessions := app.preparingDataSessions.erase key
      dataSessions := (app.preparingDataSessions.lookup key).elim app.dataSessions fun session =>
        app.dataSessions.emplace key session },
      if key ∈ app.preparingDataSessions ∧ key ∈ app.dataSessions then none else some 1) := by
    unfold LocalControlApplication.markStageReady
    cases hlookup : app.preparingDataSessions.lookup key with
    | none =>
      have hnot : key ∉ app.preparingDataSessions := AList.lookup_eq_none.mp hlookup
      have hkept : app.preparingDataSessions.erase key = app.preparingDataSessions :=
        AList.ext (List.kerase_of_notMem_keys hnot)
      simp [hkept, hnot]
    | some session =>
      have hin : key ∈ app.preparingDataSessions := AList.lookup_isSome.mp (by rw [hlookup]; rfl)
      simp only [hin, true_and, Option.elim_some]
  rw [happ]
  refine ⟨⟨fun k => ?_, fun k => ?_⟩, ?_⟩
  · simp only [Sessions.markStageReady, Assoc.lookup_erase_eq, h.1 k]
    split <;> rfl
  · simp only [Sessions.markStageReady, h.1 key]
    cases s.preparingDataSessions.lookup key with
    | none => exact h.2 k
    | some session =>
      simp only [Option.map_some, Option.elim, Assoc.lookup_emplace, h.2 k, h.2 key]
      split
      · cases s.dataSessions.lookup key <;> rfl
      · rfl
  · simp only [Sessions.markStageReady, h.mem_preparing, h.mem_data]

theorem Shows.addSession (h : Shows contents s app) :
    Shows (Function.update contents s.created .new) (s.addSession key)
      { app with preparingDataSessions := app.preparingDataSessions.insert key .new } := by
  have hkept : ∀ o : Option ℕ, (∀ session, o = some session → session < s.created) →
      o.map contents = o.map (Function.update contents s.created .new) := by
    intro o ho
    cases o with
    | none => rfl
    | some session =>
      have hne : session ≠ s.created := (ho session rfl).ne
      simp [Function.update_of_ne hne]
  constructor
  · intro k
    simp only [Sessions.addSession, Assoc.lookup_insert_eq, h.1 k]
    split
    · simp
    · exact hkept _ fun session hsession => s.below _ (mem_pointers_preparing hsession)
  · intro k
    refine (h.2 k).trans ?_
    exact hkept _ fun session hsession => s.below _ (mem_pointers_data hsession)

theorem Shows.discard (h : Shows contents s app) :
    Shows contents (s.discard key) { app with
      preparingDataSessions := app.preparingDataSessions.erase key } := by
  refine ⟨fun k => ?_, h.2⟩
  simp only [Sessions.discard, Assoc.lookup_erase_eq, h.1 k]
  split <;> rfl

end Refinement

end Cheferd.StageSessions
