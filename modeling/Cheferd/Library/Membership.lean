import Mathlib.Data.List.Nodup
import Mathlib.Data.Set.Insert

namespace Cheferd.Library.Membership

variable {κ : Type}

inductive Request (κ : Type)
  | ready (key : κ)
  | report
  | other

inductive Answer (κ : Type)
  | report (members dead : Set κ)
  | other

def Request.key : Request κ → Option κ
  | .ready key => some key
  | _ => none

/-- A registrar that lists the members of a holder. The holder prepares a member before it announces it,
and holds it once the registrar says it is ready; its reports tell the registrar who is gone. -/
@[ext] structure Link (κ : Type) where
  listed : Set κ
  announced : List κ
  requests : List (Request κ)
  answers : List (Answer κ)
  held : Set κ
  preparing : Set κ
  offered : Option κ

namespace Link

def Quiet (l : Link κ) : Prop := l.requests = [] ∧ l.answers = []

inductive Step (l : Link κ) : Link κ → Prop
  | prepare (k : κ) : Step l { l with preparing := insert k l.preparing }
  | offer (k : κ) (h : k ∉ l.preparing) (hfree : l.offered = none) :
      Step l { l with preparing := insert k l.preparing, offered := some k }
  | withdraw (k : κ) (h : l.offered = some k) :
      Step l { l with preparing := l.preparing \ {k}, offered := none }
  | announce (k : κ) (h : l.offered = some k) :
      Step l { l with announced := l.announced ++ [k], offered := none }
  | enroll (k : κ) (rest : List κ) (h : l.announced = k :: rest) (hquiet : l.Quiet) :
      Step l { l with listed := insert k l.listed, announced := rest, requests := [.ready k] }
  | ask (hquiet : l.Quiet) (h : l.listed.Nonempty) : Step l { l with requests := [.report] }
  | tell (requests : List (Request κ)) (hquiet : l.Quiet) (h : ∀ r ∈ requests, r = .other) :
      Step l { l with requests := requests }
  | grant (k : κ) (rest : List (Request κ)) (h : l.requests = .ready k :: rest) :
      Step l { l with
        requests := rest
        answers := l.answers ++ [.other]
        held := {x | x ∈ l.held ∨ x = k ∧ k ∈ l.preparing}
        preparing := l.preparing \ {k} }
  | report (dead : Set κ) (rest : List (Request κ)) (h : l.requests = .report :: rest) (hdead : dead ⊆ l.held) :
      Step l { l with
        requests := rest
        answers := l.answers ++ [.report l.held dead]
        held := l.held \ dead }
  | reply (rest : List (Request κ)) (h : l.requests = .other :: rest) :
      Step l { l with requests := rest, answers := l.answers ++ [.other] }
  | receive (rest : List (Answer κ)) (h : l.answers = .other :: rest) : Step l { l with answers := rest }
  | purge (members dead : Set κ) (rest : List (Answer κ)) (h : l.answers = .report members dead :: rest) :
      Step l { l with listed := {k | k ∈ l.listed ∧ members.Nonempty ∧ k ∉ dead}, answers := rest }

def flight (l : Link κ) : List κ := l.announced ++ l.requests.filterMap Request.key ++ l.offered.toList

structure Agreed (l : Link κ) : Prop where
  listed_iff : ∀ k, k ∈ l.listed ↔ k ∈ l.held ∨ .ready k ∈ l.requests ∨
    ∃ members dead, .report members dead ∈ l.answers ∧ k ∈ dead
  reported : ∀ members dead, .report members dead ∈ l.answers → members.Nonempty ∧ ∀ k ∈ dead, k ∉ l.held
  alone : (.report ∈ l.requests ∨ ∃ members dead, .report members dead ∈ l.answers) →
    l.requests.length + l.answers.length = 1
  asked : .report ∈ l.requests → l.listed.Nonempty
  flight_nodup : l.flight.Nodup
  flight_preparing : ∀ k ∈ l.flight, k ∈ l.preparing

variable {l l' : Link κ}

theorem Agreed.quiet (h : l.Agreed) (hquiet : l.Quiet) : l.listed = l.held := by
  ext k
  rw [h.listed_iff, hquiet.1, hquiet.2]
  simp

theorem flight_of_perm {k : κ} (hnodup : l.flight.Nodup) (hperm : l.flight.Perm (k :: l'.flight)) :
    l'.flight.Nodup ∧ ∀ x ∈ l'.flight, x ≠ k ∧ x ∈ l.flight := by
  obtain ⟨hnotin, hnodup'⟩ := List.nodup_cons.mp (hperm.nodup_iff.mp hnodup)
  exact ⟨hnodup', fun x hx => ⟨fun he => hnotin (he ▸ hx), hperm.mem_iff.mpr (List.mem_cons_of_mem _ hx)⟩⟩

theorem Agreed.no_report {r : Request κ} {rest : List (Request κ)} (h : l.Agreed)
    (hk : l.requests = r :: rest) :
    .report ∉ rest ∧ ∀ members dead, .report members dead ∉ l.answers := by
  have hlength : l.requests.length = rest.length + 1 := by rw [hk, List.length_cons]
  constructor
  · intro hmem
    have hone := h.alone (.inl (by rw [hk]; exact List.mem_cons_of_mem _ hmem))
    have hpos := List.length_pos_of_mem hmem
    omega
  · intro members dead hmem
    have hone := h.alone (.inr ⟨members, dead, hmem⟩)
    have hpos := List.length_pos_of_mem hmem
    omega

theorem Agreed.prepare {k : κ} (h : l.Agreed) : Agreed { l with preparing := insert k l.preparing } := by
  obtain ⟨hlisted, hreported, halone, hasked, hnodup, hpreparing⟩ := h
  exact ⟨hlisted, hreported, halone, hasked, hnodup, fun x hx => .inr (hpreparing x hx)⟩

theorem Agreed.offer {k : κ} (h : l.Agreed) (hk : k ∉ l.preparing) (hfree : l.offered = none) :
    Agreed { l with preparing := insert k l.preparing, offered := some k } := by
  obtain ⟨hlisted, hreported, halone, hasked, hnodup, hpreparing⟩ := h
  have hflight : flight { l with preparing := insert k l.preparing, offered := some k } = l.flight ++ [k] := by
    simp [flight, hfree]
  refine ⟨hlisted, hreported, halone, hasked, ?_, ?_⟩ <;> rw [hflight]
  · rw [List.nodup_append_comm]
    exact List.nodup_cons.mpr ⟨fun hmem => hk (hpreparing k hmem), hnodup⟩
  · intro x hx
    rcases List.mem_append.mp hx with hx | hx
    · exact .inr (hpreparing x hx)
    · exact .inl (List.mem_singleton.mp hx)

theorem Agreed.withdraw {k : κ} (h : l.Agreed) (hk : l.offered = some k) :
    Agreed { l with preparing := l.preparing \ {k}, offered := none } := by
  obtain ⟨hlisted, hreported, halone, hasked, hnodup, hpreparing⟩ := h
  have hperm : l.flight.Perm (k :: flight { l with preparing := l.preparing \ {k}, offered := none }) := by
    simp only [flight, hk, Option.toList_some, Option.toList_none, List.append_nil]
    exact List.perm_append_singleton k _
  obtain ⟨hnodup', hkept⟩ := flight_of_perm hnodup hperm
  exact ⟨hlisted, hreported, halone, hasked, hnodup', fun x hx =>
    ⟨hpreparing x (hkept x hx).2, (hkept x hx).1⟩⟩

theorem Agreed.announce {k : κ} (h : l.Agreed) (hk : l.offered = some k) :
    Agreed { l with announced := l.announced ++ [k], offered := none } := by
  obtain ⟨hlisted, hreported, halone, hasked, hnodup, hpreparing⟩ := h
  have hperm : l.flight.Perm (flight { l with announced := l.announced ++ [k], offered := none }) := by
    simp only [flight, hk, Option.toList_some, Option.toList_none, List.append_nil, List.append_assoc]
    exact List.perm_append_comm.append_left _
  exact ⟨hlisted, hreported, halone, hasked, hperm.nodup_iff.mp hnodup, fun x hx =>
    hpreparing x (hperm.mem_iff.mpr hx)⟩

theorem Agreed.enroll {k : κ} {rest : List κ} (h : l.Agreed) (hk : l.announced = k :: rest) (hquiet : l.Quiet) :
    Agreed { l with listed := insert k l.listed, announced := rest, requests := [.ready k] } := by
  obtain ⟨hlisted, hreported, halone, hasked, hnodup, hpreparing⟩ := h
  obtain ⟨hrequests, hanswers⟩ := hquiet
  have hperm : l.flight.Perm (flight { l with
      listed := insert k l.listed, announced := rest, requests := [.ready k] }) := by
    simp only [flight, hk, hrequests, List.filterMap_nil, List.append_nil, List.filterMap_cons, Request.key]
    exact (List.perm_append_singleton k rest).symm.append_right _
  rw [hrequests, hanswers] at hlisted
  refine ⟨fun x => ?_, ?_, ?_, ?_, hperm.nodup_iff.mp hnodup, fun x hx => hpreparing x (hperm.mem_iff.mpr hx)⟩
  · have hx := hlisted x
    simp only [List.not_mem_nil, false_and, exists_false, or_false] at hx
    rw [Set.mem_insert_iff, hx, hanswers]
    simp [or_comm]
  · simp [hanswers]
  · simp [hanswers]
  · simp

theorem Agreed.ask (h : l.Agreed) (hquiet : l.Quiet) (hne : l.listed.Nonempty) :
    Agreed { l with requests := [.report] } := by
  obtain ⟨hlisted, hreported, halone, hasked, hnodup, hpreparing⟩ := h
  obtain ⟨hrequests, hanswers⟩ := hquiet
  rw [hrequests, hanswers] at hlisted
  refine ⟨fun x => ?_, ?_, ?_, fun _ => hne, ?_, ?_⟩
  · simpa [hanswers] using hlisted x
  · simp [hanswers]
  · simp [hanswers]
  · simpa [flight, hrequests, List.filterMap_cons, Request.key] using hnodup
  · simpa [flight, hrequests, List.filterMap_cons, Request.key] using hpreparing

theorem Agreed.tell {requests : List (Request κ)} (h : l.Agreed) (hquiet : l.Quiet)
    (hother : ∀ r ∈ requests, r = .other) : Agreed { l with requests := requests } := by
  obtain ⟨hlisted, hreported, halone, hasked, hnodup, hpreparing⟩ := h
  obtain ⟨hrequests, hanswers⟩ := hquiet
  rw [hrequests, hanswers] at hlisted
  have hkeys : requests.filterMap Request.key = [] :=
    List.filterMap_eq_nil_iff.mpr fun r hr => by rw [hother r hr]; rfl
  have hready : ∀ k, .ready k ∉ requests := fun k hr => nomatch hother _ hr
  have hreport : .report ∉ requests := fun hr => nomatch hother _ hr
  refine ⟨fun x => ?_, ?_, ?_, fun hr => absurd hr hreport, ?_, ?_⟩
  · simpa [hanswers, hready] using hlisted x
  · simp [hanswers]
  · simp [hanswers, hreport]
  · simpa [flight, hrequests, hkeys] using hnodup
  · simpa [flight, hrequests, hkeys] using hpreparing

theorem Agreed.grant {k : κ} {rest : List (Request κ)} (h : l.Agreed) (hk : l.requests = .ready k :: rest) :
    Agreed { l with
      requests := rest
      answers := l.answers ++ [.other]
      held := {x | x ∈ l.held ∨ x = k ∧ k ∈ l.preparing}
      preparing := l.preparing \ {k} } := by
  obtain ⟨hrest, hnone⟩ := h.no_report hk
  obtain ⟨hlisted, hreported, halone, hasked, hnodup, hpreparing⟩ := h
  have hperm : l.flight.Perm (k :: flight { l with
      requests := rest
      answers := l.answers ++ [.other]
      held := {x | x ∈ l.held ∨ x = k ∧ k ∈ l.preparing}
      preparing := l.preparing \ {k} }) := by
    simp only [flight, hk, List.filterMap_cons, Request.key, List.append_assoc, List.cons_append]
    exact List.perm_middle
  obtain ⟨hnodup', hkept⟩ := flight_of_perm hnodup hperm
  have hin : k ∈ l.preparing := hpreparing k (hperm.mem_iff.mpr List.mem_cons_self)
  refine ⟨fun x => ?_, ?_, ?_, ?_, hnodup', fun x hx => ⟨hpreparing x (hkept x hx).2, (hkept x hx).1⟩⟩
  · rw [hlisted x, hk]
    simp [hnone, hin, or_assoc]
  · simp [hnone]
  · simp [hnone, hrest]
  · exact fun hr => absurd hr hrest

theorem Agreed.report {dead : Set κ} {rest : List (Request κ)} (h : l.Agreed)
    (hk : l.requests = .report :: rest)
    (hdead : dead ⊆ l.held) :
    Agreed { l with
      requests := rest
      answers := l.answers ++ [.report l.held dead]
      held := l.held \ dead } := by
  obtain ⟨hlisted, hreported, halone, hasked, hnodup, hpreparing⟩ := h
  have hone := halone (.inl (by rw [hk]; exact List.mem_cons_self))
  rw [hk, List.length_cons] at hone
  obtain ⟨rfl, hanswers⟩ : rest = [] ∧ l.answers = [] :=
    ⟨List.eq_nil_of_length_eq_zero (by omega), List.eq_nil_of_length_eq_zero (by omega)⟩
  have hne := hasked (by rw [hk]; exact List.mem_cons_self)
  have hsame : ∀ x, x ∈ l.listed ↔ x ∈ l.held := fun x => by
    rw [hlisted x, hk, hanswers]
    simp
  refine ⟨fun x => ?_, ?_, ?_, by simp, ?_, ?_⟩
  · have hnew : (∃ members dead', .report members dead' ∈ l.answers ++ [.report l.held dead] ∧ x ∈ dead') ↔
        x ∈ dead := by simp [hanswers]
    rw [hsame x, hnew, Set.mem_sdiff]
    by_cases hx : x ∈ dead
    · simp [hx, hdead hx]
    · simp [hx]
  · rintro members dead' hr
    simp only [hanswers, List.nil_append, List.mem_singleton, Answer.report.injEq] at hr
    obtain ⟨rfl, rfl⟩ := hr
    obtain ⟨x, hx⟩ := hne
    exact ⟨⟨x, (hsame x).mp hx⟩, fun k hk' hin => hin.2 hk'⟩
  · simp [hanswers]
  · simpa [flight, hk, List.filterMap_cons, Request.key] using hnodup
  · simpa [flight, hk, List.filterMap_cons, Request.key] using hpreparing

theorem Agreed.reply {rest : List (Request κ)} (h : l.Agreed) (hk : l.requests = .other :: rest) :
    Agreed { l with requests := rest, answers := l.answers ++ [.other] } := by
  obtain ⟨hrest, hnone⟩ := h.no_report hk
  obtain ⟨hlisted, hreported, halone, hasked, hnodup, hpreparing⟩ := h
  refine ⟨fun x => ?_, ?_, ?_, fun hr => absurd hr hrest, ?_, ?_⟩
  · rw [hlisted x, hk]
    simp [hnone]
  · simp [hnone]
  · simp [hnone, hrest]
  · simpa [flight, hk, List.filterMap_cons, Request.key] using hnodup
  · simpa [flight, hk, List.filterMap_cons, Request.key] using hpreparing

theorem Agreed.receive {rest : List (Answer κ)} (h : l.Agreed) (hk : l.answers = .other :: rest) :
    Agreed { l with answers := rest } := by
  obtain ⟨hlisted, hreported, halone, hasked, hnodup, hpreparing⟩ := h
  have hfew : ¬ (.report ∈ l.requests ∨ ∃ members dead, .report members dead ∈ rest) := by
    intro hr
    have hone := halone (hr.imp_right fun ⟨members, dead, hr⟩ =>
      ⟨members, dead, by rw [hk]; exact List.mem_cons_of_mem _ hr⟩)
    rw [hk, List.length_cons] at hone
    rcases hr with hr | ⟨members, dead, hr⟩
    · have hpos := List.length_pos_of_mem hr
      omega
    · have hpos := List.length_pos_of_mem hr
      omega
  refine ⟨fun x => ?_, fun members dead hr => absurd (.inr ⟨members, dead, hr⟩) hfew, fun hr => absurd hr hfew,
    fun hr => absurd (.inl hr) hfew, hnodup, hpreparing⟩
  rw [hlisted x, hk]
  simp

theorem Agreed.purge {members dead : Set κ} {rest : List (Answer κ)} (h : l.Agreed)
    (hk : l.answers = .report members dead :: rest) :
    Agreed { l with listed := {k | k ∈ l.listed ∧ members.Nonempty ∧ k ∉ dead}, answers := rest } := by
  obtain ⟨hlisted, hreported, halone, hasked, hnodup, hpreparing⟩ := h
  have hmem : .report members dead ∈ l.answers := by
    rw [hk]
    exact List.mem_cons_self
  have hone := halone (.inr ⟨members, dead, hmem⟩)
  rw [hk, List.length_cons] at hone
  obtain ⟨hrequests, rfl⟩ : l.requests = [] ∧ rest = [] :=
    ⟨List.eq_nil_of_length_eq_zero (by omega), List.eq_nil_of_length_eq_zero (by omega)⟩
  obtain ⟨hmembers, hgone⟩ := hreported members dead hmem
  refine ⟨fun x => ?_, by simp, by simp [hrequests], by simp [hrequests], hnodup, hpreparing⟩
  have hold : (∃ members' dead', .report members' dead' ∈ l.answers ∧ x ∈ dead') ↔ x ∈ dead := by simp [hk]
  have hx := hlisted x
  rw [hold, hrequests] at hx
  have hnew : x ∈ ({k | k ∈ l.listed ∧ members.Nonempty ∧ k ∉ dead} : Set κ) ↔ x ∈ l.listed ∧ x ∉ dead := by
    simp [hmembers]
  rw [hnew, hx]
  simp only [hrequests, List.not_mem_nil, false_and, exists_false, false_or, or_false]
  constructor
  · rintro ⟨hin | hin, hnotin⟩
    · exact hin
    · exact absurd hin hnotin
  · exact fun hin => ⟨.inl hin, fun hd => hgone x hd hin⟩

theorem Agreed.step (hs : Step l l') (h : l.Agreed) : l'.Agreed := by
  cases hs with
  | prepare k => exact h.prepare
  | offer k hk hfree => exact h.offer hk hfree
  | withdraw k hk => exact h.withdraw hk
  | announce k hk => exact h.announce hk
  | enroll k rest hk hquiet => exact h.enroll hk hquiet
  | ask hquiet hne => exact h.ask hquiet hne
  | tell requests hquiet hother => exact h.tell hquiet hother
  | grant k rest hk => exact h.grant hk
  | report dead rest hk hdead => exact h.report hk hdead
  | reply rest hk => exact h.reply hk
  | receive rest hk => exact h.receive hk
  | purge members dead rest hk => exact h.purge hk

def Told (l : Link κ) : Prop := ∀ members dead, .report members dead ∈ l.answers → members ⊆ l.listed

theorem Told.step (hs : Step l l') (hagreed : l.Agreed) (h : l.Told) : l'.Told := by
  have hkept : ∀ answers, answers ⊆ l.answers → Told { l with answers := answers } :=
    fun answers hsub members dead hr => h members dead (hsub hr)
  have hother : ∀ members dead, .report members dead ∈ l.answers ++ [.other] → members ⊆ l.listed := by
    intro members dead hr
    exact h members dead (by simpa using hr)
  cases hs with
  | enroll k rest hk hquiet => exact fun members dead hr => absurd hr (by simp [hquiet.2])
  | grant k rest hk => exact hother
  | reply rest hk => exact hother
  | report dead rest hk hdead =>
    intro members dead' hr
    rcases List.mem_append.mp hr with hr | hr
    · exact h members dead' hr
    · obtain ⟨rfl, _⟩ : members = l.held ∧ dead' = dead := by simpa using hr
      exact fun k hin => (hagreed.listed_iff k).mpr (.inl hin)
  | receive rest hk => exact hkept rest (by rw [hk]; exact List.subset_cons_self _ _)
  | purge members dead rest hk =>
    have hone := hagreed.alone (.inr ⟨members, dead, by rw [hk]; exact List.mem_cons_self⟩)
    rw [hk, List.length_cons] at hone
    obtain rfl : rest = [] := List.eq_nil_of_length_eq_zero (by omega)
    exact fun members' dead' hr => absurd hr List.not_mem_nil
  | _ => exact h

end Link

end Cheferd.Library.Membership
