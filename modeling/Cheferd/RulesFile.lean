import Cheferd.RulesFileParser

namespace Cheferd.RulesFileParser

open Strings

section Loop

variable {α : Type} {rule : List String → Except Fault (Option α)}

def pushRules (rule : List String → Except Fault (Option α)) (totalRules : ℤ) :
    List (List String) → List α → ℤ → Except Fault (List α × ℤ)
  | [], hskRules, rulesPassed => .ok (hskRules, rulesPassed)
  | stagedRule :: rest, hskRules, rulesPassed => do
    match ← rule stagedRule with
    | none => pushRules rule totalRules rest hskRules rulesPassed
    | some x =>
      if rulesPassed + 1 = totalRules then return (hskRules ++ [x], rulesPassed + 1)
      pushRules rule totalRules rest (hskRules ++ [x]) (rulesPassed + 1)

def pushCreateChannelRules (totalRules : ℤ) (lines : List String)
    (hskRules : List HousekeepingCreateChannelRaw) :
    Except Fault (List HousekeepingCreateChannelRaw × ℤ) :=
  pushRules createChannelRule (if totalRules = -1 then 2147483647 else totalRules) (readRules lines) hskRules 0

def pushCreateObjectRules (totalRules : ℤ) (lines : List String) (hskRules : List HousekeepingCreateObjectRaw) :
    Except Fault (List HousekeepingCreateObjectRaw × ℤ) :=
  pushRules createObjectRule (if totalRules = -1 then 2147483647 else totalRules) (readRules lines) hskRules 0

theorem pushRules_eq (totalRules : ℤ) (stagedRules : List (List String)) (hskRules : List α) (rulesPassed : ℤ) :
    pushRules rule totalRules stagedRules hskRules rulesPassed =
      (getRules rule totalRules stagedRules rulesPassed).map fun xs =>
        (hskRules ++ xs, rulesPassed + xs.length) := by
  induction stagedRules generalizing hskRules rulesPassed with
  | nil => simp [pushRules, getRules, Except.map]
  | cons stagedRule rest ih =>
    unfold pushRules getRules
    cases hr : rule stagedRule with
    | error e => rfl
    | ok r =>
      cases r with
      | none => exact ih hskRules rulesPassed
      | some x =>
        simp only [Fault.ok_bind]
        by_cases hlast : rulesPassed + 1 = totalRules
        · simp [hlast, pure, Except.pure, Except.map]
        · rw [if_neg hlast, if_neg hlast, ih]
          cases getRules rule totalRules rest (rulesPassed + 1) with
          | error e => rfl
          | ok xs =>
            simp only [Except.map, Fault.ok_bind, List.append_assoc, List.singleton_append]
            rw [add_assoc, add_comm (1 : ℤ)]
            rfl

def reached (complete : List String → Bool) : ℕ → List (List String) → List (List String)
  | _, [] => []
  | n, stagedRule :: rest =>
    if complete stagedRule then
      if n = 1 then [stagedRule] else stagedRule :: reached complete (n - 1) rest
    else stagedRule :: reached complete n rest

variable {complete halting : List String → Bool} {stagedRules : List (List String)} {totalRules : ℤ}

theorem filter_reached (n : ℕ) : (reached complete n stagedRules).filter complete =
    if n = 0 then stagedRules.filter complete else (stagedRules.filter complete).take n := by
  induction stagedRules generalizing n with
  | nil => simp [reached]
  | cons stagedRule rest ih =>
    unfold reached
    by_cases hc : complete stagedRule = true
    · rw [if_pos hc, List.filter_cons_of_pos hc]
      by_cases hone : n = 1
      · simp [hone, hc]
      · rw [if_neg hone, List.filter_cons_of_pos hc, ih]
        by_cases hzero : n = 0
        · simp [hzero]
        · obtain ⟨k, rfl⟩ : ∃ k, n = k + 2 := ⟨n - 2, by omega⟩
          simp
    · rw [if_neg hc, List.filter_cons_of_neg hc, List.filter_cons_of_neg hc, ih]

structure Reads (rule : List String → Except Fault (Option α)) (complete halting : List String → Bool)
    (stagedRule : List String) : Prop where
  taken : complete stagedRule = true → ∃ x, rule stagedRule = .ok (some x)
  halts : halting stagedRule = true → ∃ e, rule stagedRule = .error e
  passed : complete stagedRule = false → halting stagedRule = false → rule stagedRule = .ok none

theorem getRules_reached (hreads : ∀ stagedRule ∈ stagedRules, Reads rule complete halting stagedRule)
    (totalRules rulesPassed : ℤ) :
    if ∀ stagedRule ∈ reached complete (totalRules - rulesPassed).toNat stagedRules,
      halting stagedRule = false then
      ∃ xs, getRules rule totalRules stagedRules rulesPassed = .ok xs ∧
        ((reached complete (totalRules - rulesPassed).toNat stagedRules).filter complete).map rule =
          xs.map fun x => .ok (some x)
    else ∃ e, getRules rule totalRules stagedRules rulesPassed = .error e := by
  induction stagedRules generalizing rulesPassed with
  | nil => simp [reached, getRules]
  | cons stagedRule rest ih =>
    have hline := hreads stagedRule List.mem_cons_self
    have hrest := fun l hl => hreads l (List.mem_cons_of_mem _ hl)
    by_cases hc : complete stagedRule = true
    · obtain ⟨x, hx⟩ := hline.taken hc
      have hgoes : halting stagedRule = false := by
        by_contra hh
        obtain ⟨e, he⟩ := hline.halts (by simpa using hh)
        rw [hx] at he
        cases he
      by_cases hlast : rulesPassed + 1 = totalRules
      · have hone : (totalRules - rulesPassed).toNat = 1 := by omega
        simp only [reached, getRules, hx, hc, hone, hlast, if_true, Fault.ok_bind, List.forall_mem_cons, hgoes,
          List.not_mem_nil, false_implies, implies_true, and_self, List.filter_cons_of_pos, List.filter_nil]
        exact ⟨[x], rfl, by rw [List.map_singleton, List.map_singleton, hx]⟩
      · have hmore : (totalRules - rulesPassed).toNat ≠ 1 := by omega
        have hnext : (totalRules - rulesPassed).toNat - 1 = (totalRules - (rulesPassed + 1)).toNat := by omega
        have hih := ih hrest (rulesPassed + 1)
        simp only [reached, getRules, hx, hc, hmore, hlast, hnext, if_true, if_false, Fault.ok_bind,
          List.forall_mem_cons, hgoes, true_and, List.filter_cons_of_pos, List.map_cons]
        split at hih
        case isTrue hfree =>
          obtain ⟨xs, hxs, hmap⟩ := hih
          rw [if_pos hfree, hxs]
          exact ⟨x :: xs, rfl, by rw [hmap]; rfl⟩
        case isFalse hhalts =>
          obtain ⟨e, he⟩ := hih
          rw [if_neg hhalts, he]
          exact ⟨e, rfl⟩
    · have hc' : complete stagedRule = false := by simpa using hc
      by_cases hh : halting stagedRule = true
      · obtain ⟨e, he⟩ := hline.halts hh
        simp [reached, getRules, he, hc', hh]
      · have hskip := hline.passed hc' (by simpa using hh)
        have hih := ih hrest rulesPassed
        simp only [reached, getRules, hskip, hc', Fault.ok_bind, List.forall_mem_cons,
          Bool.false_eq_true, if_false,
          (by simpa using hh : halting stagedRule = false), true_and, not_false_eq_true,
          List.filter_cons_of_neg]
        exact hih

def wanted (complete : List String → Bool) (totalRules : ℤ) (stagedRules : List (List String)) :
    List (List String) :=
  if totalRules = -1 then stagedRules.filter complete else (stagedRules.filter complete).take totalRules.toNat

def Converts (rule : List String → Except Fault (Option α)) (complete : List String → Bool) (totalRules : ℤ)
    (stagedRules : List (List String)) (hskRules : List α) (call : Except Fault (List α × ℤ)) : Prop :=
  ∃ xs, call = .ok (hskRules ++ xs, xs.length) ∧
    (wanted complete totalRules stagedRules).map rule = xs.map fun x => .ok (some x)

def Readable (complete halting : List String → Bool) (totalRules : ℤ)
    (stagedRules : List (List String)) : Prop :=
  (∀ stagedRule ∈ reached complete (if totalRules = -1 then 2147483647 else totalRules.toNat) stagedRules,
    halting stagedRule = false) ∧
  (totalRules = 0 → ∀ stagedRule ∈ stagedRules, complete stagedRule = false) ∧
  (totalRules = -1 → (stagedRules.filter complete).length ≤ 2147483647)

instance : Decidable (Readable complete halting totalRules stagedRules) :=
  inferInstanceAs (Decidable (_ ∧ _ ∧ _))

theorem pushRules_converts_iff (hreads : ∀ stagedRule ∈ stagedRules, Reads rule complete halting stagedRule)
    (htotal : -1 ≤ totalRules) (hskRules : List α) :
    Converts rule complete totalRules stagedRules hskRules
        (pushRules rule (if totalRules = -1 then 2147483647 else totalRules) stagedRules hskRules 0) ↔
      Readable complete halting totalRules stagedRules := by
  unfold Converts Readable
  have hloop := getRules_reached hreads (if totalRules = -1 then 2147483647 else totalRules) 0
  have hlimit : ((if totalRules = -1 then 2147483647 else totalRules) - 0).toNat =
      if totalRules = -1 then 2147483647 else totalRules.toNat := by
    split <;> simp
  rw [hlimit, filter_reached] at hloop
  simp only [pushRules_eq]
  by_cases hfree : ∀ stagedRule ∈ reached complete (if totalRules = -1 then 2147483647 else totalRules.toNat)
      stagedRules, halting stagedRule = false
  · rw [if_pos hfree] at hloop
    obtain ⟨ys, hys, hmap⟩ := hloop
    have hlength := congrArg List.length hmap
    rw [List.length_map, List.length_map] at hlength
    rw [hys]
    constructor
    · rintro ⟨xs, h, hwanted⟩
      obtain ⟨hxs, -⟩ := Prod.mk.inj (Except.ok.inj h)
      have hsame := congrArg List.length hwanted
      rw [List.length_map, List.length_map, ← List.append_cancel_left hxs, ← hlength] at hsame
      refine ⟨hfree, ?_, ?_⟩
      · rintro rfl stagedRule hline
        have hnone : stagedRules.filter complete = [] := List.length_eq_zero_iff.mp hsame.symm
        simpa using List.filter_eq_nil_iff.mp hnone stagedRule hline
      · rintro rfl
        simpa [wanted] using hsame
    · rintro ⟨_, hzero, hall⟩
      refine ⟨ys, by simp [Except.map], ?_⟩
      rw [← hmap, wanted]
      congr 1
      by_cases hone : totalRules = -1
      · simp only [hone, if_true]
        exact (List.take_of_length_le (hall hone)).symm
      · simp only [hone, if_false]
        by_cases hnone : totalRules = 0
        · have hempty : stagedRules.filter complete = [] := by
            rw [List.filter_eq_nil_iff]
            intro stagedRule hline
            simp [hzero hnone stagedRule hline]
          simp [hempty]
        · rw [if_neg (by omega)]
  · rw [if_neg hfree] at hloop
    obtain ⟨e, he⟩ := hloop
    rw [he]
    constructor
    · rintro ⟨xs, h, _⟩
      cases h
    · exact fun h => absurd h.1 hfree

end Loop

section Lines

def complete (operation : HousekeepingOperation) (elements : ℕ) (stagedRule : List String) : Bool :=
  elements ≤ stagedRule.length ∧ convertHousekeepingOperation (stagedRule.getD 1 "") = operation

def halting (operation : HousekeepingOperation) (minElements elements : ℕ) (stagedRule : List String) : Bool :=
  stagedRule.length < 2 ∨ (minElements ≤ stagedRule.length ∧ stagedRule.length < elements ∧
    convertHousekeepingOperation (stagedRule.getD 1 "") = operation)

def Numeric (fields : List ℕ) (stagedRule : List String) : Prop :=
  ∀ i ∈ fields, (number 64 (stagedRule.getD i "")).isOk = true

instance (fields : List ℕ) (stagedRule : List String) : Decidable (Numeric fields stagedRule) :=
  inferInstanceAs (Decidable (∀ i ∈ fields, _))

theorem Numeric.field {fields : List ℕ} {stagedRule : List String} (h : Numeric fields stagedRule) {i : ℕ}
    (hi : i ∈ fields) : ∃ v, number 64 (stagedRule.getD i "") = .ok v := by
  have hok := h i hi
  cases hv : number 64 (stagedRule.getD i "") with
  | error e =>
    rw [hv] at hok
    cases hok
  | ok v => exact ⟨v, rfl⟩

theorem token_of_lt {stagedRule : List String} {i : ℕ} (h : i < stagedRule.length) :
    token stagedRule i = .ok (stagedRule.getD i "") := by
  rw [token_eq_ok, List.getD_eq_getElem?_getD, List.getElem?_eq_getElem h, Option.getD_some]

theorem token_of_le {stagedRule : List String} {i : ℕ} (h : stagedRule.length ≤ i) :
    token stagedRule i = .error .missingToken := by
  rw [token, List.getElem?_eq_none h]

theorem createChannelRule_reads {stagedRule : List String}
    (hnumeric : complete .createChannel 7 stagedRule = true → Numeric [0, 2, 4] stagedRule) :
    Reads createChannelRule (complete .createChannel 7) (halting .createChannel 7 7) stagedRule := by
  constructor
  · intro h
    have hn := hnumeric h
    simp only [complete, decide_eq_true_eq] at h
    obtain ⟨hlength, hop⟩ := h
    obtain ⟨ruleId, h0⟩ := hn.field (by simp : 0 ∈ _)
    obtain ⟨channelId, h2⟩ := hn.field (by simp : 2 ∈ _)
    obtain ⟨workflowId, h4⟩ := hn.field (by simp : 4 ∈ _)
    have htoken : ∀ i < 7, token stagedRule i = .ok (stagedRule.getD i "") := fun i hi => token_of_lt (by omega)
    simp only [createChannelRule, htoken 0 (by decide), htoken 1 (by decide), htoken 2 (by decide),
      htoken 3 (by decide), htoken 4 (by decide), htoken 5 (by decide), htoken 6 (by decide),
      Fault.ok_bind, hop,
      stoll, stol, h0, h2, h4, ne_eq, not_true_eq_false, false_or, if_neg (by omega : ¬ stagedRule.length < 7)]
    exact ⟨_, rfl⟩
  · intro h
    simp only [halting, decide_eq_true_eq] at h
    have hshort : token stagedRule 1 = .error .missingToken := token_of_le (by omega)
    exact ⟨.missingToken, by rw [createChannelRule, hshort, Fault.error_bind]⟩
  · intro hc hh
    simp only [complete, decide_eq_false_iff_not] at hc
    simp only [halting, decide_eq_false_iff_not] at hh
    rw [createChannelRule, token_of_lt (by omega), Fault.ok_bind]
    refine if_pos ?_
    by_cases hop : convertHousekeepingOperation (stagedRule.getD 1 "") = .createChannel
    · right
      simp only [hop, and_true] at hc
      omega
    · exact .inl hop

theorem createObjectRule_reads {stagedRule : List String}
    (hnumeric : complete .createObject 10 stagedRule = true → Numeric [0, 2, 3, 8, 9] stagedRule) :
    Reads createObjectRule (complete .createObject 10) (halting .createObject 8 10) stagedRule := by
  constructor
  · intro h
    have hn := hnumeric h
    simp only [complete, decide_eq_true_eq] at h
    obtain ⟨hlength, hop⟩ := h
    obtain ⟨ruleId, h0⟩ := hn.field (by simp : 0 ∈ _)
    obtain ⟨channelId, h2⟩ := hn.field (by simp : 2 ∈ _)
    obtain ⟨objectId, h3⟩ := hn.field (by simp : 3 ∈ _)
    obtain ⟨first, h8⟩ := hn.field (by simp : 8 ∈ _)
    obtain ⟨second, h9⟩ := hn.field (by simp : 9 ∈ _)
    have htoken : ∀ i < 10, token stagedRule i = .ok (stagedRule.getD i "") := fun i hi =>
      token_of_lt (by omega)
    simp only [createObjectRule, htoken 0 (by decide), htoken 1 (by decide), htoken 2 (by decide),
      htoken 3 (by decide), htoken 4 (by decide), htoken 5 (by decide), htoken 6 (by decide),
      htoken 7 (by decide),
      htoken 8 (by decide), htoken 9 (by decide), Fault.ok_bind, hop, stoll, stol, h0, h2, h3, h8, h9, ne_eq,
      not_true_eq_false, false_or, if_neg (by omega : ¬ stagedRule.length < 8)]
    exact ⟨_, rfl⟩
  · intro h
    simp only [halting, decide_eq_true_eq] at h
    cases hr : createObjectRule stagedRule with
    | error e => exact ⟨e, rfl⟩
    | ok r =>
      rcases h with hshort | ⟨hmin, hlong, hop⟩
      · rw [createObjectRule, token_of_le (by omega), Fault.error_bind] at hr
        cases hr
      · have hlast : token stagedRule 9 = .error .missingToken := token_of_le (by omega)
        rw [createObjectRule, token_of_lt (by omega), Fault.ok_bind] at hr
        rw [hop] at hr
        simp only [ne_eq, not_true_eq_false, false_or, if_neg (by omega : ¬ stagedRule.length < 8), hlast,
          Fault.error_bind, Fault.bind_eq_ok] at hr
        simp at hr
  · intro hc hh
    simp only [complete, decide_eq_false_iff_not] at hc
    simp only [halting, decide_eq_false_iff_not] at hh
    rw [createObjectRule, token_of_lt (by omega), Fault.ok_bind]
    refine if_pos ?_
    by_cases hop : convertHousekeepingOperation (stagedRule.getD 1 "") = .createObject
    · right
      simp only [hop, and_true] at hc hh
      omega
    · exact .inl hop

theorem rules_converted_iff {lines : List String} {totalRules : ℤ} (htotal : totalRules = -1 ∨ 0 ≤ totalRules)
    (hchannels : ∀ stagedRule ∈ readRules lines,
      complete .createChannel 7 stagedRule = true → Numeric [0, 2, 4] stagedRule)
    (hobjects : ∀ stagedRule ∈ readRules lines,
      complete .createObject 10 stagedRule = true → Numeric [0, 2, 3, 8, 9] stagedRule)
    (channels : List HousekeepingCreateChannelRaw) (objects : List HousekeepingCreateObjectRaw) :
    (Converts createChannelRule (complete .createChannel 7) totalRules (readRules lines) channels
        (pushCreateChannelRules totalRules lines channels) ↔
      Readable (complete .createChannel 7) (halting .createChannel 7 7) totalRules (readRules lines)) ∧
    (Converts createObjectRule (complete .createObject 10) totalRules (readRules lines) objects
        (pushCreateObjectRules totalRules lines objects) ↔
      Readable (complete .createObject 10) (halting .createObject 8 10) totalRules (readRules lines)) := by
  constructor
  · apply pushRules_converts_iff _ (by omega)
    intro stagedRule hline
    exact createChannelRule_reads (hchannels stagedRule hline)
  · apply pushRules_converts_iff _ (by omega)
    intro stagedRule hline
    exact createObjectRule_reads (hobjects stagedRule hline)

def ruleLines : List String :=
  ["1 create_channel 1000 posix 1000 read no_op", "2  create_channel 1001",
    "3 create_object 1000 1 posix read no_op drl 100 10",
   "4 create_channel 1002 kvs 7 put no_op"]

theorem rules_converted_two_kinds :
    Converts createChannelRule (complete .createChannel 7) (-1) (readRules ruleLines) []
        (pushCreateChannelRules (-1) ruleLines []) ∧
      Converts createObjectRule (complete .createObject 10) 1 (readRules ruleLines) []
        (pushCreateObjectRules 1 ruleLines []) := by
  have hchannels : ∀ stagedRule ∈ readRules ruleLines,
      complete .createChannel 7 stagedRule = true → Numeric [0, 2, 4] stagedRule := by decide +kernel
  have hobjects : ∀ stagedRule ∈ readRules ruleLines,
      complete .createObject 10 stagedRule = true → Numeric [0, 2, 3, 8, 9] stagedRule := by decide +kernel
  exact ⟨(rules_converted_iff (.inl rfl) hchannels hobjects [] []).1.mpr (by decide +kernel),
    (rules_converted_iff (.inr zero_le_one) hchannels hobjects [] []).2.mpr (by decide +kernel)⟩

theorem rules_not_converted :
    ¬ Converts createChannelRule (complete .createChannel 7) (-1) (readRules [""]) []
        (pushCreateChannelRules (-1) [""] []) ∧
      ¬ Converts createObjectRule (complete .createObject 10) (-1)
        (readRules ["1 create_object 1000 1 posix read no_op drl"]) []
        (pushCreateObjectRules (-1) ["1 create_object 1000 1 posix read no_op drl"] []) ∧
      ¬ Converts createChannelRule (complete .createChannel 7) 0 (readRules ruleLines) []
        (pushCreateChannelRules 0 ruleLines []) := by
  refine ⟨?_, ?_, ?_⟩
  · rintro ⟨xs, h, -⟩
    have hfault : pushCreateChannelRules (-1) [""] [] = .error .missingToken := by decide +kernel
    rw [hfault] at h
    cases h
  · rintro ⟨xs, h, -⟩
    have hfault : pushCreateObjectRules (-1) ["1 create_object 1000 1 posix read no_op drl"] [] =
        .error .missingToken := by decide +kernel
    rw [hfault] at h
    cases h
  · rintro ⟨xs, h, hwanted⟩
    have hnone : xs = [] := by simpa [wanted] using hwanted
    have htwo : (pushCreateChannelRules 0 ruleLines []).toOption.any (fun s => s.2 = 2) = true := by
      decide +kernel
    rw [h, hnone] at htwo
    cases htwo

end Lines

end Cheferd.RulesFileParser
