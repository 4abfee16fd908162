import Cheferd.Library.MaximalRuns
import Cheferd.Library.WhileLoop
import Cheferd.Strings

namespace Cheferd.Tokenizer

open Library

variable {α : Type} [DecidableEq α]

def npos : ℕ := 2 ^ 64 - 1

/-- A `std::string`; its size is a `size_t` other than `npos`. -/
structure StdString (α : Type) where
  chars : List α
  size_lt : chars.length < npos

inductive OutOfRange | substr
deriving DecidableEq

namespace StdString

def findFirstNotOf (c : α) (s : StdString α) (pos : ℕ) : ℕ := (Tokens.findFirstNotOf c s.chars pos).getD npos

def find (c : α) (s : StdString α) (pos : ℕ) : ℕ := (Tokens.find c s.chars pos).getD npos

def substr (s : StdString α) (pos count : ℕ) : Except OutOfRange (List α) :=
  if pos ≤ s.chars.length then .ok ((s.chars.drop pos).take count) else .error .substr

end StdString

structure Cursor (α : Type) where
  stop : ℕ
  tokens : List (List α)

def turn (c : α) (rule : StdString α) (s : Cursor α) : Except OutOfRange (Option (Cursor α)) := do
  let start := rule.findFirstNotOf c s.stop
  if start = npos then return none
  let stop := rule.find c start
  -- the difference of two `size_t`
  let token ← rule.substr start ((2 ^ 64 + stop - start) % 2 ^ 64)
  return some ⟨stop, s.tokens ++ [token]⟩

def tokenize (fuel : ℕ) (c : α) (rule : StdString α) (tokens : List (List α)) :
    Option (Except OutOfRange (List (List α))) :=
  (WhileLoop.run (turn c rule) fuel ⟨0, tokens⟩).map fun result => result.map Cursor.tokens

variable {c : α} {rule : StdString α} {s : Cursor α}

theorem findFirstNotOf_eq (c : α) (rule : StdString α) (stop : ℕ) :
    rule.findFirstNotOf c stop = npos ∧ Tokens.findFirstNotOf c rule.chars stop = none ∨
      Tokens.findFirstNotOf c rule.chars stop = some (rule.findFirstNotOf c stop) ∧
        stop ≤ rule.findFirstNotOf c stop ∧ rule.findFirstNotOf c stop < rule.chars.length := by
  unfold StdString.findFirstNotOf
  cases h : Tokens.findFirstNotOf c rule.chars stop with
  | none => exact .inl ⟨rfl, rfl⟩
  | some start =>
    obtain ⟨-, hle, hlt⟩ := Tokens.findFirstNotOf_some h
    exact .inr ⟨rfl, hle, hlt⟩

theorem turn_token {start stop : ℕ} (hstart : rule.findFirstNotOf c s.stop = start)
    (hlt : start < rule.chars.length) (hstop : rule.find c start = stop) (hle : start ≤ stop)
    (hmax : stop ≤ npos) :
    turn c rule s =
      .ok (some ⟨stop, s.tokens ++ [(rule.chars.drop start).take (stop - start)]⟩) := by
  have hne : start ≠ npos := (hlt.trans rule.size_lt).ne
  have hcount : (2 ^ 64 + stop - start) % 2 ^ 64 = stop - start := by
    simp only [npos] at hmax
    omega
  have hsubstr : rule.substr start (stop - start) = .ok ((rule.chars.drop start).take (stop - start)) :=
    if_pos hlt.le
  simp only [turn, hstart, if_neg hne, hstop, hcount, hsubstr]
  rfl

theorem turn_spec (c : α) (rule : StdString α) (s : Cursor α) :
    turn c rule s = .ok none ∧ Tokens.tokens c (rule.chars.drop s.stop) = [] ∨
      ∃ t, turn c rule s = .ok (some t) ∧
        t.tokens ++ Tokens.tokens c (rule.chars.drop t.stop) =
          s.tokens ++ Tokens.tokens c (rule.chars.drop s.stop) ∧
        rule.chars.length - t.stop < rule.chars.length - s.stop := by
  have hsize := rule.size_lt
  rcases findFirstNotOf_eq c rule s.stop with ⟨hstart, hnone⟩ | ⟨hsome, hle, hlt⟩
  · refine .inl ⟨?_, Tokens.findFirstNotOf_none hnone⟩
    simp only [turn, hstart, if_true]
    rfl
  · right
    cases hfind : Tokens.find c rule.chars (rule.findFirstNotOf c s.stop) with
    | none =>
      -- the last token is open-ended: the cursor becomes `npos`
      have hstop : rule.find c (rule.findFirstNotOf c s.stop) = npos := by rw [StdString.find, hfind]; rfl
      refine ⟨_, turn_token rfl hlt hstop (hlt.trans hsize).le le_rfl, ?_, by dsimp only; omega⟩
      have hrest : rule.chars.drop npos = [] := List.drop_eq_nil_of_le hsize.le
      rw [hrest, Tokens.tokens_nil, List.append_nil, Tokens.tokens_last hsome hfind, List.take_of_length_le]
      rw [List.length_drop]
      omega
    | some stop =>
      obtain ⟨hnext, hafter⟩ := Tokens.tokens_next hsome hfind
      have hbound : stop < rule.chars.length := by
        obtain ⟨t, -, rfl, happ⟩ := Tokens.find_some hfind
        have hlength := congrArg List.length happ
        simp only [List.length_drop, List.length_append, List.length_cons] at hlength
        omega
      have hstop : rule.find c (rule.findFirstNotOf c s.stop) = stop := by rw [StdString.find, hfind]; rfl
      refine ⟨_, turn_token rfl hlt hstop hafter.le (hbound.trans hsize).le, ?_, by dsimp only; omega⟩
      rw [hnext, List.append_assoc, List.singleton_append]

theorem tokenize_eq {fuel : ℕ} (hfuel : rule.chars.length < fuel) (tokens : List (List α)) :
    tokenize fuel c rule tokens = some (.ok (tokens ++ Tokens.tokens c rule.chars)) := by
  let Unread (s : Cursor α) : Prop :=
    s.tokens ++ Tokens.tokens c (rule.chars.drop s.stop) = tokens ++ Tokens.tokens c rule.chars
  have hturns : ∀ s, Unread s → turn c rule s = .ok none ∨
      ∃ t, turn c rule s = .ok (some t) ∧ Unread t ∧
        rule.chars.length - t.stop < rule.chars.length - s.stop := by
    intro s hs
    rcases turn_spec c rule s with ⟨hnone, -⟩ | ⟨t, hturn, hunread, hvariant⟩
    · exact .inl hnone
    · exact .inr ⟨t, hturn, hunread.trans hs, hvariant⟩
  have hstart : Unread ⟨0, tokens⟩ := rfl
  obtain ⟨s, hrun, hs, hleave⟩ := WhileLoop.run_total hturns hstart hfuel
  rcases turn_spec c rule s with ⟨-, hnone⟩ | ⟨t, hturn, -⟩
  · have htokens : s.tokens = tokens ++ Tokens.tokens c rule.chars := by
      simpa only [Unread, hnone, List.append_nil] using hs
    rw [tokenize, hrun, ← htokens]
    rfl
  · rw [hleave] at hturn
    cases hturn

theorem tokenize_strings {rule : StdString Char} {fuel : ℕ} (hfuel : rule.chars.length < fuel) (c : Char) :
    tokenize fuel c rule [] =
      some (.ok ((Strings.parseRule c (String.ofList rule.chars)).map String.toList)) := by
  rw [tokenize_eq hfuel, Strings.parseRule, Tokens.parse_eq, String.toList_ofList, List.nil_append,
    List.map_map]
  simp [Function.comp_def]

def CoreControlApplication.parseRuleWithBreak (fuel : ℕ) (rule : StdString Char) (tokens : List (List Char)) :
    Option (Except OutOfRange (List (List Char))) :=
  tokenize fuel '|' rule tokens

def LocalControlApplication.parseRule (fuel : ℕ) (rule : StdString Char) (tokens : List (List Char))
    (c : Char) :
    Option (Except OutOfRange (List (List Char))) :=
  tokenize fuel c rule tokens

def LocalInterface.parseRule (fuel : ℕ) (rule : StdString Char) (tokens : List (List Char)) (c : Char) :
    Option (Except OutOfRange (List (List Char))) :=
  tokenize fuel c rule tokens

def PaioInterface.parseRule (fuel : ℕ) (rule : StdString Char) (tokens : List (List Char)) :
    Option (Except OutOfRange (List (List Char))) :=
  tokenize fuel '|' rule tokens

structure Exact (c : Char)
    (parse : ℕ → StdString Char → List (List Char) → Option (Except OutOfRange (List (List Char)))) : Prop where
  runs : ∀ rule, ∃ runs, Tokens.Runs c rule.chars runs ∧ ∀ tokens fuel, rule.chars.length < fuel →
    parse fuel rule tokens = some (.ok (tokens ++ runs.map (Tokens.text rule.chars)))
  joined : ∀ (rule : StdString Char) leading parts, rule.chars = Tokens.joined c leading parts →
    (∀ part ∈ parts, c ∉ part.1 ∧ part.1 ≠ []) → (∀ part ∈ parts.dropLast, 0 < part.2) →
    ∀ tokens fuel, rule.chars.length < fuel → parse fuel rule tokens = some (.ok (tokens ++ parts.map Prod.fst))
  strings : ∀ (rule : StdString Char) fuel, rule.chars.length < fuel → parse fuel rule [] =
    some (.ok ((Strings.parseRule c (String.ofList rule.chars)).map String.toList))

theorem exact_tokenize (c : Char) : Exact c fun fuel rule tokens => tokenize fuel c rule tokens := by
  constructor
  · intro rule
    obtain ⟨runs, hruns, htexts⟩ := Tokens.exists_runs c rule.chars
    refine ⟨runs, hruns, fun tokens fuel hfuel => ?_⟩
    rw [tokenize_eq hfuel, htexts]
  · intro rule leading parts hrule hparts hgaps tokens fuel hfuel
    rw [tokenize_eq hfuel, hrule, Tokens.tokens_joined hparts hgaps]
  · exact fun rule fuel hfuel => tokenize_strings hfuel c

theorem rules_tokenized :
    Exact '|' CoreControlApplication.parseRuleWithBreak ∧
    (∀ c, Exact c fun fuel rule tokens => LocalControlApplication.parseRule fuel rule tokens c) ∧
    (∀ c, Exact c fun fuel rule tokens => LocalInterface.parseRule fuel rule tokens c) ∧
    Exact '|' PaioInterface.parseRule :=
  ⟨exact_tokenize '|', exact_tokenize, exact_tokenize, exact_tokenize '|'⟩

example : tokenize 10 '|' ⟨"|12||ab|c".toList, by decide⟩ [] =
    some (.ok ["12".toList, "ab".toList, "c".toList]) := by decide

end Cheferd.Tokenizer
