import Cheferd.Library.Decimal
import Cheferd.Library.Tokens

namespace Cheferd

inductive Container
  | localSessions | stageInfoDetailed | jobLocationTracker | localAddressToEnvs | localToStages | dStats
deriving DecidableEq, Repr

/-- What ends a run of the source: an uncaught exception or an access it does not check. -/
inductive Fault
  | outOfRange (container : Container)
  | nullPointer
  | missingToken
  | invalidArgument
  | divisionByZero
  /-- No exception: the call does not return. -/
  | blocked
deriving DecidableEq, Repr

namespace Fault

theorem bind_eq_ok {α β : Type} {x : Except Fault α} {f : α → Except Fault β} {b : β} :
    x >>= f = .ok b ↔ ∃ a, x = .ok a ∧ f a = .ok b := by
  cases x with
  | error e => simp [bind, Except.bind]
  | ok a => simp [bind, Except.bind]

theorem exists_of_any {α : Type} {x : Except Fault α} {P : α → Prop} [DecidablePred P]
    (h : x.toOption.any (fun a => decide (P a)) = true) : ∃ a, x = .ok a ∧ P a := by
  cases x with
  | error e => cases h
  | ok a => exact ⟨a, rfl, of_decide_eq_true h⟩

theorem bind_eq_error {α β : Type} {x : Except Fault α} {f : α → Except Fault β} {e : Fault} :
    x >>= f = .error e ↔ x = .error e ∨ ∃ a, x = .ok a ∧ f a = .error e := by
  cases x with
  | error e' => simp [bind, Except.bind]
  | ok a => simp [bind, Except.bind]

@[simp] theorem ok_bind {α β : Type} (a : α) (f : α → Except Fault β) : Except.ok a >>= f = f a := rfl

@[simp] theorem error_bind {α β : Type} (e : Fault) (f : α → Except Fault β) :
    Except.error e >>= f = .error e := rfl

end Fault

namespace Strings

open Library

def parseRule (c : Char) (rule : String) : List String :=
  (Tokens.parse c rule.toList).map String.ofList

def token (tokens : List String) (i : ℕ) : Except Fault String :=
  match tokens[i]? with
  | some t => .ok t
  | none => .error .missingToken

def number (bits : ℕ) (s : String) : Except Fault ℤ :=
  match Decimal.signed bits s with
  | some v => .ok v
  | none => .error .invalidArgument

def stoi (s : String) : Except Fault ℤ := number 32 s

def stol (s : String) : Except Fault ℤ := number 64 s

def stoll (s : String) : Except Fault ℤ := number 64 s

theorem token_eq_ok {tokens : List String} {i : ℕ} {t : String} :
    token tokens i = .ok t ↔ tokens[i]? = some t := by
  unfold token
  cases tokens[i]? <;> simp

theorem token_eq_error {tokens : List String} {i : ℕ} {e : Fault} (h : token tokens i = .error e) :
    e = .missingToken := by
  unfold token at h
  split at h <;> cases h
  rfl

theorem parseRule_ne_empty {c : Char} {rule t : String} (h : t ∈ parseRule c rule) : t ≠ "" := by
  rw [parseRule, Tokens.parse_eq] at h
  obtain ⟨s, hs, rfl⟩ := List.mem_map.mp h
  have hne : s ≠ [] := by simpa using (List.mem_filter.mp hs).2
  simpa [← String.toList_inj] using hne

theorem number_eq_ok {bits : ℕ} {s : String} {v : ℤ} :
    number bits s = .ok v ↔ Decimal.signed bits s = some v := by
  unfold number
  cases Decimal.signed bits s <;> simp

theorem number_eq_error {bits : ℕ} {s : String} {e : Fault} (h : number bits s = .error e) :
    e = .invalidArgument := by
  unfold number at h
  split at h <;> cases h
  rfl

theorem token_getD {tokens : List String} {i : ℕ} {t : String} (h : token tokens i = .ok t) :
    tokens.getD i "" = t := by
  rw [List.getD_eq_getElem?_getD, token_eq_ok.mp h, Option.getD_some]

theorem parseRule_nil (c : Char) : parseRule c "" = [] := by
  simp [parseRule, Tokens.parse_eq, Tokens.tokens_nil]

theorem parseRule_append (c : Char) (sep s rest : String) (hsep : sep.toList = [c]) :
    parseRule c (s ++ (sep ++ rest)) = parseRule c s ++ parseRule c rest := by
  simp only [parseRule, Tokens.parse_eq, String.toList_append, hsep, List.singleton_append,
    Tokens.tokens_append, List.map_append]

theorem parseRule_single (c : Char) (t : String) (hc : c ∉ t.toList) (ht : t ≠ "") :
    parseRule c t = [t] := by
  have hne : t.toList ≠ [] := by simpa [String.toList_eq_nil_iff] using ht
  rw [parseRule, Tokens.parse_eq, Tokens.tokens_single c _ hc hne]
  simp [String.ofList_toList]

def terminated (sep : String) (ts : List String) : String := ts.foldr (fun t rest => t ++ (sep ++ rest)) ""

theorem parseRule_terminated (c : Char) (sep : String) (hsep : sep.toList = [c]) (ts : List String)
    (hc : ∀ t ∈ ts, c ∉ t.toList) : parseRule c (terminated sep ts) = ts.filter (· ≠ "") := by
  induction ts with
  | nil => exact parseRule_nil c
  | cons t ts ih =>
    have hrest := ih fun u hu => hc u (List.mem_cons_of_mem t hu)
    simp only [terminated, List.foldr_cons] at hrest ⊢
    rw [parseRule_append c sep t _ hsep, hrest]
    by_cases ht : t = ""
    · simp [ht, parseRule_nil]
    · simp [ht, parseRule_single c t (hc t List.mem_cons_self) ht]

theorem notMem_terminated (c : Char) (sep : String) (hsep : c ∉ sep.toList) {ts : List String}
    (h : ∀ t ∈ ts, c ∉ t.toList) : c ∉ (terminated sep ts).toList := by
  induction ts with
  | nil => simp [terminated]
  | cons t ts ih =>
    obtain ⟨ht, hts⟩ := List.forall_mem_cons.mp h
    simp only [terminated, List.foldr_cons, String.toList_append, List.mem_append, not_or] at ih ⊢
    exact ⟨ht, hsep, ih hts⟩

def Plain (c : Char) (t : String) : Prop := c ∉ t.toList ∧ t ≠ ""

instance (c : Char) (t : String) : Decidable (Plain c t) := inferInstanceAs (Decidable (_ ∧ _))

theorem parseRule_plain (c : Char) (sep : String) (hsep : sep.toList = [c]) (ts : List String)
    (h : ∀ t ∈ ts, Plain c t) : parseRule c (terminated sep ts) = ts := by
  rw [parseRule_terminated c sep hsep ts fun t ht => (h t ht).1, List.filter_eq_self]
  exact fun t ht => by simpa using (h t ht).2

theorem toString_ne_empty (v : ℤ) : toString v ≠ "" := by
  intro h
  exact Decimal.toString_ne_nil v (by rw [h]; rfl)

theorem plain_toString (c : Char) (v : ℤ) (hd : c.isDigit = false) (hm : c ≠ '-') :
    Plain c (toString v) :=
  ⟨Decimal.notMem_toString v c hd hm, toString_ne_empty v⟩

theorem number_toString (bits : ℕ) (v : ℤ) (h : Decimal.InRange bits v) :
    number bits (toString v) = .ok v := by
  simp only [number, Decimal.signed_toString bits v h]

theorem number_inRange {bits : ℕ} {s : String} {v : ℤ} (h : number bits s = .ok v) :
    Decimal.InRange bits v := by
  unfold number at h
  split at h
  case h_1 w hw => cases h; exact Decimal.signed_inRange hw
  case h_2 => cases h

theorem number_toString_eq_ok {bits : ℕ} {v w : ℤ} :
    number bits (toString v) = .ok w ↔ Decimal.InRange bits v ∧ w = v := by
  constructor
  · intro h
    have hrange := number_inRange h
    unfold number at h
    split at h
    case h_1 x hx =>
      cases h
      have hinteger := (Option.filter_eq_some_iff.mp hx).1
      rw [Decimal.integer_toString] at hinteger
      cases hinteger
      exact ⟨hrange, rfl⟩
    case h_2 => cases h
  · rintro ⟨hrange, rfl⟩
    exact number_toString bits w hrange

end Strings

end Cheferd
