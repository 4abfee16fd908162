import Mathlib.Data.List.TakeWhile

namespace Cheferd.Library.Tokens

variable {α : Type} [DecidableEq α]

def tokens (c : α) (s : List α) : List (List α) := (s.splitOn c).filter (· ≠ [])

theorem tokens_nil (c : α) : tokens c [] = [] := by simp [tokens, List.splitOn_nil]

theorem tokens_append (c : α) (s t : List α) : tokens c (s ++ c :: t) = tokens c s ++ tokens c t := by
  simp only [tokens, List.splitOn_append_cons_of_beq s t (beq_self_eq_true c), List.filter_append]

theorem tokens_cons (c : α) (t : List α) : tokens c (c :: t) = tokens c t := by
  simpa [tokens_nil] using tokens_append c [] t

theorem tokens_single (c : α) (s : List α) (hc : c ∉ s) (hs : s ≠ []) : tokens c s = [s] := by
  simp [tokens, List.splitOn_eq_singleton hc, hs]

theorem tokens_head (c : α) (s t : List α) (hc : c ∉ s) (hs : s ≠ []) :
    tokens c (s ++ c :: t) = s :: tokens c t := by
  rw [tokens_append, tokens_single c s hc hs, List.singleton_append]

omit [DecidableEq α] in
theorem append_cons_inj {c : α} {x y s t : List α} (hx : c ∉ x) (hy : c ∉ y)
    (h : x ++ c :: s = y ++ c :: t) : x = y ∧ s = t := by
  induction x generalizing y with
  | nil =>
    cases y with
    | nil => exact ⟨rfl, (List.cons.inj h).2⟩
    | cons b y => exact absurd (List.cons.inj h).1 fun hb => hy (hb ▸ List.mem_cons_self)
  | cons a x ih =>
    cases y with
    | nil => exact absurd (List.cons.inj h).1.symm fun ha => hx (ha ▸ List.mem_cons_self)
    | cons b y =>
      obtain ⟨hab, hrest⟩ := List.cons.inj h
      obtain ⟨hxy, hst⟩ := ih (fun hc => hx (List.mem_cons_of_mem _ hc))
        (fun hc => hy (List.mem_cons_of_mem _ hc)) hrest
      exact ⟨by rw [hab, hxy], hst⟩

omit [DecidableEq α] in
theorem append_cons_inj_right {c : α} {x y s t : List α} (hs : c ∉ s) (ht : c ∉ t)
    (h : x ++ c :: s = y ++ c :: t) : x = y ∧ s = t := by
  have hreverse := congrArg List.reverse h
  simp only [List.reverse_append, List.reverse_cons, List.append_assoc, List.singleton_append] at hreverse
  obtain ⟨hst, hxy⟩ := append_cons_inj (by rwa [List.mem_reverse]) (by rwa [List.mem_reverse]) hreverse
  exact ⟨List.reverse_inj.mp hxy, List.reverse_inj.mp hst⟩

def findFirstNotOf (c : α) (s : List α) (pos : ℕ) : Option ℕ :=
  let skipped := ((s.drop pos).takeWhile (· == c)).length
  if pos + skipped < s.length then some (pos + skipped) else none

def find (c : α) (s : List α) (pos : ℕ) : Option ℕ :=
  let skipped := ((s.drop pos).takeWhile (· != c)).length
  if pos + skipped < s.length then some (pos + skipped) else none

/-- Reading on from the cursor `stop`; once `find` has run off the end the cursor is past every
character and the next search for a token fails. -/
def split (c : α) (s : List α) : ℕ → ℕ → List (List α)
  | 0, _ => []
  | fuel + 1, stop =>
    match findFirstNotOf c s stop with
    | none => []
    | some start =>
      match find c s start with
      | none => [s.drop start]
      | some stop' => (s.drop start).take (stop' - start) :: split c s fuel stop'

omit [DecidableEq α] in
theorem drop_takeWhile (p : α → Bool) (s : List α) :
    s.drop (s.takeWhile p).length = s.dropWhile p := by
  induction s with
  | nil => rfl
  | cons x s ih => by_cases hx : p x <;> simp [hx, ih]

theorem tokens_dropWhile (c : α) (s : List α) : tokens c (s.dropWhile (· == c)) = tokens c s := by
  induction s with
  | nil => rfl
  | cons x s ih =>
    by_cases hx : x = c
    · subst hx; rw [tokens_cons, ← ih]; simp
    · simp [hx]

theorem findFirstNotOf_none {c : α} {s : List α} {pos : ℕ} (h : findFirstNotOf c s pos = none) :
    tokens c (s.drop pos) = [] := by
  have hd : (s.drop pos).dropWhile (· == c) = [] := by
    rw [← drop_takeWhile, List.drop_eq_nil_iff]
    simp only [findFirstNotOf, ite_eq_right_iff, reduceCtorEq, imp_false, Nat.not_lt] at h
    simp only [List.length_drop]
    omega
  rw [← tokens_dropWhile, hd, tokens_nil]

theorem findFirstNotOf_some {c : α} {s : List α} {pos start : ℕ}
    (h : findFirstNotOf c s pos = some start) :
    s.drop start = (s.drop pos).dropWhile (· == c) ∧ pos ≤ start ∧ start < s.length := by
  simp only [findFirstNotOf, Option.ite_none_right_eq_some, Option.some.injEq] at h
  obtain ⟨hlt, rfl⟩ := h
  exact ⟨by rw [← drop_takeWhile, List.drop_drop], by omega, hlt⟩

theorem find_none {c : α} {s : List α} {pos : ℕ} (h : find c s pos = none) : c ∉ s.drop pos := by
  simp only [find, ite_eq_right_iff, reduceCtorEq, imp_false, Nat.not_lt] at h
  have ht : (s.drop pos).takeWhile (· != c) = s.drop pos := by
    apply (List.takeWhile_prefix _).eq_of_length_le
    simp only [List.length_drop]
    omega
  intro hc
  rw [← ht] at hc
  simpa using List.mem_takeWhile_imp hc

theorem find_some {c : α} {s : List α} {pos stop : ℕ} (h : find c s pos = some stop) :
    ∃ t, c ∉ t ∧ stop = pos + t.length ∧ s.drop pos = t ++ c :: s.drop (stop + 1) := by
  simp only [find, Option.ite_none_right_eq_some, Option.some.injEq] at h
  obtain ⟨hlt, rfl⟩ := h
  refine ⟨(s.drop pos).takeWhile (· != c), ?_, rfl, ?_⟩
  · intro hc
    simpa using List.mem_takeWhile_imp hc
  · have hne : (s.drop pos).dropWhile (· != c) ≠ [] := by
      rw [← drop_takeWhile, ne_eq, List.drop_eq_nil_iff, List.length_drop]
      omega
    have htail : (s.drop pos).dropWhile (· != c) =
        c :: s.drop (pos + ((s.drop pos).takeWhile (· != c)).length + 1) := by
      have hx := List.head_dropWhile_not (· != c) hne
      rw [← List.cons_head_tail hne]
      congr 1
      · simpa using hx
      · rw [← drop_takeWhile, List.tail_drop, List.drop_drop, Nat.add_assoc]
    rw [← htail, List.takeWhile_append_dropWhile]

theorem tokens_last {c : α} {s : List α} {stop start : ℕ} (hs : findFirstNotOf c s stop = some start)
    (hf : find c s start = none) : tokens c (s.drop stop) = [s.drop start] := by
  obtain ⟨hdrop, -, hlt⟩ := findFirstNotOf_some hs
  have hne : s.drop start ≠ [] := by rw [ne_eq, List.drop_eq_nil_iff]; omega
  rw [← tokens_dropWhile, ← hdrop, tokens_single c _ (find_none hf) hne]

theorem tokens_next {c : α} {s : List α} {stop start stop' : ℕ} (hs : findFirstNotOf c s stop = some start)
    (hf : find c s start = some stop') :
    tokens c (s.drop stop) = (s.drop start).take (stop' - start) :: tokens c (s.drop stop') ∧
      start < stop' := by
  obtain ⟨hdrop, -, hlt⟩ := findFirstNotOf_some hs
  obtain ⟨t, hc, rfl, happ⟩ := find_some hf
  have hne : s.drop start ≠ [] := by rw [ne_eq, List.drop_eq_nil_iff]; omega
  have ht : t ≠ [] := by
    rintro rfl
    have hx := List.head_dropWhile_not (· == c) (hdrop ▸ hne)
    simp only [← hdrop, happ] at hx
    simp at hx
  have hrest : s.drop (start + t.length) = c :: s.drop (start + t.length + 1) := by
    rw [← List.drop_drop, happ, List.drop_left]
  refine ⟨?_, Nat.lt_add_of_pos_right (List.length_pos_iff.mpr ht)⟩
  rw [← tokens_dropWhile, ← hdrop, hrest, tokens_cons, happ, tokens_head c t _ hc ht,
    Nat.add_sub_cancel_left, List.take_left]

theorem split_eq (c : α) (s : List α) (fuel stop : ℕ) (h : s.length < fuel + stop) :
    split c s fuel stop = tokens c (s.drop stop) := by
  -- The induction is on the fuel; each round moves the cursor past the token it returns
  induction fuel generalizing stop with
  | zero => rw [List.drop_eq_nil_of_le (by omega), tokens_nil, split]
  | succ fuel ih =>
    cases hs : findFirstNotOf c s stop with
    | none => simp only [split, hs, findFirstNotOf_none hs]
    | some start =>
      obtain ⟨-, hle, -⟩ := findFirstNotOf_some hs
      cases hf : find c s start with
      | none => simp only [split, hs, hf, tokens_last hs hf]
      | some stop' =>
        obtain ⟨hnext, hlt⟩ := tokens_next hs hf
        simp only [split, hs, hf, hnext]
        rw [ih _ (by omega)]

def parse (c : α) (s : List α) : List (List α) := split c s (s.length + 1) 0

theorem parse_eq (c : α) (s : List α) : parse c s = tokens c s :=
  split_eq c s (s.length + 1) 0 (by omega)

end Cheferd.Library.Tokens
