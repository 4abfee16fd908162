import Cheferd.Library.Runs
import Mathlib.Data.List.Basic

namespace Cheferd.Library

namespace Server

inductive Thread (ρ : Type)
  | created
  | idle
  | serving (rule : ρ)
  | ended
deriving DecidableEq

def Thread.rule {ρ : Type} : Thread ρ → Option ρ
  | .serving rule => some rule
  | _ => none

inductive Action (ρ ω : Type)
  | start (accepted : Bool)
  | submit (rule : ρ)
  | dequeue
  | respond (outcome : ω)
  | pop

end Server

/-- One thread between two queues. Each response stands next to the rule that was served for it; all rules
ever submitted and all responses ever popped are kept as a history. -/
structure Server (ρ σ : Type) where
  submission : List ρ
  thread : Server.Thread ρ
  completion : List (ρ × σ)
  submitted : List ρ
  popped : List (ρ × σ)
deriving DecidableEq

namespace Server

variable {ρ σ ω : Type}

def new : Server ρ σ := ⟨[], .created, [], [], []⟩

def step (send : ρ → ω → Option (List σ)) (s : Server ρ σ) : Action ρ ω → Option (Server ρ σ)
  | .start accepted =>
    match s.thread with
    | .created => some { s with thread := if accepted then .idle else .ended }
    | _ => none
  | .submit rule => some { s with submission := s.submission ++ [rule], submitted := s.submitted ++ [rule] }
  | .dequeue =>
    match s.thread, s.submission with
    | .idle, rule :: rest => some { s with submission := rest, thread := .serving rule }
    | _, _ => none
  | .respond outcome =>
    match s.thread with
    | .serving rule => (send rule outcome).map fun responses =>
      { s with thread := .idle, completion := s.completion ++ responses.map fun response => (rule, response) }
    | _ => none
  | .pop =>
    match s.completion with
    | response :: rest => some { s with completion := rest, popped := s.popped ++ [response] }
    | [] => none

def machine (send : ρ → ω → Option (List σ)) : Machine (Server ρ σ) (Action ρ ω) where
  start s := s = new
  step := step send

def Submits (kind : ρ → Prop) (_ : Server ρ σ) : Action ρ ω → Prop
  | .submit rule => kind rule
  | _ => True

instance {kind : ρ → Prop} [DecidablePred kind] :
    ∀ (s : Server ρ σ) (a : Action ρ ω), Decidable (Submits kind s a)
  | _, .submit rule => inferInstanceAs (Decidable (kind rule))
  | _, .start _ | _, .dequeue | _, .respond _ | _, .pop => inferInstanceAs (Decidable True)

def passed (s : Server ρ σ) : List ρ :=
  s.popped.map Prod.fst ++ s.completion.map Prod.fst ++ s.thread.rule.toList ++ s.submission

structure InOrder (send : ρ → ω → Option (List σ)) (s : Server ρ σ) : Prop where
  passed : s.passed = s.submitted
  answered : ∀ e ∈ s.popped ++ s.completion, ∃ outcome, send e.1 outcome = some [e.2]

variable {send : ρ → ω → Option (List σ)} {kind : ρ → Prop} {s t : Server ρ σ}

theorem InOrder.step {a : Action ρ ω}
    (hone : ∀ rule, kind rule → ∀ outcome responses, send rule outcome = some responses →
      ∃ response, responses = [response])
    (h : s.step send a = some t) (hkind : ∀ rule ∈ s.submitted, kind rule) (hs : InOrder send s) :
    InOrder send t := by
  obtain ⟨hpassed, hanswered⟩ := hs
  unfold Server.passed at hpassed
  cases a with
  | start accepted =>
    simp only [Server.step] at h
    split at h <;> cases h
    case h_1 hthread =>
      refine ⟨?_, hanswered⟩
      rw [← hpassed, hthread]
      cases accepted <;> rfl
  | submit rule =>
    cases h
    refine ⟨?_, hanswered⟩
    rw [← hpassed]
    simp only [Server.passed, List.append_assoc]
  | dequeue =>
    simp only [Server.step] at h
    split at h <;> cases h
    case h_1 rule rest hthread hsubmission =>
      refine ⟨?_, hanswered⟩
      rw [← hpassed, hthread, hsubmission]
      simp [Server.passed, Thread.rule]
  | respond outcome =>
    simp only [Server.step] at h
    split at h
    case h_2 => cases h
    case h_1 rule hthread =>
      obtain ⟨responses, hsend, rfl⟩ := Option.map_eq_some_iff.mp h
      have hrule : rule ∈ s.submitted := by simp [← hpassed, hthread, Thread.rule]
      obtain ⟨response, rfl⟩ := hone rule (hkind rule hrule) outcome responses hsend
      refine ⟨?_, fun e he => ?_⟩
      · rw [← hpassed, hthread]
        simp [Server.passed, Thread.rule]
      · rw [← List.append_assoc, List.mem_append] at he
        rcases he with he | he
        · exact hanswered e he
        · rw [List.mem_singleton.mp he]
          exact ⟨outcome, hsend⟩
  | pop =>
    simp only [Server.step] at h
    split at h <;> cases h
    case h_1 response rest hcompletion =>
      refine ⟨?_, fun e he => hanswered e ?_⟩
      · rw [← hpassed, hcompletion]
        simp [Server.passed]
      · simpa [hcompletion] using he

theorem submitted_step {a : Action ρ ω} (h : s.step send a = some t) (ha : Submits kind s a)
    (hs : ∀ rule ∈ s.submitted, kind rule) : ∀ rule ∈ t.submitted, kind rule := by
  cases a with
  | submit rule =>
    cases h
    intro r hr
    rcases List.mem_append.mp hr with hr | hr
    · exact hs r hr
    · rw [List.mem_singleton.mp hr]
      exact ha
  | respond outcome =>
    simp only [Server.step] at h
    split at h
    · obtain ⟨responses, _, rfl⟩ := Option.map_eq_some_iff.mp h
      exact hs
    · cases h
  | _ =>
    simp only [Server.step] at h
    split at h <;> cases h
    exact hs

theorem inOrder_reach (hone : ∀ rule, kind rule → ∀ outcome responses, send rule outcome = some responses →
      ∃ response, responses = [response])
    (h : (machine send).Reach (Submits kind) s) : InOrder send s := by
  have hs : (∀ rule ∈ s.submitted, kind rule) ∧ InOrder send s := by
    induction h with
    | start h =>
      cases h
      exact ⟨by simp [new], rfl, by simp [new]⟩
    | step _ ha hstep ih => exact ⟨submitted_step hstep ha ih.1, ih.2.step hone hstep ih.1⟩
  exact hs.2

theorem InOrder.popped (h : InOrder send s) {k : ℕ} {e : ρ × σ} (he : s.popped[k]? = some e) :
    s.submitted[k]? = some e.1 ∧ ∃ outcome, send e.1 outcome = some [e.2] := by
  refine ⟨?_, h.answered e (List.mem_append_left _ (List.mem_of_getElem? he))⟩
  have hk : k < s.popped.length := (List.getElem?_eq_some_iff.mp he).1
  rw [← h.passed, Server.passed, List.append_assoc, List.append_assoc,
    List.getElem?_append_left (by simpa using hk), List.getElem?_map, he, Option.map_some]

end Server

end Cheferd.Library
