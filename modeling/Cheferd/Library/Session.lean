import Cheferd.Library.Monitor
import Cheferd.Library.Worker
import Mathlib.Data.Fintype.Option

namespace Cheferd.Library

namespace Session

inductive Point (ρ : Type)
  | raise
  | loop
  | dequeuing
  | serving (rule : ρ)
  | responding
  | ended
deriving DecidableEq

inductive Action (ι ρ σ ω : Type)
  | thread
  | respond (outcome : ω)
  | submit (caller : ι) (rule : ρ)
  | remove (caller : ι)
  | getResult (caller : ι)
  | take (caller : ι)
  | requests (action : Monitor.Action (Option ι) ρ)
  | responses (action : Monitor.Action (Option ι) (ρ × σ))

end Session

/-- A thread between two queues under locks, `none` in both, and the threads that call it. The rules put in
and the responses taken out are kept as a history. -/
structure Session (ι ρ σ : Type) where
  point : Session.Point ρ
  requests : Monitor (Option ι) ρ
  responses : Monitor (Option ι) (ρ × σ)
  submitted : List ρ
  popped : List (ρ × σ)

namespace Session

variable {ι ρ σ ω : Type} [DecidableEq ι] [Fintype ι]

def new (flag : Bool) : Session ι ρ σ := ⟨.raise, .new flag, .new true, [], []⟩

def thread (s : Session ι ρ σ) : Option (Session ι ρ σ) :=
  match s.point with
  | .raise => (s.requests.step .raise).map fun requests => { s with point := .loop, requests := requests }
  | .loop =>
    if s.requests.flag then (s.requests.step (.dequeue none)).map fun requests =>
      { s with point := .dequeuing, requests := requests }
    else some { s with point := .ended }
  | .dequeuing =>
    match s.requests.point none with
    | .got (some rule) => (s.requests.step (.finish none)).map fun requests =>
      { s with point := .serving rule, requests := requests }
    | .got none =>
      (s.requests.step (.finish none)).map fun requests => { s with point := .loop, requests := requests }
    | _ => none
  | .responding =>
    match s.responses.point none with
    | .out => some { s with point := .loop }
    | _ => none
  | .serving _ | .ended => none

def step (send : ρ → ω → Option (Option σ)) (dummy : ρ) (s : Session ι ρ σ) :
    Action ι ρ σ ω → Option (Session ι ρ σ)
  | .thread => s.thread
  | .respond outcome =>
    match s.point with
    | .serving rule =>
      match send rule outcome with
      | none => none
      | some none => some { s with point := .loop }
      | some (some response) => (s.responses.step (.enqueue none (rule, response))).map fun responses =>
        { s with point := .responding, responses := responses }
    | _ => none
  | .submit caller rule =>
    match s.responses.point (some caller) with
    | .out =>
      (s.requests.step (.enqueue (some caller) rule)).map fun requests => { s with requests := requests }
    | _ => none
  | .remove caller =>
    match s.responses.point (some caller) with
    | .out => (s.requests.step (.close (some caller) dummy)).map fun requests => { s with requests := requests }
    | _ => none
  | .getResult caller =>
    match s.requests.point (some caller) with
    | .out => (s.responses.step (.dequeue (some caller))).map fun responses => { s with responses := responses }
    | _ => none
  | .take caller =>
    (s.responses.step (.finish (some caller))).map fun responses => { s with responses := responses }
  | .requests action =>
    if Monitor.internal action then (s.requests.step action).map fun requests =>
      { s with requests := requests, submitted := s.submitted ++ s.requests.pushed action }
    else none
  | .responses action =>
    if Monitor.internal action then (s.responses.step action).map fun responses =>
      { s with responses := responses, popped := s.popped ++ s.responses.popped action }
    else none

def machine (send : ρ → ω → Option (Option σ)) (dummy : ρ) : Machine (Session ι ρ σ) (Action ι ρ σ ω) where
  start s := ∃ flag, s = new flag
  step := step send dummy

variable {send : ρ → ω → Option (Option σ)} {dummy : ρ} {kind : ρ → Prop} {s t : Session ι ρ σ}
    {a : Action ι ρ σ ω}

inductive Effect (send : ρ → ω → Option (Option σ)) (dummy : ρ) (s : Session ι ρ σ) :
    Action ι ρ σ ω → Session ι ρ σ → Prop
  | raised (requests : Monitor (Option ι) ρ) (hpoint : s.point = .raise)
      (hstep : s.requests.step .raise = some requests) :
      Effect send dummy s .thread { s with point := .loop, requests := requests }
  | stopped (hpoint : s.point = .loop) (hflag : s.requests.flag = false) :
      Effect send dummy s .thread { s with point := .ended }
  | dequeues (requests : Monitor (Option ι) ρ) (hpoint : s.point = .loop) (hflag : s.requests.flag = true)
      (hstep : s.requests.step (.dequeue none) = some requests) :
      Effect send dummy s .thread { s with point := .dequeuing, requests := requests }
  | received (rule : ρ) (requests : Monitor (Option ι) ρ) (hpoint : s.point = .dequeuing)
      (hgot : s.requests.point none = .got (some rule))
        (hstep : s.requests.step (.finish none) = some requests) :
      Effect send dummy s .thread { s with point := .serving rule, requests := requests }
  | released (requests : Monitor (Option ι) ρ) (hpoint : s.point = .dequeuing)
      (hgot : s.requests.point none = .got none) (hstep : s.requests.step (.finish none) = some requests) :
      Effect send dummy s .thread { s with point := .loop, requests := requests }
  | answered (hpoint : s.point = .responding) (hout : s.responses.point none = .out) :
      Effect send dummy s .thread { s with point := .loop }
  | unsupported (outcome : ω) (rule : ρ) (hpoint : s.point = .serving rule)
      (hsend : send rule outcome = some none) :
      Effect send dummy s (.respond outcome) { s with point := .loop }
  | responds (outcome : ω) (rule : ρ) (response : σ) (responses : Monitor (Option ι) (ρ × σ))
      (hpoint : s.point = .serving rule) (hsend : send rule outcome = some (some response))
      (hstep : s.responses.step (.enqueue none (rule, response)) = some responses) :
      Effect send dummy s (.respond outcome) { s with point := .responding, responses := responses }
  | submit (caller : ι) (rule : ρ) (requests : Monitor (Option ι) ρ)
      (hstep : s.requests.step (.enqueue (some caller) rule) = some requests) :
      Effect send dummy s (.submit caller rule) { s with requests := requests }
  | remove (caller : ι) (requests : Monitor (Option ι) ρ)
      (hstep : s.requests.step (.close (some caller) dummy) = some requests) :
      Effect send dummy s (.remove caller) { s with requests := requests }
  | getResult (caller : ι) (responses : Monitor (Option ι) (ρ × σ))
      (hstep : s.responses.step (.dequeue (some caller)) = some responses) :
      Effect send dummy s (.getResult caller) { s with responses := responses }
  | take (caller : ι) (responses : Monitor (Option ι) (ρ × σ))
      (hstep : s.responses.step (.finish (some caller)) = some responses) :
      Effect send dummy s (.take caller) { s with responses := responses }
  | requests (action : Monitor.Action (Option ι) ρ) (requests : Monitor (Option ι) ρ)
      (hinternal : Monitor.internal action = true) (hstep : s.requests.step action = some requests) :
      Effect send dummy s (.requests action)
        { s with requests := requests, submitted := s.submitted ++ s.requests.pushed action }
  | responses (action : Monitor.Action (Option ι) (ρ × σ)) (responses : Monitor (Option ι) (ρ × σ))
      (hinternal : Monitor.internal action = true) (hstep : s.responses.step action = some responses) :
      Effect send dummy s (.responses action)
        { s with responses := responses, popped := s.popped ++ s.responses.popped action }

theorem thread_cases (h : s.thread = some t) : Effect send dummy s .thread t := by
  unfold thread at h
  split at h
  case h_1 hpoint =>
    obtain ⟨requests, hstep, rfl⟩ := Option.map_eq_some_iff.mp h
    exact .raised requests hpoint hstep
  case h_2 hpoint =>
    split at h
    case isTrue hflag =>
      obtain ⟨requests, hstep, rfl⟩ := Option.map_eq_some_iff.mp h
      exact .dequeues requests hpoint hflag hstep
    case isFalse hflag =>
      cases h
      exact .stopped hpoint (Bool.eq_false_iff.mpr hflag)
  case h_3 hpoint =>
    split at h
    case h_1 rule hgot =>
      obtain ⟨requests, hstep, rfl⟩ := Option.map_eq_some_iff.mp h
      exact .received rule requests hpoint hgot hstep
    case h_2 hgot =>
      obtain ⟨requests, hstep, rfl⟩ := Option.map_eq_some_iff.mp h
      exact .released requests hpoint hgot hstep
    case h_3 => cases h
  case h_4 hpoint =>
    split at h <;> cases h
    case h_1.refl hout => exact .answered hpoint hout
  all_goals cases h

theorem step_cases (h : s.step send dummy a = some t) : Effect send dummy s a t := by
  cases a with
  | thread => exact thread_cases h
  | respond outcome =>
    simp only [step] at h
    split at h
    case h_1 rule hpoint =>
      split at h
      case h_1 => cases h
      case h_2 hsend =>
        cases h
        exact .unsupported outcome rule hpoint hsend
      case h_3 response hsend =>
        obtain ⟨responses, hstep, rfl⟩ := Option.map_eq_some_iff.mp h
        exact .responds outcome rule response responses hpoint hsend hstep
    case h_2 => cases h
  | submit caller rule =>
    simp only [step] at h
    split at h
    case h_1 =>
      obtain ⟨requests, hstep, rfl⟩ := Option.map_eq_some_iff.mp h
      exact .submit caller rule requests hstep
    case h_2 => cases h
  | remove caller =>
    simp only [step] at h
    split at h
    case h_1 =>
      obtain ⟨requests, hstep, rfl⟩ := Option.map_eq_some_iff.mp h
      exact .remove caller requests hstep
    case h_2 => cases h
  | getResult caller =>
    simp only [step] at h
    split at h
    case h_1 =>
      obtain ⟨responses, hstep, rfl⟩ := Option.map_eq_some_iff.mp h
      exact .getResult caller responses hstep
    case h_2 => cases h
  | take caller =>
    obtain ⟨responses, hstep, rfl⟩ := Option.map_eq_some_iff.mp h
    exact .take caller responses hstep
  | requests action =>
    simp only [step, Option.ite_none_right_eq_some] at h
    obtain ⟨hinternal, h⟩ := h
    obtain ⟨requests, hstep, rfl⟩ := Option.map_eq_some_iff.mp h
    exact .requests action requests hinternal hstep
  | responses action =>
    simp only [step, Option.ite_none_right_eq_some] at h
    obtain ⟨hinternal, h⟩ := h
    obtain ⟨responses, hstep, rfl⟩ := Option.map_eq_some_iff.mp h
    exact .responses action responses hinternal hstep

structure Sound (s : Session ι ρ σ) : Prop where
  requests : s.requests.Sound
  responses : s.responses.Sound
  closing : Monitor.Closing none s.requests
  flag : s.responses.flag = true
  callers : ∀ caller, (s.responses.point (some caller)).side ≠ .putting
  dequeuing : (s.requests.point none).side = .taking ↔ s.point = .dequeuing
  requesting : (s.requests.point none).side ≠ .putting
  responding : s.point ≠ .responding → (s.responses.point none).side = .outside
  answering : (s.responses.point none).side ≠ .taking

theorem Sound.new (flag : Bool) : Sound (new flag : Session ι ρ σ) where
  requests := .new flag
  responses := .new true
  closing := ⟨(fun _ hk => by cases hk), fun _ hk => by rcases hk with hk | hk <;> cases hk⟩
  flag := rfl
  callers _ := by simp [Session.new, Monitor.new, Monitor.Point.side]
  dequeuing := by simp [Session.new, Monitor.new, Monitor.Point.side]
  requesting := by simp [Session.new, Monitor.new, Monitor.Point.side]
  responding _ := rfl
  answering := by simp [Session.new, Monitor.new, Monitor.Point.side]

theorem Sound.step (h : s.step send dummy a = some t) (hs : s.Sound) : t.Sound := by
  have hrequests := hs.requests
  have hresponses := hs.responses
  have hclosing := hs.closing
  have hdequeuing := hs.dequeuing
  cases step_cases h with
  | raised requests hpoint hstep =>
    have hnone : ∀ k, (s.requests.point k).side ≠ .taking := by
      intro k hk
      have hnone := hclosing.alone k hk
      rw [hnone, hdequeuing, hpoint] at hk
      cases hk
    refine ⟨hrequests.step hstep fun _ => hnone, hresponses, hclosing.step hrequests.owned hstep
      (by simp), hs.flag,
      hs.callers, ?_, ?_, fun _ => hs.responding (by simp [hpoint]), hs.answering⟩
    all_goals cases hstep
    · exact ⟨fun hk => absurd hk (hnone none), fun hp => by cases hp⟩
    · exact hs.requesting
  | stopped hpoint hflag =>
    refine ⟨hrequests, hresponses, hclosing, hs.flag, hs.callers, ?_, hs.requesting,
      fun _ => hs.responding (by simp [hpoint]), hs.answering⟩
    rw [hdequeuing, hpoint]
    simp
  | dequeues requests hpoint hflag hstep =>
    refine ⟨hrequests.step hstep (by simp), hresponses, hclosing.step hrequests.owned hstep (by simp), hs.flag,
      hs.callers, ?_, ?_, fun _ => hs.responding (by simp [hpoint]), hs.answering⟩
    all_goals
      cases Monitor.step_cases hstep
      simp [Monitor.Point.side]
  | received rule requests hpoint hgot hstep =>
    refine ⟨hrequests.step hstep (by simp), hresponses, hclosing.step hrequests.owned hstep (by simp), hs.flag,
      hs.callers, ?_, ?_, fun _ => hs.responding (by simp [hpoint]), hs.answering⟩
    all_goals
      cases Monitor.step_cases hstep
      simp [Monitor.Point.side]
  | released requests hpoint hgot hstep =>
    refine ⟨hrequests.step hstep (by simp), hresponses, hclosing.step hrequests.owned hstep (by simp), hs.flag,
      hs.callers, ?_, ?_, fun _ => hs.responding (by simp [hpoint]), hs.answering⟩
    all_goals
      cases Monitor.step_cases hstep
      simp [Monitor.Point.side]
  | answered hpoint hout =>
    refine ⟨hrequests, hresponses, hclosing, hs.flag, hs.callers, ?_, hs.requesting, fun _ => ?_, hs.answering⟩
    · rw [hdequeuing, hpoint]
      simp
    · simp only [hout, Monitor.Point.side]
  | unsupported outcome rule hpoint hsend =>
    refine ⟨hrequests, hresponses, hclosing, hs.flag, hs.callers, ?_, hs.requesting,
      fun _ => hs.responding (by simp [hpoint]), hs.answering⟩
    rw [hdequeuing, hpoint]
    simp
  | responds outcome rule response responses hpoint hsend hstep =>
    refine ⟨hrequests, hresponses.step hstep (by simp), hclosing, ?_, ?_, ?_, hs.requesting,
      fun hp => absurd rfl hp, ?_⟩
    · cases Monitor.step_cases hstep
      exact hs.flag
    · cases Monitor.step_cases hstep
      simpa using hs.callers
    · rw [hdequeuing, hpoint]
      simp
    · cases Monitor.step_cases hstep
      simp [Monitor.Point.side]
  | submit caller rule requests hstep =>
    refine ⟨hrequests.step hstep (by simp), hresponses, hclosing.step hrequests.owned hstep (by simp), hs.flag,
      hs.callers, ?_, ?_, hs.responding, hs.answering⟩
    all_goals cases Monitor.step_cases hstep
    · simpa using hdequeuing
    · simpa using hs.requesting
  | remove caller requests hstep =>
    refine ⟨hrequests.step hstep (by simp), hresponses, hclosing.step hrequests.owned hstep (by simp), hs.flag,
      hs.callers, ?_, ?_, hs.responding, hs.answering⟩
    all_goals cases Monitor.step_cases hstep
    · simpa using hdequeuing
    · simpa using hs.requesting
  | getResult caller responses hstep =>
    refine ⟨hrequests, hresponses.step hstep (by simp), hclosing, ?_,
      fun other => ?_, hdequeuing, hs.requesting, ?_, ?_⟩
    all_goals cases Monitor.step_cases hstep
    · exact hs.flag
    · rw [Monitor.goTo_point]
      split
      · simp [Monitor.Point.side]
      · exact hs.callers other
    · simpa using hs.responding
    · simpa using hs.answering
  | take caller responses hstep =>
    refine ⟨hrequests, hresponses.step hstep (by simp), hclosing, ?_,
      fun other => ?_, hdequeuing, hs.requesting, ?_, ?_⟩
    all_goals cases Monitor.step_cases hstep
    · exact hs.flag
    · rw [Monitor.goTo_point]
      split
      · simp [Monitor.Point.side]
      · exact hs.callers other
    · simpa using hs.responding
    · simpa using hs.answering
  | requests action requests hinternal hstep =>
    have hside := Monitor.side_step hstep hinternal none
    have hkeep : action ≠ .raise ∧ ∀ i, action ≠ .dequeue i := by
      constructor
      · rintro rfl
        cases hinternal
      · rintro i rfl
        cases hinternal
    refine ⟨hrequests.step hstep fun h => absurd h hkeep.1, hresponses,
      hclosing.step hrequests.owned hstep fun i h => absurd h (hkeep.2 i), hs.flag, hs.callers, ?_, ?_,
      hs.responding, hs.answering⟩
    · rcases hside with hsame | ⟨hput, -⟩
      · simpa only [hsame] using hdequeuing
      · exact absurd hput hs.requesting
    · rcases hside with hsame | ⟨hput, -⟩
      · simpa only [hsame] using hs.requesting
      · exact absurd hput hs.requesting
  | responses action responses hinternal hstep =>
    have hside := Monitor.side_step hstep hinternal
    have hraise : action ≠ .raise := by
      rintro rfl
      cases hinternal
    have hout : ∀ k, responses.point k = .out → (responses.point k).side = .outside := fun k h => by rw [h]; rfl
    refine ⟨hrequests, hresponses.step hstep fun h => absurd h hraise, hclosing, ?_,
      fun caller => ?_, hdequeuing, hs.requesting, fun hp => ?_, ?_⟩
    · exact (Monitor.flag_internal hstep hinternal).trans hs.flag
    · rcases hside (some caller) with hsame | ⟨hput, -⟩
      · simpa only [hsame] using hs.callers caller
      · exact absurd hput (hs.callers caller)
    · rcases hside none with hsame | ⟨-, hnone⟩
      · exact hsame.trans (hs.responding hp)
      · exact hout none hnone
    · rcases hside none with hsame | ⟨-, hnone⟩
      · simpa only [hsame] using hs.answering
      · rw [hout none hnone]
        simp

theorem sound_reach {allowed : Session ι ρ σ → Action ι ρ σ ω → Prop}
    (h : (machine send dummy).Reach allowed s) :
    s.Sound := by
  refine h.invariant ?_ fun s t a hs _ hstep => hs.step hstep
  rintro s ⟨flag, rfl⟩
  exact .new flag

section Refinement

def serverThread (s : Session ι ρ σ) : Server.Thread ρ :=
  match s.point with
  | .raise => .created
  | .loop | .ended => .idle
  | .dequeuing => ((s.requests.point none).item).elim .idle .serving
  | .serving rule => .serving rule
  | .responding => ((s.responses.point none).item).elim .idle fun e => .serving e.1

def server (s : Session ι ρ σ) : Server ρ σ :=
  ⟨s.requests.queue, s.serverThread, s.responses.queue, s.submitted, s.popped⟩

def answers (send : ρ → ω → Option (Option σ)) (rule : ρ) (outcome : ω) : Option (List σ) :=
  (send rule outcome).map Option.toList

omit [DecidableEq ι] [Fintype ι] in
theorem answers_eq_singleton {rule : ρ} {outcome : ω} {response : σ} :
    answers send rule outcome = some [response] ↔ send rule outcome = some (some response) := by
  unfold answers
  rcases send rule outcome with _ | _ | _ <;> simp

def Serves (kind : ρ → Prop) (_ : Session ι ρ σ) : Action ι ρ σ ω → Prop
  | .submit _ rule => kind rule
  | .remove _ => False
  | _ => True

instance {kind : ρ → Prop} [DecidablePred kind] :
    ∀ (s : Session ι ρ σ) (a : Action ι ρ σ ω), Decidable (Serves kind s a)
  | _, .submit _ rule => inferInstanceAs (Decidable (kind rule))
  | _, .remove _ => inferInstanceAs (Decidable False)
  | _, .thread | _, .respond _ | _, .getResult _ | _, .take _ | _, .requests _ | _, .responses _ =>
    inferInstanceAs (Decidable True)

structure Expected (send : ρ → ω → Option (Option σ)) (kind : ρ → Prop) (s : Session ι ρ σ) : Prop where
  kind : ∀ caller, ∀ rule ∈ (s.requests.point (some caller)).item, kind rule
  answer : ∀ e ∈ (s.responses.point none).item, ∃ outcome, send e.1 outcome = some (some e.2)

theorem follows_requests {action : Monitor.Action (Option ι) ρ} {requests : Monitor (Option ι) ρ} (hs : s.Sound)
    (hexpected : Expected send kind s) (hinternal : Monitor.internal action = true)
    (hstep : s.requests.step action = some requests) :
    ∀ t, t = { s with requests := requests, submitted := s.submitted ++ s.requests.pushed action } →
      Worker.Follows (answers send) kind s.server t.server ∧ Expected send kind t := by
  rintro t rfl
  cases Monitor.internal_cases hstep hinternal with
  | pushed i item haction hpoint h =>
    cases i with
    | none => exact absurd (by rw [hpoint]; rfl) hs.requesting
    | some caller =>
      subst h haction
      have hitem := hexpected.kind caller item (by rw [hpoint]; rfl)
      refine ⟨.inr ⟨.submit item, hitem, ?_⟩, fun other rule hrule => ?_, hexpected.answer⟩
      · simp [server, serverThread, Server.step, Monitor.pushed, hpoint]
      · simp only [Monitor.goTo_point] at hrule
        split at hrule
        · cases hrule
        · exact hexpected.kind other rule hrule
  | popped i item rest haction hpoint hqueue h =>
    have hi : i = none := hs.closing.alone i (by rw [hpoint]; rfl)
    have hdequeuing : s.point = .dequeuing := hs.dequeuing.mp (by rw [← hi, hpoint]; rfl)
    subst h haction hi
    refine ⟨.inr ⟨.dequeue, trivial, ?_⟩, fun other rule hrule => ?_, hexpected.answer⟩
    · simp [server, serverThread, Server.step, Monitor.pushed, hpoint, hqueue, hdequeuing, Monitor.Point.item]
    · simp only [Monitor.goTo_point, reduceCtorEq, if_false] at hrule
      exact hexpected.kind other rule hrule
  | stays hqueue hpushed hpopped hitem =>
    refine ⟨.inl ?_, fun other rule hrule => ?_, hexpected.answer⟩
    · simp [server, serverThread, hqueue, hpushed, hitem none]
    · rw [hitem] at hrule
      exact hexpected.kind other rule hrule

theorem follows_responses {action : Monitor.Action (Option ι) (ρ × σ)} {responses : Monitor (Option ι) (ρ × σ)}
    (hs : s.Sound) (hexpected : Expected send kind s) (hinternal : Monitor.internal action = true)
    (hstep : s.responses.step action = some responses) :
    ∀ t, t = { s with responses := responses, popped := s.popped ++ s.responses.popped action } →
      Worker.Follows (answers send) kind s.server t.server ∧ Expected send kind t := by
  rintro t rfl
  cases Monitor.internal_cases hstep hinternal with
  | pushed i e haction hpoint h =>
    have hi : i = none := by
      cases i with
      | none => rfl
      | some caller => exact absurd (by rw [hpoint]; rfl) (hs.callers caller)
    subst h haction hi
    have hresponding : s.point = .responding := by
      by_contra hne
      have hside := hs.responding hne
      rw [hpoint] at hside
      cases hside
    obtain ⟨outcome, hsend⟩ := hexpected.answer e (by rw [hpoint]; rfl)
    refine ⟨.inr ⟨.respond outcome, trivial, ?_⟩, hexpected.kind, fun e' he' => ?_⟩
    · simp [server, serverThread, Server.step, Monitor.popped, hpoint, hresponding, Monitor.Point.item,
        answers, hsend]
    · simp only [Monitor.goTo_point, if_true] at he'
      cases he'
  | popped i e rest haction hpoint hqueue h =>
    cases i with
    | none => exact absurd (by rw [hpoint]; rfl) hs.answering
    | some caller =>
      subst h haction
      refine ⟨.inr ⟨.pop, trivial, ?_⟩, hexpected.kind, hexpected.answer⟩
      simp [server, serverThread, Server.step, Monitor.popped, hpoint, hqueue]
  | stays hqueue hpushed hpopped hitem =>
    refine ⟨.inl ?_, hexpected.kind, fun e he => ?_⟩
    · simp [server, serverThread, hqueue, hpopped, hitem none]
    · rw [hitem] at he
      exact hexpected.answer e he

theorem follows_step (h : s.step send dummy a = some t) (ha : Serves kind s a) (hs : s.Sound)
    (hexpected : Expected send kind s) :
    Worker.Follows (answers send) kind s.server t.server ∧ Expected send kind t := by
  cases step_cases h with
  | requests action requests hinternal hstep => exact follows_requests hs hexpected hinternal hstep _ rfl
  | responses action responses hinternal hstep => exact follows_responses hs hexpected hinternal hstep _ rfl
  | raised requests hpoint hstep =>
    cases hstep
    refine ⟨.inr ⟨.start true, trivial, ?_⟩, hexpected.kind, hexpected.answer⟩
    simp [server, serverThread, Server.step, hpoint]
  | stopped hpoint hflag =>
    exact ⟨.inl (by simp [server, serverThread, hpoint]), hexpected.kind, hexpected.answer⟩
  | dequeues requests hpoint hflag hstep =>
    cases Monitor.step_cases hstep
    refine ⟨.inl ?_, fun other rule hrule => ?_, hexpected.answer⟩
    · simp [server, serverThread, hpoint, Monitor.Point.item]
    · simp only [Monitor.goTo_point, reduceCtorEq, if_false] at hrule
      exact hexpected.kind other rule hrule
  | received rule requests hpoint hgot hstep =>
    cases Monitor.step_cases hstep
    refine ⟨.inl ?_, fun other rule hrule => ?_, hexpected.answer⟩
    · simp [server, serverThread, hpoint, hgot, Monitor.Point.item]
    · simp only [Monitor.goTo_point, reduceCtorEq, if_false] at hrule
      exact hexpected.kind other rule hrule
  | released requests hpoint hgot hstep =>
    cases Monitor.step_cases hstep
    refine ⟨.inl ?_, fun other rule hrule => ?_, hexpected.answer⟩
    · simp [server, serverThread, hpoint, hgot, Monitor.Point.item]
    · simp only [Monitor.goTo_point, reduceCtorEq, if_false] at hrule
      exact hexpected.kind other rule hrule
  | answered hpoint hout =>
    exact ⟨.inl (by simp [server, serverThread, hpoint, hout, Monitor.Point.item]), hexpected.kind,
      hexpected.answer⟩
  | unsupported outcome rule hpoint hsend =>
    refine ⟨.inr ⟨.respond outcome, trivial, ?_⟩, hexpected.kind, hexpected.answer⟩
    simp [server, serverThread, Server.step, hpoint, answers, hsend]
  | responds outcome rule response responses hpoint hsend hstep =>
    cases Monitor.step_cases hstep
    refine ⟨.inl (by simp [server, serverThread, hpoint, Monitor.Point.item]), hexpected.kind, fun e he => ?_⟩
    simp only [Monitor.goTo_point, if_true] at he
    cases he
    exact ⟨outcome, hsend⟩
  | submit caller rule requests hstep =>
    cases Monitor.step_cases hstep
    refine ⟨.inl (by simp [server, serverThread]), fun other rule' hrule => ?_, hexpected.answer⟩
    simp only [Monitor.goTo_point] at hrule
    split at hrule
    · cases hrule
      exact ha
    · exact hexpected.kind other rule' hrule
  | remove caller requests hstep => exact ha.elim
  | getResult caller responses hstep =>
    cases Monitor.step_cases hstep
    refine ⟨.inl (by simp [server, serverThread]), hexpected.kind, fun e he => ?_⟩
    simp only [Monitor.goTo_point, reduceCtorEq, if_false] at he
    exact hexpected.answer e he
  | take caller responses hstep =>
    cases Monitor.step_cases hstep
    refine ⟨.inl (by simp [server, serverThread]), hexpected.kind, fun e he => ?_⟩
    simp only [Monitor.goTo_point, reduceCtorEq, if_false] at he
    exact hexpected.answer e he

theorem server_reach (h : (machine send dummy).Reach (Serves kind) s) :
    (Server.machine (answers send)).Reach (Server.Submits kind) s.server := by
  have hs : (Server.machine (answers send)).Reach (Server.Submits kind) s.server ∧ Expected send kind s := by
    induction h with
    | start h =>
      obtain ⟨flag, rfl⟩ := h
      exact ⟨.start rfl, (fun _ _ hrule => by cases hrule), (fun _ he => by cases he)⟩
    | step hreach ha hstep ih =>
      obtain ⟨hfollows, hexpected⟩ := follows_step hstep ha (sound_reach hreach) ih.2
      refine ⟨?_, hexpected⟩
      rcases hfollows with hsame | ⟨b, hb, hstep'⟩
      · rw [hsame]
        exact ih.1
      · exact ih.1.step hb hstep'
  exact hs.1

end Refinement

section Progress

def Inside (_ : Session ι ρ σ) : Action ι ρ σ ω → Prop
  | .thread | .respond _ | .take _ => True
  | .requests action => action.scheduled = true
  | .responses action => action.scheduled = true
  | .submit _ _ | .remove _ | .getResult _ => False

instance : ∀ (s : Session ι ρ σ) (a : Action ι ρ σ ω), Decidable (Inside s a)
  | _, .thread | _, .respond _ | _, .take _ => inferInstanceAs (Decidable True)
  | _, .requests action => inferInstanceAs (Decidable (action.scheduled = true))
  | _, .responses action => inferInstanceAs (Decidable (action.scheduled = true))
  | _, .submit _ _ | _, .remove _ | _, .getResult _ => inferInstanceAs (Decidable False)

def weight (s : Session ι ρ σ) : ℕ :=
  match s.point with
  | .raise => 10
  | .loop => if s.requests.flag then 9 else 1
  | .serving _ => 23
  | .responding => 10
  | .dequeuing | .ended => 0

def potential (s : Session ι ρ σ) : ℕ := s.requests.potential 22 + s.responses.potential 0 + s.weight

theorem potential_lt (h : s.step send dummy a = some t) (ha : Inside s a) (hs : s.Sound) :
    t.potential < s.potential := by
  unfold potential weight
  cases step_cases h with
  | raised requests hpoint hstep =>
    cases hstep
    simp only [hpoint, if_true]
    exact Nat.add_lt_add_left (by decide) _
  | stopped hpoint hflag => simp [hpoint, hflag]
  | dequeues requests hpoint hflag hstep =>
    cases Monitor.step_cases hstep with
    | dequeue _ hout =>
      have hsum := Monitor.potential_goTo 22 none .popLock s.requests
      rw [hout] at hsum
      simp only [Monitor.Point.weight] at hsum
      simp only [hpoint, hflag, if_true]
      omega
  | received rule requests hpoint hgot hstep =>
    cases Monitor.step_cases hstep with
    | finish _ item hitem =>
      have hsum := Monitor.potential_goTo 22 none .out s.requests
      rw [hgot] at hsum
      simp only [Monitor.Point.weight] at hsum
      simp only [hpoint]
      omega
  | released requests hpoint hgot hstep =>
    have hflag := hs.requests.halted none (.inr hgot)
    cases Monitor.step_cases hstep with
    | finish _ item hitem =>
      have hsum := Monitor.potential_goTo 22 none .out s.requests
      rw [hgot] at hsum
      simp only [Monitor.Point.weight] at hsum
      simp only [hpoint, Monitor.goTo_flag, hflag, Bool.false_eq_true, if_false]
      omega
  | answered hpoint hout =>
    simp only [hpoint]
    split <;> omega
  | unsupported outcome rule hpoint hsend =>
    simp only [hpoint]
    split <;> omega
  | responds outcome rule response responses hpoint hsend hstep =>
    cases Monitor.step_cases hstep with
    | enqueue _ item hout =>
      have hsum := Monitor.potential_goTo 0 none (.pushLock (rule, response)) s.responses
      rw [hout] at hsum
      simp only [Monitor.Point.weight] at hsum
      simp only [hpoint]
      omega
  | submit | remove | getResult => exact ha.elim
  | take caller responses hstep =>
    have hless := Monitor.step_potential_lt hstep 0 (.inr (.inr ⟨_, rfl⟩))
    dsimp only
    omega
  | requests action requests hinternal hstep =>
    have hless := Monitor.step_potential_lt hstep 22 (Monitor.Action.scheduled_cases ha)
    rw [Monitor.flag_internal hstep hinternal]
    dsimp only
    omega
  | responses action responses hinternal hstep =>
    have hless := Monitor.step_potential_lt hstep 0 (Monitor.Action.scheduled_cases ha)
    dsimp only
    omega

def Stuck (send : ρ → ω → Option (Option σ)) (dummy : ρ) (s : Session ι ρ σ) : Prop :=
  ∀ a : Action ι ρ σ ω, Inside s a → s.step send dummy a = none

theorem Stuck.requests (h : Stuck send dummy s) : s.requests.Stuck := by
  constructor
  · intro i
    have hstep := h (.requests (.move i)) rfl
    simpa [Session.step, Monitor.internal, Monitor.step] using hstep
  · intro i sleeper
    have hstep := h (.requests (.notify i sleeper)) rfl
    simpa [Session.step, Monitor.internal, Monitor.step] using hstep

theorem Stuck.responses (h : Stuck send dummy s) : s.responses.Stuck := by
  constructor
  · intro i
    have hstep := h (.responses (.move i)) rfl
    simpa [Session.step, Monitor.internal, Monitor.step] using hstep
  · intro i sleeper
    have hstep := h (.responses (.notify i sleeper)) rfl
    simpa [Session.step, Monitor.internal, Monitor.step] using hstep

theorem side_outside {α : Type} {point : Monitor.Point α} (h : point.side = .outside) : point = .out := by
  cases point <;> simp_all [Monitor.Point.side]

omit [DecidableEq ι] in
theorem Sound.out (hs : s.Sound) (hpoint : s.point ≠ .dequeuing) : s.requests.point none = .out := by
  apply side_outside
  cases hside : (s.requests.point none).side with
  | outside => rfl
  | putting => exact absurd hside hs.requesting
  | taking => exact absurd (hs.dequeuing.mp hside) hpoint

theorem stuck_of_points (hthread : s.thread = none) (hserving : ∀ rule, s.point ≠ .serving rule)
    (hrequests : ∀ k, s.requests.point k = .out ∨ s.requests.point k = .asleep)
    (hresponses : ∀ k, s.responses.point k = .out ∨ s.responses.point k = .asleep) : Stuck send dummy s := by
  intro a ha
  cases a with
  | thread => exact hthread
  | respond outcome =>
    cases hpoint : s.point with
    | serving rule => exact absurd hpoint (hserving rule)
    | _ => simp only [Session.step, hpoint]
  | take caller => rcases hresponses (some caller) with h | h <;> simp [Session.step, Monitor.step, h]
  | requests action =>
    cases action with
    | move i =>
      rcases hrequests i with h | h <;> simp [Session.step, Monitor.internal, Monitor.step, Monitor.move, h]
    | notify i sleeper =>
      rcases hrequests i with h | h <;> simp [Session.step, Monitor.internal, Monitor.step, Monitor.notify, h]
    | _ => cases ha
  | responses action =>
    cases action with
    | move i =>
      rcases hresponses i with h | h <;> simp [Session.step, Monitor.internal, Monitor.step, Monitor.move, h]
    | notify i sleeper =>
      rcases hresponses i with h | h <;> simp [Session.step, Monitor.internal, Monitor.step, Monitor.notify, h]
    | _ => cases ha
  | _ => exact ha.elim

inductive Rests (send : ρ → ω → Option (Option σ)) (s : Session ι ρ σ) : Prop
  | ended (h : s.point = .ended)
  | gone (rule : ρ) (h : s.point = .serving rule) (hsend : ∀ outcome, send rule outcome = none)
  | sleeps (h : s.point = .dequeuing) (hasleep : s.requests.point none = .asleep)
      (hflag : s.requests.flag = true)
      (hempty : s.requests.queue = [])

theorem Stuck.rests (h : Stuck send dummy s) (hs : s.Sound) : Rests send s := by
  obtain ⟨hpoints, hsleepers⟩ := h.requests.settled hs.requests.owned hs.requests.supplied
  obtain ⟨hpoints', -⟩ := h.responses.settled hs.responses.owned hs.responses.supplied
  have hthread := h .thread trivial
  cases hpoint : s.point with
  | raise =>
    simp only [Session.step, thread, hpoint, Monitor.step, Option.map_some] at hthread
    cases hthread
  | loop =>
    have hout := hs.out (by simp [hpoint])
    simp only [Session.step, thread, hpoint, Monitor.step, hout, Option.map_some] at hthread
    split at hthread <;> cases hthread
  | dequeuing =>
    have hside := hs.dequeuing.mpr hpoint
    rcases hpoints none with hout | hasleep | ⟨item, hgot⟩
    · rw [hout] at hside
      cases hside
    · by_cases hflag : s.requests.flag = true
      · exact .sleeps hpoint hasleep hflag (hsleepers hflag none hasleep)
      · have hended := hs.closing.ended h.requests hs.requests.owned hs.requests.supplied
          (Bool.eq_false_iff.mpr hflag)
        exact absurd hasleep hended
    · cases item <;> simp [Session.step, thread, hpoint, hgot, Monitor.step] at hthread
  | serving rule =>
    refine .gone rule hpoint fun outcome => ?_
    have hrespond := h (.respond outcome) trivial
    have hout := side_outside (hs.responding (by simp [hpoint]))
    cases hsend : send rule outcome with
    | none => rfl
    | some response =>
      cases response <;> simp [Session.step, hpoint, hsend, Monitor.step, hout] at hrespond
  | responding =>
    have hanswering := hs.answering
    rcases hpoints' none with hout | hasleep | ⟨item, hgot⟩
    · simp [Session.step, thread, hpoint, hout] at hthread
    · rw [hasleep] at hanswering
      exact absurd rfl hanswering
    · rw [hgot] at hanswering
      exact absurd rfl hanswering
  | ended => exact .ended hpoint

theorem Stuck.callers (h : Stuck send dummy s) (hs : s.Sound) (caller : ι) :
    s.requests.point (some caller) = .out ∧
      (s.responses.point (some caller) = .out ∨
        s.responses.point (some caller) = .asleep ∧ s.responses.queue = []) := by
  obtain ⟨hpoints, -⟩ := h.requests.settled hs.requests.owned hs.requests.supplied
  obtain ⟨hpoints', hsleepers⟩ := h.responses.settled hs.responses.owned hs.responses.supplied
  constructor
  · have hside : (s.requests.point (some caller)).side ≠ .taking := fun hk => by
      cases hs.closing.alone _ hk
    rcases hpoints (some caller) with hout | hasleep | ⟨item, hgot⟩
    · exact hout
    · rw [hasleep] at hside
      exact absurd rfl hside
    · rw [hgot] at hside
      exact absurd rfl hside
  · rcases hpoints' (some caller) with hout | hasleep | ⟨item, hgot⟩
    · exact .inl hout
    · exact .inr ⟨hasleep, hsleepers hs.flag _ hasleep⟩
    · have htake := h (.take caller) trivial
      simp [Session.step, Monitor.step, hgot] at htake

theorem kept_up (h : (machine send dummy).Reach (Serves kind) s) :
    (s.point ≠ .raise → s.requests.flag = true) ∧ s.point ≠ .ended := by
  refine h.invariant (I := fun s => (s.point ≠ .raise → s.requests.flag = true) ∧ s.point ≠ .ended) ?_ ?_
  · rintro s ⟨flag, rfl⟩
    exact ⟨fun hne => absurd rfl hne, by simp [Session.new]⟩
  · rintro s t a ⟨hflag, hended⟩ ha htaken
    cases step_cases htaken with
    | raised requests hpoint hstep =>
      cases hstep
      exact ⟨fun _ => rfl, by simp⟩
    | stopped hpoint hdown =>
      have hup := hflag (by simp [hpoint])
      rw [hdown] at hup
      cases hup
    | remove => exact ha.elim
    | dequeues requests hpoint hup hstep =>
      cases Monitor.step_cases hstep
      exact ⟨fun _ => hup, by simp⟩
    | received rule requests hpoint hgot hstep | released requests hpoint hgot hstep =>
      cases Monitor.step_cases hstep
      exact ⟨fun _ => hflag (by simp [hpoint]), by simp⟩
    | answered hpoint | unsupported outcome rule hpoint | responds outcome rule response responses hpoint =>
      exact ⟨fun _ => hflag (by simp [hpoint]), by simp⟩
    | submit caller rule requests hstep =>
      cases Monitor.step_cases hstep
      exact ⟨hflag, hended⟩
    | requests action requests hinternal hstep =>
      exact ⟨fun hne => (Monitor.flag_internal hstep hinternal).trans (hflag hne), hended⟩
    | _ => exact ⟨hflag, hended⟩

theorem inOrder_reach (hone : ∀ rule, kind rule → ∀ outcome, send rule outcome ≠ some none)
    (h : (machine send dummy).Reach (Serves kind) s) : Server.InOrder (answers send) s.server := by
  refine Server.inOrder_reach (fun rule hkind outcome responses hresponses => ?_) (server_reach h)
  obtain ⟨response, hresponse, rfl⟩ := Option.map_eq_some_iff.mp hresponses
  cases response with
  | none => exact absurd hresponse (hone rule hkind outcome)
  | some response => exact ⟨response, rfl⟩

theorem all_answered (hone : ∀ rule, kind rule → ∀ outcome, send rule outcome ≠ some none)
    (h : (machine send dummy).Reach (Serves kind) s) (hstuck : Stuck send dummy s)
    (hsend : ∀ rule, s.point = .serving rule → ∃ outcome, send rule outcome ≠ none) :
    s.requests.queue = [] ∧ (s.popped ++ s.responses.queue).map Prod.fst = s.submitted ∧
      ∀ e ∈ s.popped ++ s.responses.queue, ∃ outcome, send e.1 outcome = some (some e.2) := by
  obtain ⟨hup, hended⟩ := kept_up h
  cases hstuck.rests (sound_reach h) with
  | ended hpoint => exact absurd hpoint hended
  | gone rule hpoint hnone =>
    obtain ⟨outcome, houtcome⟩ := hsend rule hpoint
    exact absurd (hnone outcome) houtcome
  | sleeps hpoint hasleep hflag hempty =>
    obtain ⟨hpassed, hanswered⟩ := inOrder_reach hone h
    refine ⟨hempty, ?_, fun e he => ?_⟩
    · simpa [Server.passed, server, serverThread, hpoint, hasleep, hempty, Monitor.Point.item,
        Server.Thread.rule]
        using hpassed
    · obtain ⟨outcome, houtcome⟩ := hanswered e he
      exact ⟨outcome, answers_eq_singleton.mp houtcome⟩

theorem exec_bounded {allowed : Session ι ρ σ → Action ι ρ σ ω → Prop}
    (h : (machine send dummy).Reach allowed s)
    {actions : List (Action ι ρ σ ω)} (he : (machine send dummy).exec Inside s actions = some t) :
    actions.length ≤ s.potential := by
  have hlength := Machine.exec_length (I := Sound) potential
    (fun s t a hs ha hstep => ⟨hs.step hstep, potential_lt hstep ha hs⟩) (sound_reach h) he
  omega

theorem stays_down (h : s.step send dummy a = some t) (hdown : s.point ≠ .raise ∧ s.requests.flag = false) :
    t.point ≠ .raise ∧ t.requests.flag = false := by
  obtain ⟨hpoint, hflag⟩ := hdown
  cases step_cases h with
  | raised requests hraise => exact absurd hraise hpoint
  | dequeues requests hloop hup =>
    rw [hflag] at hup
    cases hup
  | received rule requests _ _ hstep | released requests _ _ hstep =>
    cases Monitor.step_cases hstep
    exact ⟨by simp, hflag⟩
  | submit caller rule requests hstep =>
    cases Monitor.step_cases hstep
    exact ⟨hpoint, hflag⟩
  | remove caller requests hstep =>
    cases Monitor.step_cases hstep
    exact ⟨hpoint, rfl⟩
  | requests action requests hinternal hstep =>
    exact ⟨hpoint, (Monitor.flag_internal hstep hinternal).trans hflag⟩
  | getResult | take | responses => exact ⟨hpoint, hflag⟩
  | stopped | answered | unsupported | responds => exact ⟨by simp, hflag⟩

def Finished (send : ρ → ω → Option (Option σ)) (s : Session ι ρ σ) : Prop :=
  s.point = .ended ∨ ∃ rule, s.point = .serving rule ∧ ∀ outcome, send rule outcome = none

theorem finished_of_down {allowed : Session ι ρ σ → Action ι ρ σ ω → Prop}
    (h : (machine send dummy).Reach allowed s)
    (hdown : s.point ≠ .raise ∧ s.requests.flag = false) {actions : List (Action ι ρ σ ω)}
    (he : (machine send dummy).exec Inside s actions = some t) (hstuck : Stuck send dummy t) :
    Finished send t := by
  have hreach : ((machine send dummy).resume s).Reach Inside t := Machine.reach_of_exec he
  have ht : (t.point ≠ .raise ∧ t.requests.flag = false) ∧ t.Sound := by
    refine hreach.invariant (I := fun t => (t.point ≠ .raise ∧ t.requests.flag = false) ∧ t.Sound) ?_ ?_
    · rintro _ rfl
      exact ⟨hdown, sound_reach h⟩
    · exact fun u v a hu _ hstep => ⟨stays_down hstep hu.1, hu.2.step hstep⟩
  cases hstuck.rests ht.2 with
  | ended hpoint => exact .inl hpoint
  | gone rule hpoint hsend => exact .inr ⟨rule, hpoint, hsend⟩
  | sleeps hpoint hasleep hup hempty =>
    rw [ht.1.2] at hup
    cases hup

end Progress

end Session

end Cheferd.Library
