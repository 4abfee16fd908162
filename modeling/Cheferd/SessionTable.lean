import Cheferd.LoopSteps

namespace Cheferd.FeedbackLoop

open Library CoreControlApplication LocalControllerSession

variable {p : Process} {core core' core₁ : CoreControlApplication}
    {sessions sessions' : Assoc String LocalControllerSession}
  {session session' : LocalControllerSession} {address rule : String} {expected : String → List String → Prop}

def Holds (sessions : Assoc String LocalControllerSession) (expected : String → List String → Prop) : Prop :=
  ∀ address session, sessions.lookup address = some session →
    expected address session.outstanding ∧ ∀ e ∈ session.completionQueue, Answers e.1 e.2

theorem Holds.mono {expected' : String → List String → Prop} (h : Holds sessions expected)
    (hsub : ∀ a session, sessions'.lookup a = some session → sessions.lookup a = some session)
    (himp : ∀ a outstanding, a ∈ sessions' → expected a outstanding → expected' a outstanding) :
    Holds sessions' expected' := by
  intro a session hs
  obtain ⟨hexpected, hanswered⟩ := h a session (hsub a session hs)
  exact ⟨himp a _ (AList.lookup_isSome.mp (by rw [hs]; rfl)) hexpected, hanswered⟩

theorem Holds.owing {own : List String} {owed : String → List String}
    (h : Holds sessions fun a outstanding => if a = address then outstanding = own else outstanding = owed a) :
    Holds sessions fun a outstanding => outstanding = if a = address then own else owed a := by
  intro a session hs
  obtain ⟨hexpected, hanswered⟩ := h a session hs
  refine ⟨?_, hanswered⟩
  dsimp only at hexpected ⊢
  by_cases ha : a = address
  · rwa [if_pos ha] at hexpected ⊢
  · rwa [if_neg ha] at hexpected ⊢

theorem Holds.served {reply : Reply} (h : Holds sessions expected)
    (hsupported : ∀ outstanding, expected address outstanding → ∀ rule ∈ outstanding, Supported rule)
    (hsession : sessions.lookup address = some session) (hserve : session.serve reply = some session') :
    Holds (sessions.insert address session') expected := by
  intro a other ho
  rw [Assoc.lookup_insert_eq] at ho
  split at ho
  case isTrue ha =>
    cases ho
    obtain ⟨hexpected, hanswered⟩ := h address session hsession
    obtain ⟨hsame, hanswered'⟩ := serve_spec hserve (hsupported _ hexpected) hanswered
    rw [ha, hsame]
    exact ⟨hexpected, hanswered'⟩
  case isFalse => exact h a other ho

theorem Holds.submitted (h : Holds sessions expected)
    (hfree : ∀ outstanding, expected address outstanding → outstanding = [])
    (hsession : session = (sessions.lookup address).getD .new)
    (hlookup : ∀ a, sessions'.lookup a =
      if a = address then some (session.submitRule rule) else sessions.lookup a) :
    Holds sessions' fun a outstanding =>
      if a = address then outstanding = [rule] else expected a outstanding := by
  have hfound : session.outstanding = [] ∧ ∀ e ∈ session.completionQueue, Answers e.1 e.2 := by
    cases hl : sessions.lookup address with
    | none =>
      rw [hsession, hl]
      exact ⟨rfl, fun e he => absurd he List.not_mem_nil⟩
    | some found =>
      rw [hsession, hl]
      exact ⟨hfree _ (h address found hl).1, (h address found hl).2⟩
  intro a other ho
  rw [hlookup] at ho
  dsimp only
  by_cases ha : a = address
  · rw [if_pos ha] at ho
    cases ho
    rw [if_pos ha, outstanding_submitRule, hfound.1]
    exact ⟨rfl, hfound.2⟩
  · rw [if_neg ha] at ho
    rw [if_neg ha]
    exact h a other ho

theorem Takes.lookup {response : StageResponse} (h : Takes p address rule response core) :
    ∃ session session', p.core.localSessions.lookup address = some session ∧
      session.getResult = some ((rule, response), session') ∧
      ∀ a, core.localSessions.lookup a = if a = address then some session'
      else p.core.localSessions.lookup a := by
  obtain ⟨session, session', hl, hr, rfl⟩ := h.exists_session
  exact ⟨session, session', hl, hr, fun a => Assoc.lookup_insert_eq _ _ _ _⟩

theorem Takes.holds {response : StageResponse} (htakes : Takes p address rule response core)
    (h : Holds p.core.localSessions expected) :
    ∃ rest, expected address (rule :: rest) ∧ Answers rule response ∧ Holds core.localSessions
      fun a outstanding => if a = address then outstanding = rest else expected a outstanding := by
  obtain ⟨session, session', hl, hr, hlookup⟩ := htakes.lookup
  obtain ⟨hqueue, _⟩ := getResult_eq_some hr
  obtain ⟨hexpected, hanswered⟩ := h address session hl
  rw [hqueue] at hanswered
  rw [outstanding_getResult hr] at hexpected
  refine ⟨session'.outstanding, hexpected, hanswered (rule, response) List.mem_cons_self, fun a other ho => ?_⟩
  rw [hlookup] at ho
  dsimp only
  by_cases ha : a = address
  · rw [if_pos ha] at ho
    cases ho
    rw [if_pos ha]
    exact ⟨rfl, fun e he => hanswered e (List.mem_cons_of_mem _ he)⟩
  · rw [if_neg ha] at ho
    rw [if_neg ha]
    exact h a other ho

theorem Holds.requested (h : Holds core.localSessions expected)
    (hfree : ∀ a outstanding, expected a outstanding → outstanding = []) (subtype : ℤ) :
    Holds (Process.requestStatistics subtype (Process.sessionOrder core) core).localSessions
      fun a outstanding =>
      a ∈ Process.sessionOrder core ∧
        outstanding = if core.stagesOf a ≠ [] then [collectStatisticsRule subtype] else [] := by
  intro a session hs
  rw [requestStatistics_lookup subtype (sessionOrder_nodup core)] at hs
  obtain ⟨before, hbefore, rfl⟩ := Option.map_eq_some_iff.mp hs
  obtain ⟨hexpected, hanswered⟩ := h a before hbefore
  have hnil := hfree a _ hexpected
  have hmem : a ∈ Process.sessionOrder core :=
    mem_sessionOrder.mpr (AList.lookup_isSome.mp (by rw [hbefore]; rfl))
  refine ⟨⟨hmem, ?_⟩, ?_⟩
  · by_cases hn : core.stagesOf a = []
    · simp [hn, hnil]
    · rw [if_pos ⟨hmem, hn⟩, if_pos hn, outstanding_submitRule, hnil, List.nil_append]
  · split
    · exact hanswered
    · exact hanswered

theorem Holds.ruled {operation : String} {apps : List (Σ _ : String, Locations)} {rules : List EnforcementRule}
    {updated : List String} (h : Holds core.localSessions expected)
    (hfree : ∀ a outstanding, expected a outstanding → outstanding = []) (hprepared : Prepared core core₁)
    (hr : Requests operation apps rules (core₁, []) (core', updated)) :
    Holds core'.localSessions fun a outstanding =>
      outstanding = (rules.filter (a ∈ ·.localToEnvs)).map (·.request a) := by
  have hsessions : core₁.localSessions = core.localSessions := by
    obtain ⟨_, _, _, _, _, rfl, _⟩ := hprepared
    rfl
  intro a session hs
  rw [show core'.localSessions.lookup a = _ from hr.sessions a, hsessions] at hs
  obtain ⟨before, hbefore, rfl⟩ := Option.map_eq_some_iff.mp hs
  obtain ⟨hexpected, hanswered⟩ := h a before hbefore
  refine ⟨?_, hanswered⟩
  rw [LocalControllerSession.outstanding, ← List.append_assoc]
  exact congrArg (· ++ _) (hfree a _ hexpected)

end Cheferd.FeedbackLoop
