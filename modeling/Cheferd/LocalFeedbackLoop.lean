import Cheferd.LocalInterface
import Cheferd.Library.Runs

namespace Cheferd.LocalFeedbackLoop

open Library

inductive Point
  | idle
  | handshaken (info : StageInfo)
  | submitted (info : StageInfo) (acknowledged pending : List String)
  | rejected (info : StageInfo) (acknowledged : List String)
  | readying (info : StageInfo) (acknowledged : List String)
  | connecting (info : StageInfo) (acknowledged : List String) (ready : ℤ)
deriving DecidableEq

/-- A call of `ConnectStageToGlobal`, with what the stage had acknowledged before; the source keeps no
such record. -/
structure Announcement where
  info : StageInfo
  acknowledged : List String
  ready : ℤ
deriving DecidableEq

structure LocalProcess where
  app : LocalControlApplication
  point : Point
  announced : List Announcement
deriving DecidableEq

inductive Action
  | handshake (info : StageInfo)
  | submit
  | acknowledge (value : ℤ)
  | count
  | ready (value : ℤ)
  | connect
deriving DecidableEq

/-- The status of `mark_stage_ready`, given the one of its `SubmitRule`. -/
def markStageReady (submitted : Bool) (value : ℤ) : Bool := if value = 1 then true else submitted

theorem markStageReady_submitted (value : ℤ) : markStageReady true value = true := by
  unfold markStageReady
  split <;> rfl

namespace LocalProcess

def start (rules : List String) : LocalProcess := ⟨.new rules, .idle, []⟩

def prepares (p : LocalProcess) (info : StageInfo) : Bool := info.key ∈ p.app.preparingDataSessions

def abandon (info : StageInfo) (p : LocalProcess) : LocalProcess :=
  { p with
    app := { p.app with preparingDataSessions := p.app.preparingDataSessions.erase info.key }
    point := .idle }

def compare (info : StageInfo) (acknowledged : List String) (installedRules : ℕ) (p : LocalProcess) :
    LocalProcess :=
  if installedRules = p.app.housekeepingRules.length then { p with point := .readying info acknowledged }
  else p.abandon info

def step (p : LocalProcess) (action : Action) : Option LocalProcess :=
  match p.point, action with
  -- A session that is prepared under the key is destroyed while its thread waits, which does not return.
  | .idle, .handshake info =>
    if p.prepares info then none
    else some { p with
      app := { p.app with
        preparingDataSessions := p.app.preparingDataSessions.insert info.key .new }
      point := if info.stageName = "" then .idle else .handshaken info }
  | .handshaken info, .submit =>
    if p.prepares info then some { p with point := .submitted info [] p.app.housekeepingRules } else none
  | .submitted info acknowledged (rule :: pending), .acknowledge value =>
    if p.prepares info then
      some { p with
        point :=
          if value = 1 then .submitted info (acknowledged ++ [rule]) pending
          else .rejected info acknowledged }
    else none
  | .submitted info acknowledged [], .count =>
    if p.prepares info then some (p.compare info acknowledged acknowledged.length) else none
  | .rejected info acknowledged, .count =>
    if p.prepares info then some (p.compare info acknowledged 0) else none
  | .readying info acknowledged, .ready value =>
    if p.prepares info then
      some (if markStageReady true value then { p with point := .connecting info acknowledged value }
        else p.abandon info)
    else none
  | .connecting info acknowledged ready, .connect =>
    some { p with point := .idle, announced := ⟨info, acknowledged, ready⟩ :: p.announced }
  | _, _ => none

end LocalProcess

def offeredBy : Point → Option StageInfo
  | .idle => none
  | .handshaken info | .submitted info _ _ | .rejected info _ | .readying info _ | .connecting info _ _ =>
    some info

inductive Offers (process process' : LocalProcess) (action : Action) : Prop
  | kept (happ : process'.app = process.app) (hoffered : offeredBy process'.point = offeredBy process.point)
  | started (info : StageInfo) (haction : action = .handshake info) (hidle : offeredBy process.point = none)
      (hnew : info.key ∉ process.app.preparingDataSessions)
      (hoffered : offeredBy process'.point = if info.stageName = "" then none else some info)
      (happ : process'.app = { process.app with
        preparingDataSessions := process.app.preparingDataSessions.insert info.key .new })
  | abandoned (info : StageInfo) (hbusy : offeredBy process.point = some info)
      (hprepared : info.key ∈ process.app.preparingDataSessions) (hoffered : offeredBy process'.point = none)
      (happ : process'.app = { process.app with
        preparingDataSessions := process.app.preparingDataSessions.erase info.key })

theorem compare_offers (process : LocalProcess) (action : Action)
    {info : StageInfo} (acknowledged : List String) (installedRules : ℕ)
    (hbusy : offeredBy process.point = some info) (hprepares : process.prepares info = true) :
    Offers process (process.compare info acknowledged installedRules) action := by
  unfold LocalProcess.compare
  split
  · exact .kept rfl (by rw [hbusy]; rfl)
  · exact .abandoned info hbusy (of_decide_eq_true hprepares) rfl rfl

theorem step_offers {process process' : LocalProcess} {action : Action}
    (h : process.step action = some process')
    (hquiet : ∀ info acknowledged ready, process.point = .connecting info acknowledged ready →
    action ≠ .connect) :
    Offers process process' action := by
  unfold LocalProcess.step at h
  split at h
  case h_1 info hp =>
    simp only [Option.ite_none_left_eq_some] at h
    obtain ⟨hnew, h⟩ := h
    cases h
    refine .started info rfl (by rw [hp]; rfl) (by simpa [LocalProcess.prepares] using hnew) ?_ rfl
    dsimp only
    split <;> rfl
  case h_2 info hp =>
    split at h <;> cases h
    exact .kept rfl (by rw [hp]; rfl)
  case h_3 info acknowledged rule pending value hp =>
    split at h <;> cases h
    refine .kept rfl ?_
    rw [hp]
    dsimp only
    split <;> rfl
  case h_4 info acknowledged hp =>
    split at h <;> cases h
    exact compare_offers process _ _ _ (by rw [hp]; rfl) ‹_›
  case h_5 info acknowledged hp =>
    split at h <;> cases h
    exact compare_offers process _ _ _ (by rw [hp]; rfl) ‹_›
  case h_6 info acknowledged value hp =>
    split at h
    case isTrue hprepares =>
      cases h
      split
      · exact .kept rfl (by rw [hp]; rfl)
      · exact .abandoned info (by rw [hp]; rfl) (of_decide_eq_true hprepares) rfl rfl
    case isFalse => cases h
  case h_7 info acknowledged ready hp => exact absurd rfl (hquiet info acknowledged ready hp)
  case h_8 => cases h

structure Controller where
  process : LocalProcess
  arriving : List String
deriving DecidableEq

inductive Move
  | stage (action : Action)
  | push
deriving DecidableEq

namespace Controller

def step (s : Controller) : Move → Option Controller
  | .stage action => (s.process.step action).map fun process => { s with process := process }
  | .push =>
    match s.arriving with
    | [] => none
    | rule :: rest =>
      match s.process.app.registerChannel rule with
      | .error _ => none
      | .ok app => some ⟨{ s.process with app := app }, rest⟩

end Controller

def machine (own rules : List String) : Machine Controller Move where
  start s := s = ⟨.start own, rules⟩
  step := Controller.step

def Configured (s : Controller) : Move → Prop
  | .stage .count => s.arriving = []
  | .stage (.ready value) => value = 1
  | _ => True

instance : ∀ s move, Decidable (Configured s move)
  | _, .stage .count | _, .stage (.ready _) => inferInstanceAs (Decidable (_ = _))
  | _, .stage (.handshake _) | _, .stage .submit | _, .stage (.acknowledge _) | _, .stage .connect | _, .push =>
    inferInstanceAs (Decidable True)

def Counted (s : Controller) : Move → Prop
  | .stage .count => s.arriving = []
  | _ => True

instance : ∀ s move, Decidable (Counted s move)
  | _, .stage .count => inferInstanceAs (Decidable (_ = _))
  | _, .stage (.ready _) | _, .stage (.handshake _) | _, .stage .submit | _, .stage (.acknowledge _)
  | _, .stage .connect | _, .push => inferInstanceAs (Decidable True)

variable {own rules : List String} {s t : Controller} {process : LocalProcess} {action : Action}

theorem Configured.counted {move : Move} (h : Configured s move) : Counted s move := by
  unfold Counted
  split
  · exact h
  · trivial

def Point.Holds (rules housekeepingRules : List String) : Point → Prop
  | .idle | .handshaken _ => True
  | .submitted _ acknowledged pending => acknowledged ++ pending <+: housekeepingRules
  | .rejected _ _ => housekeepingRules ≠ []
  | .readying _ acknowledged | .connecting _ acknowledged _ => acknowledged = rules

structure Installed (rules : List String) (s : Controller) : Prop where
  arriving : s.process.app.housekeepingRules ++ s.arriving = rules
  point : s.process.point.Holds rules s.process.app.housekeepingRules
  announced : ∀ a ∈ s.process.announced, a.acknowledged = rules

theorem Point.Holds.grow {point : Point} {housekeepingRules : List String} (rule : String)
    (h : point.Holds rules housekeepingRules) : point.Holds rules (housekeepingRules ++ [rule]) := by
  cases point with
  | submitted info acknowledged pending => exact h.trans (List.prefix_append _ _)
  | rejected info acknowledged => exact List.append_ne_nil_of_left_ne_nil h _
  | _ => exact h

theorem Installed.compare (hs : Installed rules s) {info : StageInfo}
    {acknowledged : List String} {installedRules : ℕ}
    (hcount : installedRules = s.process.app.housekeepingRules.length → acknowledged = rules) :
    Installed rules { s with process := s.process.compare info acknowledged installedRules } := by
  unfold LocalProcess.compare
  split
  case isTrue he => exact ⟨hs.arriving, hcount he, hs.announced⟩
  case isFalse => exact ⟨hs.arriving, trivial, hs.announced⟩

theorem Installed.stage (h : s.process.step action = some process) (hcounted : Counted s (.stage action))
    (hs : Installed rules s) :
    Installed rules { s with process := process } := by
  have hpoint := hs.point
  unfold LocalProcess.step at h
  split at h
  case h_1 info hidle =>
    split at h <;> cases h
    refine ⟨hs.arriving, ?_, hs.announced⟩
    dsimp only
    split <;> trivial
  case h_2 info hp =>
    split at h <;> cases h
    exact ⟨hs.arriving, List.prefix_rfl, hs.announced⟩
  case h_3 info acknowledged rule pending value hp =>
    split at h <;> cases h
    rw [hp] at hpoint
    have hinitial : acknowledged ++ rule :: pending <+: s.process.app.housekeepingRules := hpoint
    refine ⟨hs.arriving, ?_, hs.announced⟩
    dsimp only
    split
    · change acknowledged ++ [rule] ++ pending <+: _
      rwa [List.append_assoc, List.singleton_append]
    · change s.process.app.housekeepingRules ≠ []
      rintro hnil
      rw [hnil] at hinitial
      simpa using List.prefix_nil.mp hinitial
  case h_4 info acknowledged hp =>
    split at h <;> cases h
    rw [hp] at hpoint
    have hinitial : acknowledged <+: s.process.app.housekeepingRules := by simpa [Point.Holds] using hpoint
    refine hs.compare fun hlength => ?_
    rw [hinitial.eq_of_length hlength, ← hs.arriving, show s.arriving = [] from hcounted, List.append_nil]
  case h_5 info acknowledged hp =>
    split at h <;> cases h
    rw [hp] at hpoint
    refine hs.compare fun hlength => ?_
    exact absurd (List.length_eq_zero_iff.mp hlength.symm) hpoint
  case h_6 info acknowledged value hp =>
    split at h <;> cases h
    rw [hp] at hpoint
    rw [markStageReady_submitted, if_pos rfl]
    exact ⟨hs.arriving, hpoint, hs.announced⟩
  case h_7 info acknowledged ready hp =>
    cases h
    rw [hp] at hpoint
    refine ⟨hs.arriving, trivial, fun a ha => ?_⟩
    rcases List.mem_cons.mp ha with rfl | ha
    · exact hpoint
    · exact hs.announced a ha
  case h_8 => cases h

theorem Installed.step {move : Move} (h : s.step move = some t) (hcounted : Counted s move)
    (hs : Installed rules s) : Installed rules t := by
  cases move with
  | stage action =>
    obtain ⟨process, hstep, rfl⟩ := Option.map_eq_some_iff.mp h
    exact hs.stage hstep hcounted
  | push =>
    unfold Controller.step at h
    dsimp only at h
    split at h
    · cases h
    case h_2 rule rest harriving =>
      split at h
      · cases h
      case h_2 app happ =>
        cases h
        have hrules : app.housekeepingRules = s.process.app.housekeepingRules ++ [rule] := by
          rw [LocalControlApplication.registerChannel_ok happ]
        refine ⟨?_, ?_, hs.announced⟩
        · rw [← hs.arriving, harriving, hrules, List.append_assoc, List.singleton_append]
        · rw [hrules]
          exact hs.point.grow rule

theorem installed_reach {allowed : Controller → Move → Prop}
    (hallowed : ∀ s move, allowed s move → Counted s move)
    (h : (machine own rules).Reach allowed s) : Installed (own ++ rules) s :=
  h.invariant
    (fun s hs => by
      cases hs
      exact ⟨rfl, trivial, fun a ha => absurd ha List.not_mem_nil⟩)
    fun s t move hs ha hstep => hs.step hstep (hallowed s move ha)

structure Readied (p : LocalProcess) : Prop where
  point : ∀ info acknowledged ready, p.point = .connecting info acknowledged ready → ready = 1
  announced : ∀ a ∈ p.announced, a.ready = 1

theorem Readied.stage (h : s.process.step action = some process) (hconfigured : Configured s (.stage action))
    (hs : Readied s.process) : Readied process := by
  have hcompare : ∀ info acknowledged installedRules,
      Readied (s.process.compare info acknowledged installedRules) := by
    intro info acknowledged installedRules
    unfold LocalProcess.compare
    split <;> exact ⟨nofun, hs.announced⟩
  unfold LocalProcess.step at h
  split at h
  case h_1 info hp =>
    split at h <;> cases h
    refine ⟨?_, hs.announced⟩
    dsimp only
    split <;> exact nofun
  case h_2 info hp =>
    split at h <;> cases h
    exact ⟨nofun, hs.announced⟩
  case h_3 info acknowledged rule pending value hp =>
    split at h <;> cases h
    refine ⟨?_, hs.announced⟩
    dsimp only
    split <;> exact nofun
  case h_4 info acknowledged hp =>
    split at h <;> cases h
    exact hcompare _ _ _
  case h_5 info acknowledged hp =>
    split at h <;> cases h
    exact hcompare _ _ _
  case h_6 info acknowledged value hp =>
    split at h <;> cases h
    rw [markStageReady_submitted, if_pos rfl]
    refine ⟨?_, hs.announced⟩
    rintro _ _ _ ⟨⟩
    exact hconfigured
  case h_7 info acknowledged ready hp =>
    cases h
    exact ⟨nofun, List.forall_mem_cons.mpr ⟨hs.point info acknowledged ready hp, hs.announced⟩⟩
  case h_8 => cases h

theorem Readied.step {move : Move} (h : s.step move = some t) (hconfigured : Configured s move)
    (hs : Readied s.process) : Readied t.process := by
  cases move with
  | stage action =>
    obtain ⟨process, hstep, rfl⟩ := Option.map_eq_some_iff.mp h
    exact hs.stage hstep hconfigured
  | push =>
    unfold Controller.step at h
    dsimp only at h
    split at h
    · cases h
    · split at h <;> cases h
      exact ⟨hs.point, hs.announced⟩

theorem readied_reach (h : (machine own rules).Reach Configured s) : Readied s.process :=
  h.invariant (I := fun s => Readied s.process)
    (fun s hs => by
      cases hs
      exact ⟨nofun, fun a ha => absurd ha List.not_mem_nil⟩)
    fun s t move hs hconfigured hstep => hs.step hstep hconfigured

theorem announced_configured (h : (machine own rules).Reach Configured s) {a : Announcement}
    (ha : a ∈ s.process.announced) :
    (∀ rule ∈ own ++ rules, rule ∈ a.acknowledged) ∧ a.ready = 1 := by
  have hacknowledged := (installed_reach (fun _ _ => Configured.counted) h).announced a ha
  exact ⟨fun rule hr => hacknowledged ▸ hr, (readied_reach h).announced a ha⟩

def connection (push : List Move) (ready : ℤ) : List Move :=
  push ++ [.stage (.handshake ⟨"j", 1, "u", "A"⟩), .stage .submit] ++
    push.map (fun _ => .stage (.acknowledge 1)) ++ [.stage .count, .stage (.ready ready), .stage .connect]

def channelRule : String := "4|1|create_channel|1000|posix|1000|data|no_op|"

theorem announced_configured_one_rule :
    ∃ s a, (machine [] [channelRule]).Reach Configured s ∧ a ∈ s.process.announced ∧
      (∀ rule ∈ [] ++ [channelRule], rule ∈ a.acknowledged) ∧ a.ready = 1 := by
  obtain ⟨s, hs, hannounced⟩ : ∃ s, (machine [] [channelRule]).exec Configured ⟨.start [], [channelRule]⟩
      (connection [.push] 1) = some s ∧ s.process.announced.length = 1 := by
    refine ⟨((machine [] [channelRule]).exec Configured ⟨.start [], [channelRule]⟩
      (connection [.push] 1)).getD ⟨.start [], []⟩, ?_, ?_⟩ <;> decide
  have hreach := (Machine.Reach.start (rfl : (machine [] [channelRule]).start _)).exec hs
  obtain ⟨a, ha⟩ := List.exists_mem_of_length_pos (by omega : 0 < s.process.announced.length)
  exact ⟨s, a, hreach, ha, announced_configured hreach ha⟩

theorem announced_unconfigured :
    ∃ s, (machine [] [channelRule]).Reach (fun _ _ => True) s ∧
      s.process.announced = [⟨⟨"j", 1, "u", "A"⟩, [], 0⟩] ∧
      ¬ ∀ a ∈ s.process.announced, (∀ rule ∈ [channelRule], rule ∈ a.acknowledged) ∧ a.ready = 1 := by
  obtain ⟨s, hs, hannounced⟩ : ∃ s, (machine [] [channelRule]).exec (fun _ _ => True) ⟨.start [], [channelRule]⟩
      (connection [] 0) = some s ∧ s.process.announced = [⟨⟨"j", 1, "u", "A"⟩, [], 0⟩] := by
    refine ⟨((machine [] [channelRule]).exec (fun _ _ => True) ⟨.start [], [channelRule]⟩
      (connection [] 0)).getD ⟨.start [], []⟩, ?_, ?_⟩ <;> decide
  refine ⟨s, (Machine.Reach.start (rfl : (machine [] [channelRule]).start _)).exec hs, hannounced, ?_⟩
  rw [hannounced]
  decide

end Cheferd.LocalFeedbackLoop
