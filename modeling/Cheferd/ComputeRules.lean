import Cheferd.CoreControlApplication

namespace Cheferd.CoreControlApplication

open Library

abbrev Enforcement := CoreControlApplication × List String

def setRate (job : String) (rate : ℤ) (core : CoreControlApplication) : CoreControlApplication :=
  { core with jobRates := core.jobRates.insert job rate }

def jobs (core : CoreControlApplication) : List String := core.jobLocationTracker.keys

def belowThreshold (core : CoreControlApplication) (job : String) : Bool :=
  |core.jobRates.read job - core.jobPreviousRates.read job| < iopsThreshold

def ratesFromDemands (core : CoreControlApplication) : CoreControlApplication :=
  core.jobDemands.entries.foldl (fun core e => if e.2 = -1 then core else setRate e.1 e.2 core) core

def enforceStatic (operation : String) (s : Enforcement) (app : Σ _ : String, Locations) :
    Except Fault Enforcement :=
  if s.1.belowThreshold app.1 then .ok (setRate app.1 (-1) s.1, s.2)
  else sendEnforcementRule app.1 app.2 operation s.1 s.2

def computeAndEnforceStaticRules (core : CoreControlApplication) : Except Fault Enforcement := do
  let (newOperation, core) ← updateJobDemands core
  let core := if newOperation = "" then core else { core with changeInSystem := true }
  if core.changeInSystem = false ∨ core.jobLocationTracker.entries = [] then return (core, [])
  else core.jobLocationTracker.entries.foldlM (enforceStatic core.activeOp) (ratesFromDemands core, [])

def assignShares : List String → ℤ → ℤ → CoreControlApplication → CoreControlApplication × ℤ
  | [], _, leftIops, core => (core, leftIops)
  | job :: rest, currentJobs, leftIops, core =>
    let share := leftIops.tdiv currentJobs
    let demand := core.jobDemands.read job
    if demand ≤ share then
      -- without a demand the job gets one unit, which becomes its demand
      let rate := if demand = -1 then 1 else demand
      assignShares rest (currentJobs - 1) (leftIops - rate)
        (setRate job rate { core with jobDemands := core.jobDemands.insert job rate })
    else assignShares rest (currentJobs - 1) (leftIops - share) (setRate job share core)

def enforceVanilla (operation : String) (leftover : ℤ) (s : Enforcement)
    (app : Σ _ : String, Locations) : Except Fault Enforcement :=
  let core := setRate app.1 (s.1.jobRates.read app.1 + leftover) s.1
  if core.changeInSystem = false ∧ core.belowThreshold app.1 then .ok (setRate app.1 (-1) core, s.2)
  else sendEnforcementRule app.1 app.2 operation core s.2

def computeAndEnforceDynamicVanillaRules (core : CoreControlApplication) : Except Fault Enforcement := do
  let (_, core) ← updateJobDemands core
  let currentJobs : ℤ := core.jobs.length
  if currentJobs = 0 then return (core, [])
  else
    let (core, leftIops) := assignShares core.jobs currentJobs core.maximumLimit core
    core.jobLocationTracker.entries.foldlM
      (enforceVanilla core.activeOp (leftIops.tdiv currentJobs)) (core, [])

def unsigned (v : ℤ) : ℤ := v % 2 ^ 64

def toLong (v : ℤ) : ℤ := if unsigned v < 2 ^ 63 then unsigned v else unsigned v - 2 ^ 64

def reportedRate (rates : Rates) (key : String) : ℚ :=
  match rates.lookup key with
  | none => 1
  | some rate => if rate = 0 then 1 else rate

/-- Each addition goes through a `double` and is cut back to a `long`. -/
def addRates (rates : Rates) (job : String) (envs : List ℤ) (total : ℤ) : ℤ :=
  envs.foldl (fun total env => Double.truncate (total + reportedRate rates (stageKey job env))) total

/-- A controller that was not asked in this round counts with the whole system for every stage; that
product is one of `unsigned long`. -/
def totalAppRate (dStats : Assoc String Rates) (sessionsSent : List String) (core : CoreControlApplication)
    (job : String) (locations : Locations) : List String → ℤ → Except Fault ℤ
  | [], total => .ok total
  | address :: rest, total =>
    let envs := (locations.lookup address).getD []
    if address ∈ sessionsSent then
      match dStats.lookup address with
      | none => .error (.outOfRange .dStats)
      | some rates => totalAppRate dStats sessionsSent core job locations rest (addRates rates job envs total)
    else totalAppRate dStats sessionsSent core job locations rest
      (total + envs.length * unsigned (core.maximumLimit * core.jobs.length))

structure Usage where
  perAppUsage : List (String × ℤ)
  systemTotalRate : ℤ
  leftIops : ℤ

def leftoverRate (demand totalRate : ℤ) (fairShare : ℚ) : ℤ :=
  if (totalRate : ℚ) ≤ demand * 0.95 then
    let threshold : ℚ := (demand - totalRate) * 0.25
    if totalRate + threshold < fairShare then Double.truncate (totalRate + threshold)
    else Double.truncate fairShare
  else if (demand : ℚ) < fairShare then demand
  else Double.truncate fairShare

/-- First phase. The arithmetic on `unsigned long` wraps; that on `float` and `double` is exact here. -/
def assignUsage (dStats : Assoc String Rates) (sessionsSent : List String) :
    List (Σ _ : String, Locations) → ℤ → CoreControlApplication → Usage →
      Except Fault (CoreControlApplication × Usage)
  | [], _, core, usage => .ok (core, usage)
  | app :: rest, currentJobs, core, usage => do
    let total ← totalAppRate dStats sessionsSent core app.1 app.2 (core.hash.order app.1 app.2.keys) 0
    let fairShare : ℚ := (usage.leftIops / currentJobs : ℤ)
    let rate := leftoverRate (core.jobDemands.read app.1) total fairShare
    assignUsage dStats sessionsSent rest (currentJobs - 1) (setRate app.1 rate core)
      { perAppUsage := usage.perAppUsage ++ [(app.1, unsigned total)]
        systemTotalRate := unsigned (usage.systemTotalRate + total)
        leftIops := unsigned (usage.leftIops - rate) }

def distributeLeftover (usage : Usage) (core : CoreControlApplication) : CoreControlApplication :=
  if usage.leftIops = 0 then core
  else usage.perAppUsage.foldl (fun core app =>
    setRate app.1 (core.jobRates.read app.1 +
      ⌊(app.2 : ℚ) / usage.systemTotalRate * usage.leftIops⌋) core) core

def maintained (systemTotalRate : ℤ) (core : CoreControlApplication) (job : String) : Bool :=
  let rate := core.jobRates.read job
  let difference := |rate - core.jobPreviousRates.read job|
  core.changeInSystem = false ∧
    ((difference : ℚ) < rate * 0.01 ∨
      ((systemTotalRate : ℚ) < 0.95 * core.maximumLimit ∧ (difference : ℚ) < rate * 0.05))

def variedPerc (systemTotalRate : ℤ) (core : CoreControlApplication) : ℚ :=
  let kept := core.jobs.filter (maintained systemTotalRate core)
  let changed := core.jobs.filter (! maintained systemTotalRate core ·)
  let maintainedRate := unsigned (kept.map core.jobPreviousRates.read).sum
  let updatedRate := unsigned (changed.map core.jobRates.read).sum
  if (systemTotalRate : ℚ) < 0.95 * core.maximumLimit ∧
      unsigned (maintainedRate + updatedRate) > unsigned core.maximumLimit then
    (toLong (core.maximumLimit - maintainedRate) : ℚ) / updatedRate
  else 1

def enforceLeftover (operation : String) (kept : List String) (perc : ℚ) (s : Enforcement)
    (app : Σ _ : String, Locations) : Except Fault Enforcement :=
  if app.1 ∈ kept then .ok s
  else
    sendEnforcementRule app.1 app.2 operation
      (setRate app.1 ⌊(unsigned (s.1.jobRates.read app.1) : ℚ) * perc⌋ s.1) s.2

def computeAndEnforceDynamicLeftoverRules (dStats : Assoc String Rates) (sessionsSent : List String)
    (core : CoreControlApplication) : Except Fault Enforcement := do
  let (_, core) ← updateJobDemands core
  if core.jobs = [] then return (core, [])
  else
    let (core, usage) ← assignUsage dStats sessionsSent core.jobLocationTracker.entries core.jobs.length core
      ⟨[], 0, unsigned core.maximumLimit⟩
    let core := distributeLeftover usage core
    let kept := core.jobs.filter (maintained usage.systemTotalRate core)
    core.jobLocationTracker.entries.foldlM
      (enforceLeftover core.activeOp kept (variedPerc usage.systemTotalRate core)) (core, [])

def computeAndEnforce (dStats : Assoc String Rates) (sessionsSent : List String)
    (core : CoreControlApplication) : Except Fault Enforcement :=
  match core.controlType with
  | .static => computeAndEnforceStaticRules core
  | .dynamicVanilla => computeAndEnforceDynamicVanillaRules core
  | .dynamicLeftover => computeAndEnforceDynamicLeftoverRules dStats sessionsSent core
  | .mds | .noop => .ok (core, [])

end Cheferd.CoreControlApplication
