import Mathlib.Algebra.Order.Field.Rat
import Skyr.De.Eval

/-!
# One iteration of a worker

The worker of a deployment runs one iteration every few seconds.  It reads the deployment's state
and does what that state asks for: a desired deployment is evaluated, a lingering one waits for its
successor to be bootstrapped, an undesired one is torn down, and one that is down is left alone.
Every iteration ends in one status report.

An iteration is many statements long, and other workers, pushes and teardowns go on meanwhile.
-/

namespace Skyr.De

variable [SclData]

open Cdb DeploymentState

/-! ## Reports and back-off -/

/-- What an iteration reports. -/
inductive IterationOutcome
  | success
  | failure (kind : FailureKind) (errorMessage : String)

def IterationOutcome.toOutcome : IterationOutcome → Outcome
  | success => .success
  | failure kind errorMessage => .failure kind.category errorMessage

/-- What an iteration observed and decided. -/
structure WorkResult where
  keepRunning : Bool
  state : DeploymentState
  outcome : IterationOutcome
  isBackoffReplay : Bool

/-- An ordinary, successful end of an iteration. -/
def WorkResult.success (state : DeploymentState) : WorkResult := ⟨true, state, .success, false⟩

def operationalStateFor : DeploymentState → DeploymentOperationalState
  | desired => .desired
  | lingering => .lingering
  | undesired => .undesired
  | down => .down

def buildDeploymentReport (qid : DeploymentQid) (state : DeploymentState) (terminal : Bool)
    (outcome : IterationOutcome) : Report :=
  .deployment qid outcome.toOutcome (operationalStateFor state) terminal

/-- The back-off after a number of consecutive failures, in milliseconds: five seconds, growing by
a tenth with every further failure, up to a day.  The exponent is the count less one read as a
signed 32-bit number, as in the code. -/
def backoffDuration (failures : ℕ) : ℚ :=
  if failures = 0 then 0
  else min (5000 * (11 / 10 : ℚ) ^ (BitVec.ofNat 32 (failures - 1)).toInt) 86400000

/-- What the status database has to say before an iteration. -/
structure SdbPreview where
  consecutiveFailureCount : Option ℕ
  deploymentHasOpenCrash : Bool
  anyResourceHasOpenCrash : Bool

def SdbPreview.anyOpenCrash (p : SdbPreview) : Bool :=
  p.deploymentHasOpenCrash || p.anyResourceHasOpenCrash

def SdbPreview.failureCount (p : SdbPreview) : ℕ := p.consecutiveFailureCount.getD 0

/-- Whether any of the resources has an open crash; the first one that has ends the search. -/
def anyOpenCrash (wk : Worker) : List Rdb.Resource → M Bool
  | [] => return false
  | r :: rest => do
    if r.owner ≠ some wk.ownerQid then anyOpenCrash wk rest
    else if ← M.resourceHasOpenCrash (wk.resourceRef r.id) then return true
    else anyOpenCrash wk rest

/-- `read_sdb_preview`.  No error gets out of it. -/
def readSdbPreview (wk : Worker) : M SdbPreview := do
  let failures ← M.consecutiveFailureCount wk.client
  let openCrash ← M.deploymentHasOpenCrash wk.client
  match ← wk.ns.listResources.attempt with
  | .error _ => return ⟨failures, openCrash, false⟩
  | .ok rows => return ⟨failures, openCrash, ← anyOpenCrash wk rows.items⟩

/-! ## Tearing down -/

/-- A resource of this deployment. -/
def isOwned (wk : Worker) (r : Rdb.Resource) : Bool := r.owner == some wk.ownerQid

def isSticky (r : Rdb.Resource) : Bool := r.markers.contains .sticky

/-- Ask for the destruction of a resource. -/
def destroyResource (wk : Worker) (id : ResourceId) : M Unit :=
  M.enqueue id.region (.destroy
    { resource := wk.resourceRef id, deploymentId := wk.client.deployment
      homeRegion := wk.region })

/-- The resources of this deployment that an evaluation did not touch. -/
def untouchedOwned (wk : Worker) (touched : List ResourceId) (all : List Rdb.Resource) :
    List Rdb.Resource :=
  all.filter fun r => isOwned wk r && !touched.contains r.id

/-- What the resources that stay depend on, as `destroy_untouched_resources` sees it: those of
other deployments, and those touched. -/
def touchedDependencyTargets (wk : Worker) (touched : List ResourceId)
    (all : List Rdb.Resource) : List ResourceId :=
  (all.filter fun r => !isOwned wk r || touched.contains r.id).flatMap Rdb.Resource.dependencies

/-- The untouched resources that are to be destroyed. -/
def untouchedTargets (wk : Worker) (touched : List ResourceId) (all : List Rdb.Resource) :
    List ResourceId :=
  ((untouchedOwned wk touched all).filter fun r =>
    !isSticky r && !(touchedDependencyTargets wk touched all).contains r.id).map Rdb.Resource.id

def destroyUntouchedResources (wk : Worker) (touched : List ResourceId) : M Unit := do
  let all ← wk.ns.collectResources
  (untouchedTargets wk touched all).forM (destroyResource wk)

/-- What the resources that stay depend on, as `run_undesired` sees it: all but the sticky ones of
this deployment. -/
def livingDependencyTargets (wk : Worker) (all : List Rdb.Resource) : List ResourceId :=
  (all.filter fun r => !(isOwned wk r && isSticky r)).flatMap Rdb.Resource.dependencies

/-- The resources of an undesired deployment that are to be destroyed now. -/
def undesiredTargets (wk : Worker) (all : List Rdb.Resource) : List ResourceId :=
  ((all.filter (isOwned wk)).filter fun r =>
    !isSticky r && !(livingDependencyTargets wk all).contains r.id).map Rdb.Resource.id

/-- The undesired state: destroy what nothing depends on; when only sticky resources are left, the
deployment is down. -/
def runUndesired (wk : Worker) : M Unit := do
  let all ← wk.ns.collectResources
  (undesiredTargets wk all).forM (destroyResource wk)
  if !(undesiredTargets wk all).isEmpty then return ()
  else if (all.filter (isOwned wk)).all isSticky then
    DeploymentClient.set wk.client down
  else return ()

/-! ## The desired and the lingering state -/

/-- A superseded deployment that has not begun to come down does so now. -/
def transitionToUndesired (superseded : DeploymentQid) : M Unit := do
  let d ← DeploymentClient.get superseded
  if d.state = desired ∨ d.state = lingering then DeploymentClient.set superseded undesired
  else return ()

def transitionSupersededToUndesired (wk : Worker) : M Unit := do
  (← DeploymentClient.superseded wk.client).forM transitionToUndesired

/-- When nothing is in motion any more, the deployment is bootstrapped and its predecessors come
down. -/
def conclude (wk : Worker) (deployment : Deployment) (outcome : EvalOutcome) : M WorkResult := do
  if outcome.hadEffect then return .success desired
  else
    if !deployment.bootstrapped then DeploymentClient.setProgress wk.client true
    transitionSupersededToUndesired wk
    -- Nothing inside can change any more: the worker goes idle.
    if !outcome.hasVolatileOwnedResource && !outcome.hasVolatileCrossRepoPins then
      return ⟨false, desired, .success, false⟩
    else return .success desired

/-- What follows a successful evaluation. -/
def settleOutcome (wk : Worker) (deployment : Deployment) (outcome : EvalOutcome) :
    M WorkResult := do
  match outcome.compileErrorMessage with
  | some message => return ⟨true, desired, .failure .badConfiguration message, false⟩
  | none =>
    if outcome.fullyExplored then
      destroyUntouchedResources wk outcome.touchedResourceIds
    conclude wk deployment outcome

/-- A commit without `Main.scl` has nothing to evaluate. -/
def runWithoutMain (wk : Worker) (deployment : Deployment) : M WorkResult := do
  if !deployment.bootstrapped then
    DeploymentClient.setProgress wk.client true
    transitionSupersededToUndesired wk
  return ⟨false, desired, .success, false⟩

/-- The iteration proper of a desired deployment.  The worker is returned even when the iteration
fails, with what it has come to remember by then. -/
def reconcile (wk : Worker) (deployment : Deployment) : M (Except String WorkResult × Worker) := do
  match ← (DeploymentClient.getSuperseding wk.client).attempt with
  | .error e => return (.error e, wk)
  | .ok (some _) =>
    let result ← (DeploymentClient.set wk.client lingering).attempt
    return (result.map fun _ => .success desired, wk)
  | .ok none =>
    match ← (DeploymentClient.pathHash wk.client "Main.scl").attempt with
    | .error e => return (.error e, wk)
    | .ok none => return (← (runWithoutMain wk deployment).attempt, wk)
    | .ok (some _) =>
      let (outcome, wk) ← compileAndEvaluate wk
      match outcome with
      | .ok outcome => return (← (settleOutcome wk deployment outcome).attempt, wk)
      | .error e => return (.ok ⟨true, desired, .failure .cannotProgress e, false⟩, wk)

/-- The last failure, as long as the back-off for it lasts. -/
def backingOff (wk : Worker) (failureCount : ℕ) : M (Option (FailureKind × String)) := do
  if failureCount = 0 then return none
  else
    match wk.lastFailure with
    | none => return none
    | some (lastFailureAt, kind, error) =>
      let now ← M.now
      if ((now - lastFailureAt : ℕ) : ℚ) < backoffDuration failureCount then
        return some (kind, error)
      else return none

/-- The desired state. -/
def runDesired (wk : Worker) (deployment : Deployment) (preview : SdbPreview) :
    M (Except String WorkResult × Worker) := do
  if preview.anyOpenCrash then return (.ok (.success desired), wk)
  else
    match ← backingOff wk preview.failureCount with
    | some (kind, error) => return (.ok ⟨true, desired, .failure kind error, true⟩, wk)
    | none => reconcile wk deployment

/-- Follow the chain of supersessions from `cursor` to its end; when the deployment there is
bootstrapped, this one becomes undesired.  A chain that comes back to where it has been is left.
`fuel` bounds the length of the walk. -/
def followChain (wk : Worker) : ℕ → DeploymentQid → List DeploymentId → M Unit
  | 0, _, _ => .fail "the chain of supersessions is too long"
  | fuel + 1, cursor, seen => do
    match ← DeploymentClient.getSuperseding cursor with
    | none => return ()
    | some superseding =>
      let d ← DeploymentClient.get superseding
      if seen.contains d.qid.deployment then return ()
      else
        match ← DeploymentClient.getSuperseding superseding with
        | none =>
          if d.bootstrapped then DeploymentClient.set wk.client undesired
          else return ()
        | some _ => followChain wk fuel superseding (d.qid.deployment :: seen)

/-- The lingering state. -/
def runLingering (fuel : ℕ) (wk : Worker) : M Unit := followChain wk fuel wk.client []

/-! ## The iteration -/

/-- Do what the state asks for. -/
def dispatch (fuel : ℕ) (wk : Worker) (deployment : Deployment) (preview : SdbPreview) :
    M (Except String WorkResult × Worker) := do
  match deployment.state with
  | down => return (.ok (.success down), wk)
  | desired => runDesired wk deployment preview
  | lingering => return ((← (runLingering fuel wk).attempt).map fun _ => .success lingering, wk)
  | undesired => return ((← (runUndesired wk).attempt).map fun _ => .success undesired, wk)

/-- Read the state, do what it asks for, and read it once more: the state reported is the one at
the end. -/
def work (fuel : ℕ) (wk : Worker) (preview : SdbPreview) :
    M (Except String WorkResult × Worker) := do
  match ← (DeploymentClient.get wk.client).attempt with
  | .error e => return (.error e, wk)
  | .ok deployment =>
    let (result, wk) ← dispatch fuel wk deployment preview
    match result with
    | .error e => return (.error e, wk)
    | .ok result =>
      match ← (DeploymentClient.get wk.client).attempt with
      | .error e => return (.error e, wk)
      | .ok final =>
        return (.ok { result with state := final.state },
          { wk with lastObservedState := some final.state })

/-- Publish a report; a failure to do so is only logged. -/
def publishReport (wk : Worker) (report : Report) : M Unit := do
  let _ ← (M.report wk.region report).attempt

/-- Publish a terminal report, trying again when that fails. -/
def publishTerminalReport (wk : Worker) (report : Report) : ℕ → M Unit
  | 0 => return ()
  | attempts + 1 => do
    match ← (M.report wk.region report).attempt with
    | .ok _ => return ()
    | .error _ => publishTerminalReport wk report attempts

def maxAttempts : ℕ := 12

/-- What is reported of an iteration that failed half-way. -/
def WorkResult.ofError (wk : Worker) (error : String) : WorkResult :=
  ⟨true, wk.lastObservedState.getD desired, .failure .systemError error, false⟩

/-- Remember a failure, unless it is a replayed one. -/
def noteFailure (wk : Worker) (result : WorkResult) : M Worker := do
  match result.outcome with
  | .success => return { wk with lastFailure := none }
  | .failure kind errorMessage =>
    if result.isBackoffReplay then return wk
    else return { wk with lastFailure := some (← M.now, kind, errorMessage) }

/-- One iteration and its report; whether the worker's loop ends with it. -/
def workAndReport (fuel : ℕ) (wk : Worker) : M (Bool × Worker) := do
  if wk.terminalReported then return (true, wk)
  else
    let preview ← readSdbPreview wk
    let (result, wk) ← work fuel wk preview
    let result := match result with
      | .ok result => result
      | .error e => .ofError wk e
    let wk ← noteFailure wk result
    let isTerminal := result.state == down || !result.keepRunning
    let report := buildDeploymentReport wk.client result.state isTerminal result.outcome
    if isTerminal then
      publishTerminalReport wk report maxAttempts
      return (true, { wk with terminalReported := true })
    else
      publishReport wk report
      return (false, wk)

end Skyr.De

/-! ## A worker

The worker of a deployment of `shop` in the region `eu`, for the concrete runs further on. -/

namespace Skyr.De

local instance : SclData := .nat

def shopWorker : Worker where
  client := ⟨⟨⟨⟨"acme"⟩, ⟨"shop"⟩⟩, ⟨"main"⟩⟩, ⟨⟨1⟩, ⟨1⟩⟩⟩
  region := ⟨"eu"⟩
  lastFailure := none
  cachedCompile := none
  terminalReported := false
  lastObservedState := none

end Skyr.De
