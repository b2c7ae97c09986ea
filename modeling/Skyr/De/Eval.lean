import Skyr.Cdb.Client
import Skyr.Rdb.Client

/-!
# Compiling and evaluating a deployment

One iteration of a desired deployment resolves its dependencies, compiles its program unless the
last compilation still stands, puts together what the program gets to see (`gather`), evaluates it,
and turns the effects it announced into transition messages (`drain`).

What the engine concludes from an evaluation is in the `EvalOutcome`: which resources were touched,
whether everything was explored, whether anything is still in motion.  It is computed from the
effects alone.  In particular the error an evaluation ends in goes to the log and nowhere else,
and effects announced in the name of another deployment, or of none, are dropped before they are
counted.
-/

namespace Skyr.De

variable [SclData]

/-! ## The worker -/

/-- How a failed iteration is classified. -/
inductive FailureKind
  | badConfiguration
  | cannotProgress
  | systemError
deriving DecidableEq

def FailureKind.category : FailureKind → IncidentCategory
  | badConfiguration => .badConfiguration
  | cannotProgress => .cannotProgress
  | systemError => .systemError

/-- The program of the last compilation and the dependencies it was compiled against. -/
structure CachedCompile where
  key : List (RepoQid × ObjId)
  asg : Program

/-- The worker of one deployment: where it is, and what it remembers between iterations. -/
structure Worker where
  client : DeploymentQid
  region : RegionId
  /-- When and how the last iteration failed, if it did. -/
  lastFailure : Option (ℕ × FailureKind × String)
  cachedCompile : Option CachedCompile
  terminalReported : Bool
  lastObservedState : Option DeploymentState

namespace Worker

variable (wk : Worker)

def environmentQid : EnvironmentQid := wk.client.environment

/-- The text by which a deployment owns resources. -/
def ownerQid : String := wk.client.toString

/-- The environment's resources in the home region. -/
def ns : Rdb.NamespaceClient := ⟨wk.region, wk.environmentQid.toString⟩

def resourceRef (id : ResourceId) : ResourceRef := ⟨wk.environmentQid, id⟩

def mapDependencies (deps : List ResourceId) : List ResourceRef := deps.map wk.resourceRef

end Worker

/-- What an evaluation came to. -/
structure EvalOutcome where
  touchedResourceIds : List ResourceId
  /-- No create or update was announced. -/
  fullyExplored : Bool
  /-- A create, an update or an adoption was announced. -/
  hadEffect : Bool
  compileErrorMessage : Option String
  hasVolatileOwnedResource : Bool
  hasVolatileCrossRepoPins : Bool

/-! ## What the program gets to see -/

/-- A stored resource as the evaluator sees it.  Missing columns read as empty records. -/
def toSclc (r : Rdb.Resource) : Resource where
  inputs := r.inputs.getD SclData.empty
  outputs := r.outputs.getD SclData.empty
  dependencies := r.dependencies
  markers := r.markers

/-- The context of an evaluation, and what the engine notes down about the resources in it. -/
structure View where
  ctx : EvalCtx
  unownedResourceOwner : ResourceId → Option String
  volatileResourceIds : List ResourceId
  hasVolatileOwnedResource : Bool

namespace View

/-- An empty context for the deployment of `wk`. -/
def initial (wk : Worker) : View where
  ctx := { resources := fun _ => none, region := wk.region, localOwner := wk.client
           packageOwner := fun _ => none, foreignResources := fun _ _ => none }
  unownedResourceOwner := fun _ => none
  volatileResourceIds := []
  hasVolatileOwnedResource := false

/-- `absorb_resource`: take a stored resource of the environment into the context. -/
def absorbResource (ownerQid : String) (v : View) (r : Rdb.Resource) : View :=
  let isOwned := r.owner == some ownerQid
  let isVolatile := r.markers.contains .volatile
  { ctx := v.ctx.addResource r.id (toSclc r)
    unownedResourceOwner :=
      if isOwned then v.unownedResourceOwner
      else match r.owner with
        | some owner => Function.update v.unownedResourceOwner r.id (some owner)
        | none => v.unownedResourceOwner
    volatileResourceIds :=
      if isVolatile then r.id :: v.volatileResourceIds else v.volatileResourceIds
    hasVolatileOwnedResource := v.hasVolatileOwnedResource || (isVolatile && isOwned) }

/-- Take a resource of a foreign deployment into the context. -/
def absorbForeign (owner : DeploymentQid) (v : View) (r : Rdb.Resource) : View :=
  { v with ctx := v.ctx.addForeignResource owner r.id (toSclc r) }

end View

/-- The package of a repository. -/
def packageIdForRepo (repo : RepoQid) : PackageId := [repo.org.str, repo.repo.str]

/-- Load the resources of a foreign deployment.  When the query cannot even be opened the context
goes without them. -/
def loadForeign (wk : Worker) (v : View) (dep : RepoQid × DeploymentQid) : M View := do
  let v := { v with ctx := v.ctx.setPackageOwner (packageIdForRepo dep.1) dep.2 }
  let ns : Rdb.NamespaceClient := ⟨wk.region, dep.2.environment.toString⟩
  match ← (ns.listResourcesByOwner dep.2.toString).attempt with
  | .error _ => return v
  | .ok rows =>
    let resources ← M.ofRows rows
    return resources.foldl (View.absorbForeign dep.2) v

/-- The regions other than the home region that the routing index names. -/
def remoteRegions (wk : Worker) (index : List Rdb.ResourceRegion) : List RegionId :=
  ((index.map Rdb.ResourceRegion.region).filter (· != wk.region)).dedup

/-- Everything the program gets to see: the resources of the deployments its dependencies resolve
to, then the resources of its own environment in the home region and in every region of the
routing index. -/
def gather (wk : Worker) (resolution : Resolution) : M View := do
  let v ← resolution.owners.foldlM (loadForeign wk) (View.initial wk)
  let v := resolution.orphans.foldl (fun v dep =>
    { v with ctx := v.ctx.setPackageOrphan (packageIdForRepo dep.1) }) v
  let home ← wk.ns.collectResources
  let v := home.foldl (View.absorbResource wk.ownerQid) v
  let index ← wk.ns.listResourceRegions
  let remote ← (remoteRegions wk index).mapM fun region =>
    (⟨region, wk.environmentQid.toString⟩ : Rdb.NamespaceClient).collectResources
  return remote.flatten.foldl (View.absorbResource wk.ownerQid) v

/-! ## Draining effects -/

/-- The deployment named in an owner text. -/
def extractDeploymentIdentity (ownerQid : String) : Option DeploymentId :=
  match DeploymentQid.parse ownerQid.toList with
  | .ok qid => some qid.deployment
  | .error _ => none

/-- The adoption of a resource from the owner noted in the view. -/
def adoptMessage (wk : Worker) (e : Effect) (fromOwner : String) (desiredInputs : Json) :
    Option Message :=
  (extractDeploymentIdentity fromOwner).map fun fromDeploymentId => .adopt
    { resource := wk.resourceRef e.id, fromDeploymentId := fromDeploymentId
      toDeploymentId := wk.client.deployment, homeRegion := wk.region
      desiredInputs := desiredInputs, dependencies := wk.mapDependencies e.dependencies
      sourceTrace := e.sourceTrace }

/-- The message an effect of this deployment leads to.  There is none when the inputs do not
serialise or the owner does not parse. -/
def effectMessage (wk : Worker) (v : View) (e : Effect) : Option Message :=
  match e.kind with
  | .createResource => (SclData.toJson e.inputs).toOption.map fun inputs => .create
      { resource := wk.resourceRef e.id, deploymentId := wk.client.deployment
        homeRegion := wk.region, inputs := inputs
        dependencies := wk.mapDependencies e.dependencies, sourceTrace := e.sourceTrace }
  | .updateResource => (SclData.toJson e.inputs).toOption.bind fun desiredInputs =>
      match v.unownedResourceOwner e.id with
      | some fromOwner => adoptMessage wk e fromOwner desiredInputs
      | none => some (.restore
          { resource := wk.resourceRef e.id, deploymentId := wk.client.deployment
            homeRegion := wk.region, desiredInputs := desiredInputs
            dependencies := wk.mapDependencies e.dependencies, sourceTrace := e.sourceTrace })
  | .touchResource =>
      match v.unownedResourceOwner e.id with
      | some fromOwner => (SclData.toJson e.inputs).toOption.bind (adoptMessage wk e fromOwner)
      | none =>
        if v.volatileResourceIds.contains e.id then some (.check
          { resource := wk.resourceRef e.id, deploymentId := wk.client.deployment
            homeRegion := wk.region })
        else none

/-- What has been drained so far. -/
structure Drained where
  hadEffect : Bool
  hadMutation : Bool
  touchedResourceIds : List ResourceId

namespace Drained

def empty : Drained := ⟨false, false, []⟩

/-- Note down an effect of this deployment. -/
def record (v : View) (acc : Drained) (e : Effect) : Drained where
  hadEffect := acc.hadEffect || match e.kind with
    | .createResource => true
    | .updateResource => true
    | .touchResource => (v.unownedResourceOwner e.id).isSome
  hadMutation := acc.hadMutation || match e.kind with
    | .createResource => true
    | .updateResource => true
    | .touchResource => false
  touchedResourceIds := e.id :: acc.touchedResourceIds

end Drained

/-- Publish the message of an effect; a failure to do so is only logged. -/
def enqueueMessage (id : ResourceId) (m : Message) : M Unit := do
  let _ ← (M.enqueue id.region m).attempt

/-- Drain one effect.  What is announced in the name of no deployment, or of another one, is
dropped. -/
def drainEffect (wk : Worker) (v : View) (acc : Drained) (e : Effect) : M Drained := do
  match e.owner with
  | none => return acc
  | some owner =>
    if owner ≠ wk.client then return acc
    else
      match effectMessage wk v e with
      | some m => enqueueMessage e.id m
      | none => pure ()
      return acc.record v e

/-- Drain what an evaluation announced.  Whether it ended in an error makes no difference. -/
def drain (wk : Worker) (v : View) (evaluation : Evaluation) : M Drained :=
  evaluation.effects.foldlM (drainEffect wk v) .empty

/-! ## The whole -/

/-- The outcome of a drained evaluation. -/
def Drained.outcome (d : Drained) (v : View) (resolution : Resolution) : EvalOutcome where
  touchedResourceIds := d.touchedResourceIds
  fullyExplored := !d.hadMutation
  hadEffect := d.hadEffect
  compileErrorMessage := none
  hasVolatileOwnedResource := v.hasVolatileOwnedResource
  hasVolatileCrossRepoPins := resolution.hasVolatilePins

/-- Evaluate a compiled program in a view of the world. -/
def evaluateIn (wk : Worker) (resolution : Resolution) (asg : Program) (v : View) :
    M EvalOutcome := do
  let evaluation ← M.eval asg v.ctx
  let drained ← drain wk v evaluation
  return drained.outcome v resolution

/-- Evaluate a compiled program. -/
def evaluate (wk : Worker) (resolution : Resolution) (asg : Program) : M EvalOutcome := do
  evaluateIn wk resolution asg (← gather wk resolution)

/-- The outcome of a program that does not compile. -/
def EvalOutcome.compileError (message : String) : EvalOutcome where
  touchedResourceIds := []
  fullyExplored := false
  hadEffect := false
  compileErrorMessage := some message
  hasVolatileOwnedResource := false
  hasVolatileCrossRepoPins := false

/-- `compile_and_evaluate`.  The worker is returned next to the result, since a compilation is kept
even when the evaluation after it fails. -/
def compileAndEvaluate (wk : Worker) : M (Except String EvalOutcome × Worker) := do
  match ← (M.resolveAll wk.client).attempt with
  | .error e => return (.error e, wk)
  | .ok resolution =>
    match wk.cachedCompile.filter fun c => c.key == resolution.key with
    | some cached => return (← (evaluate wk resolution cached.asg).attempt, wk)
    | none =>
      match ← (M.compile wk.client resolution.key).attempt with
      | .error e => return (.error e, wk)
      | .ok (.errors message) =>
        return (.ok (.compileError message), { wk with cachedCompile := none })
      | .ok (.program asg) =>
        let wk := { wk with cachedCompile := some ⟨resolution.key, asg⟩ }
        return (← (evaluate wk resolution asg).attempt, wk)

end Skyr.De
