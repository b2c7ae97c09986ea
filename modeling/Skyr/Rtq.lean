import Skyr.Sclc.EvalCtx

/-!
# Messages

What the deployment engine sends to the transition engine, over one queue per region, and what
both of them send to the report queue.
-/

namespace Skyr

variable [SclData]

/-! ## Transition messages -/

/-- A resource of an environment. -/
structure ResourceRef where
  environmentQid : EnvironmentQid
  resourceId : ResourceId
deriving DecidableEq

/-- Create a new resource. -/
structure CreateMessage where
  resource : ResourceRef
  deploymentId : DeploymentId
  homeRegion : RegionId
  inputs : Json
  dependencies : List ResourceRef
  sourceTrace : SourceTrace

/-- Bring an existing resource to the desired inputs. -/
structure RestoreMessage where
  resource : ResourceRef
  deploymentId : DeploymentId
  homeRegion : RegionId
  desiredInputs : Json
  dependencies : List ResourceRef
  sourceTrace : SourceTrace

/-- Hand a resource from one deployment to another, with the desired inputs. -/
structure AdoptMessage where
  resource : ResourceRef
  fromDeploymentId : DeploymentId
  toDeploymentId : DeploymentId
  homeRegion : RegionId
  desiredInputs : Json
  dependencies : List ResourceRef
  sourceTrace : SourceTrace

/-- Destroy a resource. -/
structure DestroyMessage where
  resource : ResourceRef
  deploymentId : DeploymentId
  homeRegion : RegionId

/-- Look at a volatile resource again. -/
structure CheckMessage where
  resource : ResourceRef
  deploymentId : DeploymentId
  homeRegion : RegionId

/-- A transition message. -/
inductive Message
  | create (m : CreateMessage)
  | restore (m : RestoreMessage)
  | adopt (m : AdoptMessage)
  | destroy (m : DestroyMessage)
  | check (m : CheckMessage)

/-- The resource a message is about. -/
def Message.resource : Message → ResourceRef
  | create m => m.resource
  | restore m => m.resource
  | adopt m => m.resource
  | destroy m => m.resource
  | check m => m.resource

/-! ## Reports -/

/-- How a failure is classified. -/
inductive IncidentCategory
  | badConfiguration
  | cannotProgress
  | inconsistentState
  | systemError
  | crash
deriving DecidableEq

/-- The outcome a report carries. -/
inductive Outcome
  | success
  | failure (category : IncidentCategory) (errorMessage : String)
deriving DecidableEq

/-- The state of a resource, as reported. -/
inductive ResourceOperationalState
  | pending
  | live
  | destroyed
deriving DecidableEq

/-- The state of a deployment, as reported. -/
inductive DeploymentOperationalState
  | desired
  | lingering
  | undesired
  | down
deriving DecidableEq

/-- A status report.  Its time stamp and its metrics are not represented. -/
inductive Report
  | resource (qid : ResourceRef) (outcome : Outcome) (operationalState : ResourceOperationalState)
      (terminal volatile : Bool)
  | deployment (qid : DeploymentQid) (outcome : Outcome)
      (operationalState : DeploymentOperationalState) (terminal : Bool)
deriving DecidableEq

end Skyr
