import Skyr.Rdb.Client

/-!
# The transition engine

One handler per kind of message.  Each reads the row of its resource first and decides from what
it read whether the message is still to the point: a create is dropped when the row exists, every
other message when the row is gone or belongs to another deployment.  A message that cannot be
carried out is reported and dropped for good (`reject`).

The messages of one resource are handled one after the other; what a handler read is therefore
still true when it writes.  The handlers are translated branch by branch, with the reports and
their texts; what they write to the log is left out.
-/

namespace Skyr.Rte

open Rdb.ResourceClient

open Prog

variable [SclData]

/-! ## Helpers -/

/-- The region a transition engine works in, and the plugins it has dialled. -/
structure WorkerContext where
  region : RegionId
  plugins : List ModuleId

/-- The owner text of a deployment of an environment. -/
def deploymentQid (environmentQid : EnvironmentQid) (deploymentId : DeploymentId) : String :=
  (DeploymentQid.mk environmentQid deploymentId).toString

def maxInputSizeBytes : ℕ := 1048576

def maxOutputSizeBytes : ℕ := 1048576

def checkJsonSize (value : Json) (limit : ℕ) : Bool := SclData.jsonSize value ≤ limit

/-- Outputs that have a JSON form beyond the limit. -/
def outputTooLarge (outputs : Record) : Bool :=
  match SclData.toJson outputs with
  | .ok outputJson => !checkJsonSize outputJson maxOutputSizeBytes
  | .error _ => false

/-- Parse a module id such as `Std/Random`: the first segment is the package. -/
def parseModuleId (s : List Char) : Option ModuleId :=
  match (s.splitOn '/').filter fun seg => !seg.isEmpty with
  | [] => none
  | package :: path => some ⟨[String.ofList package], path.map String.ofList⟩

def pluginNameForResourceType (resourceType : String) : Option (List Char) :=
  (splitOnce ['.'] resourceType.toList).map Prod.fst

def resolvePlugin (resourceType : String) (plugins : List ModuleId) : Option ModuleId := do
  let moduleId ← parseModuleId (← pluginNameForResourceType resourceType)
  if moduleId ∈ plugins then some moduleId else none

def noPlugin (resource : ResourceRef) : String :=
  s!"no plugin available for resource type {resource.resourceId.typ}"

def dependenciesFromRefs (dependencies : List ResourceRef) : List ResourceId :=
  dependencies.map ResourceRef.resourceId

def isVolatileMarkers (markers : List Marker) : Bool := markers.contains .volatile

/-- Where the row of a resource is. -/
def resourceClient (ctx : WorkerContext) (resource : ResourceRef) : Rdb.ResourceClient :=
  ⟨ctx.region, resource.environmentQid.toString, resource.resourceId.typ, resource.resourceId.name⟩

/-- Publish a status report; a failure to do so is swallowed. -/
def publishReport (homeRegion : RegionId) (resource : ResourceRef) (outcome : Outcome)
    (operationalState : ResourceOperationalState) (terminal volatile : Bool) : M Unit := do
  let _ ← (M.report homeRegion
    (.resource resource outcome operationalState terminal volatile)).attempt

/-- Report a failure and drop the message. -/
def reject (homeRegion : RegionId) (resource : ResourceRef) (category : IncidentCategory)
    (error : String) (operationalState : ResourceOperationalState) (volatile : Bool) : M Unit := do
  publishReport homeRegion resource (.failure category error) operationalState false volatile
  M.settle (.nack false)

/-- Write the columns of a resource one after the other.  The markers stay as they are when there
are no new ones. -/
def persistResourceState (client : Rdb.ResourceClient) (inputs : Record) (ownerQid : String)
    (outputs : Record) (markers : Option (List Marker)) (dependencies : List ResourceId)
    (sourceTrace : SourceTrace) : M Unit := do
  let _ ← client.setInput inputs ownerQid
  let _ ← client.setDependencies dependencies
  let _ ← client.setOutput outputs
  match markers with
  | some markers =>
    let _ ← client.setMarkers markers
  | none => pure ()
  let _ ← client.setSourceTrace sourceTrace

/-! ## Create -/

/-- The part of a create that follows the plugin call. -/
def persistCreated (ctx : WorkerContext) (m : CreateMessage) (resource : Resource) : M Unit := do
  let volatile := isVolatileMarkers resource.markers
  if outputTooLarge resource.outputs then
    reject m.homeRegion m.resource .systemError "plugin create output exceeds size limit" .live
      volatile
  else
    match ← (persistResourceState (resourceClient ctx m.resource) resource.inputs
        (deploymentQid m.resource.environmentQid m.deploymentId) resource.outputs
        (some resource.markers) (dependenciesFromRefs m.dependencies) m.sourceTrace).attempt with
    | .error e => reject m.homeRegion m.resource .systemError e .live volatile
    | .ok _ => publishReport m.homeRegion m.resource .success .live false volatile

/-- A create of a resource that has no row. -/
def createMissing (ctx : WorkerContext) (m : CreateMessage) : M Unit := do
  let reject := fun category error =>
    reject m.homeRegion m.resource category error .pending false
  match resolvePlugin m.resource.resourceId.typ ctx.plugins with
  | none => reject .systemError (noPlugin m.resource)
  | some plugin =>
    if !checkJsonSize m.inputs maxInputSizeBytes then
      reject .badConfiguration "create inputs exceed size limit"
    else
      match SclData.fromJson m.inputs with
      | .error e => reject .badConfiguration e
      | .ok inputs =>
        let created : Except String Resource ← (M.plugin plugin (.createResource
          (deploymentQid m.resource.environmentQid m.deploymentId) m.resource.resourceId
          inputs)).attempt
        match created with
        | .error e => reject .crash e
        | .ok resource => persistCreated ctx m resource

def handleCreate (ctx : WorkerContext) (m : CreateMessage) : M Unit := do
  match ← (resourceClient ctx m.resource).get.attempt with
  | .ok (some _) => M.settle .ack
  | .ok none => createMissing ctx m
  | .error e => reject m.homeRegion m.resource .systemError e .pending false

/-! ## Destroy -/

/-- A destroy of a resource by its owner. -/
def destroyOwned (ctx : WorkerContext) (m : DestroyMessage) (current : Rdb.Resource) :
    M Unit := do
  let volatile := isVolatileMarkers current.markers
  let reject := fun category error state =>
    reject m.homeRegion m.resource category error state volatile
  match current.inputs, current.outputs with
  | none, _ => reject .inconsistentState "missing current inputs for delete" .live
  | some _, none => reject .inconsistentState "missing current outputs for delete" .live
  | some inputs, some outputs =>
    match resolvePlugin m.resource.resourceId.typ ctx.plugins with
    | none => reject .systemError (noPlugin m.resource) .live
    | some plugin =>
      match ← (M.plugin plugin (.deleteResource
          (deploymentQid m.resource.environmentQid m.deploymentId) m.resource.resourceId inputs
          outputs)).attempt with
      | .error e => reject .crash e .live
      | .ok _ =>
        match ← (resourceClient ctx m.resource).delete.attempt with
        | .error e => reject .systemError e .destroyed
        | .ok _ => publishReport m.homeRegion m.resource .success .destroyed true volatile

def handleDestroy (ctx : WorkerContext) (m : DestroyMessage) : M Unit := do
  match ← (resourceClient ctx m.resource).get.attempt with
  | .ok (some current) =>
    if current.owner ≠ some (deploymentQid m.resource.environmentQid m.deploymentId) then
      M.settle .ack
    else destroyOwned ctx m current
  | .ok none => M.settle .ack
  | .error e => reject m.homeRegion m.resource .systemError e .live false

/-! ## Restore and adopt -/

/-- What restoring and adopting have in common: who must own the resource, who owns it after. -/
structure UpdateParams where
  resource : ResourceRef
  ownerDeploymentQid : String
  targetDeploymentId : DeploymentId
  homeRegion : RegionId
  desiredInputs : Json
  dependencies : List ResourceRef
  sourceTrace : SourceTrace

namespace UpdateParams

variable (ctx : WorkerContext) (p : UpdateParams)

def targetDepQid : String := deploymentQid p.resource.environmentQid p.targetDeploymentId

/-- Reject the update; there is no volatility to report on. -/
def reject (category : IncidentCategory) (error : String) (volatile : Bool) :
    M (Option Bool) := do
  Rte.reject p.homeRegion p.resource category error .live volatile
  return none

/-- The last part of an update: write the row in the target's name. -/
def persist (inputs outputs : Record) (markers : Option (List Marker)) (volatile : Bool) :
    M (Option Bool) := do
  match ← (persistResourceState (resourceClient ctx p.resource) inputs p.targetDepQid outputs
      markers (dependenciesFromRefs p.dependencies) p.sourceTrace).attempt with
  | .error e => p.reject .systemError e volatile
  | .ok _ => return some volatile

/-- Bring the resource from its stored to the desired inputs.  The plugin is not called when the
two are equal, and the row is written all the same. -/
def apply (prevInputs prevOutputs desiredInputs : Record) (volatile : Bool) :
    M (Option Bool) := do
  if prevInputs != desiredInputs then
    match resolvePlugin p.resource.resourceId.typ ctx.plugins with
    | none => p.reject .systemError (noPlugin p.resource) volatile
    | some plugin =>
      let updated : Except String Resource ← (M.plugin plugin (.updateResource p.targetDepQid
        p.resource.resourceId prevInputs prevOutputs desiredInputs)).attempt
      match updated with
      | .error e => p.reject .crash e volatile
      | .ok updated =>
        let volatile := isVolatileMarkers updated.markers
        if outputTooLarge updated.outputs then
          p.reject .systemError "plugin update output exceeds size limit" volatile
        else p.persist ctx updated.inputs updated.outputs (some updated.markers) volatile
  else p.persist ctx prevInputs prevOutputs none volatile

/-- An update of a resource by the deployment that must own it. -/
def updateOwned (current : Rdb.Resource) : M (Option Bool) := do
  let volatile := isVolatileMarkers current.markers
  match current.inputs, current.outputs with
  | none, _ => p.reject .inconsistentState "missing current inputs for operation" volatile
  | some _, none => p.reject .inconsistentState "missing current outputs for operation" volatile
  | some prevInputs, some prevOutputs =>
    if !checkJsonSize p.desiredInputs maxInputSizeBytes then
      p.reject .badConfiguration "desired inputs exceed size limit" volatile
    else
      match SclData.fromJson p.desiredInputs with
      | .error e => p.reject .badConfiguration e volatile
      | .ok desiredInputs => p.apply ctx prevInputs prevOutputs desiredInputs volatile

end UpdateParams

/-- `handle_update_inputs`: whether the update went through, and if so the volatility to report. -/
def handleUpdateInputs (ctx : WorkerContext) (p : UpdateParams) : M (Option Bool) := do
  match ← (resourceClient ctx p.resource).get.attempt with
  | .ok (some current) =>
    if current.owner ≠ some p.ownerDeploymentQid then
      M.settle .ack
      return none
    else p.updateOwned ctx current
  | .ok none =>
    M.settle .ack
    return none
  | .error e => p.reject .systemError e false

/-- Adopting: from the owner named in the message to another deployment. -/
def adoptParams (m : AdoptMessage) : UpdateParams where
  resource := m.resource
  ownerDeploymentQid := deploymentQid m.resource.environmentQid m.fromDeploymentId
  targetDeploymentId := m.toDeploymentId
  homeRegion := m.homeRegion
  desiredInputs := m.desiredInputs
  dependencies := m.dependencies
  sourceTrace := m.sourceTrace

/-- Restoring: the owner stays the same. -/
def restoreParams (m : RestoreMessage) : UpdateParams where
  resource := m.resource
  ownerDeploymentQid := deploymentQid m.resource.environmentQid m.deploymentId
  targetDeploymentId := m.deploymentId
  homeRegion := m.homeRegion
  desiredInputs := m.desiredInputs
  dependencies := m.dependencies
  sourceTrace := m.sourceTrace

/-- An update and the report of its success. -/
def handleUpdate (ctx : WorkerContext) (p : UpdateParams) : M Unit := do
  match ← handleUpdateInputs ctx p with
  | none => return ()
  | some volatile => publishReport p.homeRegion p.resource .success .live false volatile

def handleAdopt (ctx : WorkerContext) (m : AdoptMessage) : M Unit :=
  handleUpdate ctx (adoptParams m)

def handleRestore (ctx : WorkerContext) (m : RestoreMessage) : M Unit :=
  handleUpdate ctx (restoreParams m)

/-! ## Check -/

/-- A check of a resource by its owner.  Only the outputs are written. -/
def checkOwned (ctx : WorkerContext) (m : CheckMessage) (current : Rdb.Resource) : M Unit := do
  let volatile := isVolatileMarkers current.markers
  let reject := fun category error volatile =>
    reject m.homeRegion m.resource category error .live volatile
  match current.inputs, current.outputs with
  | none, _ => reject .inconsistentState "missing current inputs for check" volatile
  | some _, none => reject .inconsistentState "missing current outputs for check" volatile
  | some inputs, some outputs =>
    match resolvePlugin m.resource.resourceId.typ ctx.plugins with
    | none => reject .systemError (noPlugin m.resource) volatile
    | some plugin =>
      let checked : Except String Resource ← (M.plugin plugin (.check
        (deploymentQid m.resource.environmentQid m.deploymentId) m.resource.resourceId
        ⟨inputs, outputs, current.dependencies, current.markers⟩)).attempt
      match checked with
      | .error e => reject .systemError e volatile
      | .ok checked =>
        let volatile := isVolatileMarkers checked.markers
        if outputTooLarge checked.outputs then
          reject .systemError "plugin check output exceeds size limit" volatile
        else
          match ← ((resourceClient ctx m.resource).setOutput checked.outputs).attempt with
          | .error e => reject .systemError e volatile
          | .ok _ => publishReport m.homeRegion m.resource .success .live false volatile

def handleCheck (ctx : WorkerContext) (m : CheckMessage) : M Unit := do
  match ← (resourceClient ctx m.resource).get.attempt with
  | .ok (some current) =>
    if current.owner ≠ some (deploymentQid m.resource.environmentQid m.deploymentId) then
      M.settle .ack
    else checkOwned ctx m current
  | .ok none => M.settle .ack
  | .error e => reject m.homeRegion m.resource .systemError e .live false

/-! ## The worker -/

/-- Handle one message. -/
def handle (ctx : WorkerContext) : Message → M Unit
  | .create m => handleCreate ctx m
  | .destroy m => handleDestroy ctx m
  | .adopt m => handleAdopt ctx m
  | .restore m => handleRestore ctx m
  | .check m => handleCheck ctx m

/-- One turn of the worker on a delivery: handle the message, then acknowledge it. -/
def workerLoopIteration (ctx : WorkerContext) (m : Message) : M Unit := do
  handle ctx m
  M.settle .ack

/-! ## What a worker asks for

Apart from reports and settlements, the handlers read and write rows and call plugins. -/

/-- Reporting and settling, which no row is touched by. -/
def Quiet : Op → Prop
  | .report _ _ => True
  | .settle _ => True
  | _ => False

theorem settle_quiet (s : Settlement) : (M.settle s).issues Quiet :=
  ⟨trivial, fun r => issues_ofExcept r⟩

variable (homeRegion : RegionId) (resource : ResourceRef) (state : ResourceOperationalState)

theorem publishReport_quiet (outcome : Outcome) (terminal volatile : Bool) :
    (publishReport homeRegion resource outcome state terminal volatile).issues Quiet :=
  issues_bind (issues_attempt ⟨trivial, fun r => issues_ofExcept r⟩) fun _ => trivial

theorem reject_quiet (category : IncidentCategory) (error : String) (volatile : Bool) :
    (reject homeRegion resource category error state volatile).issues Quiet :=
  issues_bind (publishReport_quiet ..) fun _ => settle_quiet _

theorem UpdateParams.reject_quiet (p : UpdateParams) (category : IncidentCategory)
    (error : String) (volatile : Bool) : (p.reject category error volatile).issues Quiet :=
  issues_bind (Rte.reject_quiet ..) fun _ => trivial

/-- The requests of a worker. -/
def Handles : Op → Prop
  | .rdb _ _ => True
  | .plugin _ _ => True
  | o => Quiet o

theorem issues_quiet {α : Type} {p : M α} (h : p.issues Quiet) : p.issues Handles := by
  refine issues_mono (fun o ho => ?_) h
  cases o with
  | rdb | plugin => trivial
  | _ => exact ho

theorem issues_plugin {α : Type} {module_ : ModuleId} {call : PluginCall}
    {f : Except String call.Result → M α} (hf : ∀ r, (f r).issues Handles) :
    ((M.plugin module_ call).attempt >>= f).issues Handles :=
  issues_bind (issues_attempt ⟨trivial, fun r => issues_ofExcept r⟩) hf

section Walk

variable {ctx : WorkerContext}

theorem issues_setOutput {A : Op → Prop} {c : Rdb.ResourceClient} (h : ∀ o, A (.rdb c.region o))
    (outputs : Record) : (c.setOutput outputs).issues A :=
  issues_bind (issues_ofExcept _) fun _ => issues_write (h _) (h _)

theorem issues_persistResourceState {A : Op → Prop} {c : Rdb.ResourceClient}
    (h : ∀ o, A (.rdb c.region o)) (inputs : Record) (ownerQid : String) (outputs : Record)
    (markers : Option (List Marker)) (dependencies : List ResourceId) (sourceTrace : SourceTrace) :
    (persistResourceState c inputs ownerQid outputs markers dependencies sourceTrace).issues A := by
  have hcolumn : ∀ o, (M.rdb c.region o >>= fun _ => c.readBack).issues A :=
    fun o => issues_write (h _) (h _)
  refine issues_bind (issues_bind (issues_ofExcept _) fun _ => hcolumn _) fun _ => ?_
  refine issues_bind (hcolumn _) fun _ => ?_
  refine issues_bind (issues_setOutput h outputs) fun _ => ?_
  cases markers with
  | none => exact issues_bind (hcolumn _) fun _ => trivial
  | some markers =>
    exact issues_bind (hcolumn _) fun _ => issues_bind (hcolumn _) fun _ => trivial

theorem setOutput_handles (c : Rdb.ResourceClient) (outputs : Record) :
    (c.setOutput outputs).issues Handles :=
  issues_setOutput (fun _ => trivial) outputs

theorem persist_handles (c : Rdb.ResourceClient) (inputs : Record) (ownerQid : String)
    (outputs : Record) (markers : Option (List Marker)) (dependencies : List ResourceId)
    (sourceTrace : SourceTrace) :
    (persistResourceState c inputs ownerQid outputs markers dependencies sourceTrace).issues
      Handles :=
  issues_persistResourceState (fun _ => trivial) ..

theorem handleCreate_handles (m : CreateMessage) : (handleCreate ctx m).issues Handles := by
  refine issues_bind (issues_attempt (issues_get trivial)) fun r => ?_
  rcases r with e | row | row
  · exact issues_quiet (reject_quiet ..)
  · change (createMissing ctx m).issues Handles
    rw [createMissing]
    split
    · exact issues_quiet (reject_quiet ..)
    split
    · exact issues_quiet (reject_quiet ..)
    split
    · exact issues_quiet (reject_quiet ..)
    refine issues_plugin fun r => ?_
    cases r with
    | error e => exact issues_quiet (reject_quiet ..)
    | ok resource =>
    change (persistCreated ctx m resource).issues Handles
    rw [persistCreated]
    split
    · exact issues_quiet (reject_quiet ..)
    refine issues_bind (issues_attempt (persist_handles ..)) fun r => ?_
    cases r with
    | error e => exact issues_quiet (reject_quiet ..)
    | ok _ => exact issues_quiet (publishReport_quiet ..)
  · exact issues_quiet (settle_quiet _)

theorem handleDestroy_handles (m : DestroyMessage) : (handleDestroy ctx m).issues Handles := by
  refine issues_bind (issues_attempt (issues_get trivial)) fun r => ?_
  rcases r with e | row | current
  · exact issues_quiet (reject_quiet ..)
  · exact issues_quiet (settle_quiet _)
  change Prog.issues _ (if _ then _ else _)
  split
  · exact issues_quiet (settle_quiet _)
  rw [destroyOwned]
  split
  · exact issues_quiet (reject_quiet ..)
  · exact issues_quiet (reject_quiet ..)
  split
  · exact issues_quiet (reject_quiet ..)
  refine issues_plugin fun r => ?_
  cases r with
  | error e => exact issues_quiet (reject_quiet ..)
  | ok _ =>
  refine issues_bind (issues_attempt (issues_bind (issues_rdb trivial)
    fun _ => trivial)) fun r => ?_
  cases r with
  | error e => exact issues_quiet (reject_quiet ..)
  | ok _ => exact issues_quiet (publishReport_quiet ..)

theorem handleUpdate_handles (p : UpdateParams) : (handleUpdate ctx p).issues Handles := by
  have hpersist : ∀ inputs outputs markers volatile,
      (p.persist ctx inputs outputs markers volatile).issues Handles := by
    intro inputs outputs markers volatile
    refine issues_bind (issues_attempt (persist_handles ..)) fun r => ?_
    cases r with
    | error e => exact issues_quiet (p.reject_quiet ..)
    | ok _ => trivial
  have happly : ∀ prevInputs prevOutputs desiredInputs volatile,
      (p.apply ctx prevInputs prevOutputs desiredInputs volatile).issues Handles := by
    intro prevInputs prevOutputs desiredInputs volatile
    rw [UpdateParams.apply]
    split
    · split
      · exact issues_quiet (p.reject_quiet ..)
      refine issues_plugin fun r => ?_
      cases r with
      | error e => exact issues_quiet (p.reject_quiet ..)
      | ok updated =>
      change Prog.issues _ (if _ then _ else _)
      split
      · exact issues_quiet (p.reject_quiet ..)
      · exact hpersist ..
    · exact hpersist ..
  have hupdate : (handleUpdateInputs ctx p).issues Handles := by
    have hdrop : (M.settle .ack >>= fun _ => (pure none : M (Option Bool))).issues Handles :=
      issues_quiet (issues_bind (settle_quiet _) fun _ => trivial)
    refine issues_bind (issues_attempt (issues_get trivial)) fun r => ?_
    rcases r with e | row | current
    · exact issues_quiet (p.reject_quiet ..)
    · exact hdrop
    change Prog.issues _ (if _ then _ else _)
    split
    · exact hdrop
    rw [UpdateParams.updateOwned]
    split
    · exact issues_quiet (p.reject_quiet ..)
    · exact issues_quiet (p.reject_quiet ..)
    split
    · exact issues_quiet (p.reject_quiet ..)
    split
    · exact issues_quiet (p.reject_quiet ..)
    · exact happly ..
  refine issues_bind hupdate fun r => ?_
  cases r with
  | none => trivial
  | some volatile => exact issues_quiet (publishReport_quiet ..)

theorem handleCheck_handles (m : CheckMessage) : (handleCheck ctx m).issues Handles := by
  refine issues_bind (issues_attempt (issues_get trivial)) fun r => ?_
  rcases r with e | row | current
  · exact issues_quiet (reject_quiet ..)
  · exact issues_quiet (settle_quiet _)
  change Prog.issues _ (if _ then _ else _)
  split
  · exact issues_quiet (settle_quiet _)
  rw [checkOwned]
  split
  · exact issues_quiet (reject_quiet ..)
  · exact issues_quiet (reject_quiet ..)
  split
  · exact issues_quiet (reject_quiet ..)
  refine issues_plugin fun r => ?_
  cases r with
  | error e => exact issues_quiet (reject_quiet ..)
  | ok checked =>
  change Prog.issues _ (if _ then _ else _)
  split
  · exact issues_quiet (reject_quiet ..)
  refine issues_bind (issues_attempt (setOutput_handles ..)) fun r => ?_
  cases r with
  | error e => exact issues_quiet (reject_quiet ..)
  | ok _ => exact issues_quiet (publishReport_quiet ..)

theorem workerLoopIteration_handles (ctx : WorkerContext) (m : Message) :
    (workerLoopIteration ctx m).issues Handles := by
  refine issues_bind ?_ fun _ => issues_quiet (settle_quiet _)
  cases m with
  | create m => exact handleCreate_handles m
  | restore | adopt => exact handleUpdate_handles _
  | destroy m => exact handleDestroy_handles m
  | check m => exact handleCheck_handles m

end Walk

end Skyr.Rte
