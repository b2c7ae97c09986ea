import Skyr.Ids.RoundTrip
import Skyr.Lib.Json
import Skyr.Rtq

/-!
# Transition messages as JSON

The derived writers and readers of transition messages.  A resource is written in four fields, so
that its type and its name may be any text: only the environment and the region have to parse.  The
inputs are not looked into, but they have to be read as they were written.
-/

namespace Skyr

variable [SclData]

/-! ## Parts -/

def SourceFrame.toJson (f : SourceFrame) : JValue Json :=
  .obj [("module_id", .str f.moduleId), ("span", .str f.span), ("name", .str f.name)]

def SourceFrame.ofJson (v : JValue Json) : Option SourceFrame := do
  let fields ← v.asObj
  let moduleId ← JValue.required fields "module_id" JValue.asStr
  let span ← JValue.required fields "span" JValue.asStr
  let name ← JValue.required fields "name" JValue.asStr
  pure ⟨moduleId, span, name⟩

theorem SourceFrame.ofJson_toJson (f : SourceFrame) : ofJson f.toJson = some f := rfl

def SourceTrace.toJson (t : SourceTrace) : JValue Json := .arr (t.map SourceFrame.toJson)

def SourceTrace.ofJson : JValue Json → Option SourceTrace := JValue.asArr SourceFrame.ofJson

theorem SourceTrace.ofJson_toJson (t : SourceTrace) :
    SourceTrace.ofJson (SourceTrace.toJson t) = some t :=
  JValue.asArr_arr.2 fun f _ => f.ofJson_toJson

/-- The field of a source trace, which is left out if the trace is empty. -/
def SourceTrace.field (t : SourceTrace) : List (String × JValue Json) :=
  if t.isEmpty then [] else [("source_trace", SourceTrace.toJson t)]

namespace ResourceRef

def toJson (r : ResourceRef) : JValue Json :=
  .obj [("environment_qid", .str r.environmentQid.toString), ("region", .str r.resourceId.region.str),
    ("resource_type", .str r.resourceId.typ), ("resource_name", .str r.resourceId.name)]

def ofJson (v : JValue Json) : Option ResourceRef := do
  let fields ← v.asObj
  let environmentQid ← JValue.required fields "environment_qid"
    (JValue.asParsed EnvironmentQid.parse)
  let region ← JValue.required fields "region" (JValue.asParsed RegionId.parse)
  let resourceType ← JValue.required fields "resource_type" JValue.asStr
  let resourceName ← JValue.required fields "resource_name" JValue.asStr
  pure ⟨environmentQid, ⟨region, resourceType, resourceName⟩⟩

/-- The environment and the region were parsed; nothing is asked of the type and the name. -/
structure Sendable (r : ResourceRef) : Prop where
  environment : r.environmentQid.Built
  region : isValidRegion r.resourceId.region.str.toList

omit [SclData] in
theorem sendable_iff {r : ResourceRef} : r.Sendable ↔
    EnvironmentQid.parse r.environmentQid.toString.toList = .ok r.environmentQid ∧
      RegionId.parse r.resourceId.region.str.toList = .ok r.resourceId.region :=
  ⟨fun h => ⟨EnvironmentQid.parse_toString h.environment, RegionId.parse_str h.region⟩,
    fun h => ⟨(EnvironmentQid.toString_parse h.1).2, (RegionId.parse_eq_ok.1 h.2).1⟩⟩

/-- A resource is read back as it was written if and only if its environment and its region
parse. -/
theorem ofJson_toJson {r : ResourceRef} : ofJson r.toJson = some r ↔ r.Sendable := by
  have hread : ofJson r.toJson = (do
      let e ← JValue.asParsed EnvironmentQid.parse (.str r.environmentQid.toString : JValue Json)
      let g ← JValue.asParsed RegionId.parse (.str r.resourceId.region.str : JValue Json)
      pure (⟨e, ⟨g, r.resourceId.typ, r.resourceId.name⟩⟩ : ResourceRef)) := rfl
  obtain ⟨env, ⟨region, typ, name⟩⟩ := r
  rw [hread, sendable_iff]
  simp [Option.bind_eq_some_iff, JValue.asParsed_str]

end ResourceRef

/-! ## Messages -/

namespace Message

def toJson : Message → JValue Json
  | create m =>
    .obj ([("type", .str "CREATE"), ("resource", m.resource.toJson),
      ("deployment_id", .str m.deploymentId.toString), ("home_region", .str m.homeRegion.str),
      ("inputs", .payload m.inputs),
      ("dependencies", .arr (m.dependencies.map ResourceRef.toJson))] ++
      SourceTrace.field m.sourceTrace)
  | restore m =>
    .obj ([("type", .str "RESTORE"), ("resource", m.resource.toJson),
      ("deployment_id", .str m.deploymentId.toString), ("home_region", .str m.homeRegion.str),
      ("desired_inputs", .payload m.desiredInputs),
      ("dependencies", .arr (m.dependencies.map ResourceRef.toJson))] ++
      SourceTrace.field m.sourceTrace)
  | adopt m =>
    .obj ([("type", .str "ADOPT"), ("resource", m.resource.toJson),
      ("from_deployment_id", .str m.fromDeploymentId.toString),
      ("to_deployment_id", .str m.toDeploymentId.toString), ("home_region", .str m.homeRegion.str),
      ("desired_inputs", .payload m.desiredInputs),
      ("dependencies", .arr (m.dependencies.map ResourceRef.toJson))] ++
      SourceTrace.field m.sourceTrace)
  | destroy m =>
    .obj [("type", .str "DESTROY"), ("resource", m.resource.toJson),
      ("deployment_id", .str m.deploymentId.toString), ("home_region", .str m.homeRegion.str)]
  | check m =>
    .obj [("type", .str "CHECK"), ("resource", m.resource.toJson),
      ("deployment_id", .str m.deploymentId.toString), ("home_region", .str m.homeRegion.str)]

def ofJson (reread : Json → Option Json) (v : JValue Json) : Option Message := do
  let fields ← v.asObj
  let resource := JValue.required fields "resource" ResourceRef.ofJson
  let deploymentId (name : String) :=
    JValue.required fields name (JValue.asParsed DeploymentId.parse)
  let homeRegion := JValue.required fields "home_region" (JValue.asParsed RegionId.parse)
  let inputs (name : String) := JValue.required fields name (JValue.asPayload reread)
  let dependencies := JValue.required fields "dependencies" (JValue.asArr ResourceRef.ofJson)
  let sourceTrace := JValue.withDefault fields "source_trace" [] SourceTrace.ofJson
  match ← JValue.required fields "type" JValue.asStr with
  | "CREATE" =>
    pure (create ⟨← resource, ← deploymentId "deployment_id", ← homeRegion, ← inputs "inputs",
      ← dependencies, ← sourceTrace⟩)
  | "RESTORE" =>
    pure (restore ⟨← resource, ← deploymentId "deployment_id", ← homeRegion,
      ← inputs "desired_inputs", ← dependencies, ← sourceTrace⟩)
  | "ADOPT" =>
    pure (adopt ⟨← resource, ← deploymentId "from_deployment_id",
      ← deploymentId "to_deployment_id", ← homeRegion, ← inputs "desired_inputs",
      ← dependencies, ← sourceTrace⟩)
  | "DESTROY" =>
    pure (destroy ⟨← resource, ← deploymentId "deployment_id", ← homeRegion⟩)
  | "CHECK" => pure (check ⟨← resource, ← deploymentId "deployment_id", ← homeRegion⟩)
  | _ => none

/-- The home region of a message. -/
def homeRegion : Message → RegionId
  | create m => m.homeRegion
  | restore m => m.homeRegion
  | adopt m => m.homeRegion
  | destroy m => m.homeRegion
  | check m => m.homeRegion

/-- The resources a message mentions besides its own. -/
def dependencies : Message → List ResourceRef
  | create m => m.dependencies
  | restore m => m.dependencies
  | adopt m => m.dependencies
  | destroy _ | check _ => []

/-- The payload of a message. -/
def inputs : Message → Option Json
  | create m => some m.inputs
  | restore m => some m.desiredInputs
  | adopt m => some m.desiredInputs
  | destroy _ | check _ => none

/-- The environments and regions of a message were parsed, and its inputs are read as they were
written. -/
structure Sendable (reread : Json → Option Json) (m : Message) : Prop where
  resource : m.resource.Sendable
  homeRegion : isValidRegion m.homeRegion.str.toList
  dependencies : ∀ d ∈ m.dependencies, d.Sendable
  inputs : ∀ p ∈ m.inputs, reread p = some p

/-- A trace at the end of an object does not hide other fields. -/
theorem required_append_trace {α : Type} {fields : List (String × JValue Json)} {t : SourceTrace}
    {name : String} {f : JValue Json → Option α} (h : name ≠ "source_trace") :
    JValue.required (fields ++ SourceTrace.field t) name f = JValue.required fields name f := by
  have hfilter : (SourceTrace.field t).filter (·.1 == name) = [] := by
    cases t with
    | nil => rfl
    | cons frame t => exact List.filter_cons_of_neg (by simp [h.symm])
  rw [JValue.required, JValue.required, List.filter_append, hfilter, List.append_nil]

theorem withDefault_cons_trace {fields : List (String × JValue Json)} {f : String × JValue Json}
    (h : f.1 ≠ "source_trace") :
    JValue.withDefault (f :: fields) "source_trace" [] SourceTrace.ofJson =
      JValue.withDefault fields "source_trace" [] SourceTrace.ofJson := by
  rw [JValue.withDefault, JValue.withDefault, List.filter_cons_of_neg (by simpa using h)]

theorem withDefault_trace (t : SourceTrace) :
    JValue.withDefault (SourceTrace.field t) "source_trace" [] SourceTrace.ofJson = some t := by
  cases t with
  | nil => rfl
  | cons frame t => exact SourceTrace.ofJson_toJson (frame :: t)

/-- **A transition message is read back as it was written if and only if it may be sent**, whatever
the type and the name of its resource. -/
theorem ofJson_toJson {reread : Json → Option Json} {m : Message} :
    ofJson reread m.toJson = some m ↔ m.Sendable reread := by
  have hsendable : m.Sendable reread ↔ ResourceRef.ofJson m.resource.toJson = some m.resource ∧
      JValue.asParsed RegionId.parse (.str m.homeRegion.str : JValue Json) = some m.homeRegion ∧
      (∀ p ∈ m.inputs, reread p = some p) ∧
      JValue.asArr ResourceRef.ofJson (.arr (m.dependencies.map ResourceRef.toJson)) =
        some m.dependencies := by
    simp only [JValue.asArr_arr, JValue.asParsed_str, ResourceRef.ofJson_toJson]
    exact ⟨fun h => ⟨h.resource, RegionId.parse_str h.homeRegion, h.inputs, h.dependencies⟩,
      fun h => ⟨h.1, (RegionId.parse_eq_ok.1 h.2.1).1, h.2.2.2, h.2.2.1⟩⟩
  have hdeployment (d : DeploymentId) :
      JValue.asParsed DeploymentId.parse (.str d.toString : JValue Json) = some d :=
    JValue.asParsed_str.2 (DeploymentId.parse_toString d)
  rw [hsendable]
  -- the fields are found by their names, in front of the trace if there is one
  rcases m with ⟨r, d, h, i, ds, t⟩ | ⟨r, d, h, i, ds, t⟩ | ⟨r, d, d', h, i, ds, t⟩ | ⟨r, d, h⟩ |
    ⟨r, d, h⟩
  all_goals
    simp only [resource, homeRegion, dependencies, inputs]
    simp only [ofJson, toJson, JValue.asObj, Option.bind_eq_bind, Option.bind_some, ne_eq,
      String.reduceEq, not_false_eq_true, required_append_trace]
    simp +contextual [JValue.required, JValue.asStr, JValue.asPayload, withDefault_cons_trace,
      withDefault_trace, hdeployment, Option.bind_eq_some_iff, JValue.asArr]

end Message

end Skyr
