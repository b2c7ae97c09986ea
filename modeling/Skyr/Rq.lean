import Skyr.Ids.RoundTrip
import Skyr.Lib.Json
import Skyr.Rtq

/-!
# The report queue: reports and their JSON form

A report as the engines publish it and the reporting engine reads it, with its time stamp and its
metrics.  `Report.toJson` and `Report.ofJson` are the derived writers and readers, down to tags,
names of fields, defaults and fields that are left out when they are empty.

The entity of a report is written as a text, and parsed when the report is read.  So a report is
read back as it was written exactly when its entity parses from its text and its metrics are read as
they were written (`Rq.Report.ofJson_toJson`).
-/

namespace Skyr

/-- How time stamps are written.  Times are in nanoseconds. -/
class Timestamps where
  print : ℕ → String
  parse : String → Option ℕ
  parse_print : ∀ t, parse (print t) = some t

variable [SclData]

/-! ## Categories, outcomes, states -/

namespace IncidentCategory

/-- All categories, by severity. -/
def all : List IncidentCategory :=
  [badConfiguration, cannotProgress, inconsistentState, systemError, crash]

def asStr : IncidentCategory → String
  | badConfiguration => "BAD_CONFIGURATION"
  | cannotProgress => "CANNOT_PROGRESS"
  | inconsistentState => "INCONSISTENT_STATE"
  | systemError => "SYSTEM_ERROR"
  | crash => "CRASH"

def fromStr (s : String) : Option IncidentCategory := all.find? fun c => c.asStr == s

omit [SclData] in
theorem fromStr_asStr (c : IncidentCategory) : fromStr c.asStr = some c := by cases c <;> decide

end IncidentCategory

namespace Outcome

def toJson : Outcome → JValue Json
  | success => .obj [("status", .str "SUCCESS")]
  | failure category errorMessage =>
    .obj [("status", .str "FAILURE"), ("category", .str category.asStr),
      ("error_message", .str errorMessage)]

def ofJson (v : JValue Json) : Option Outcome := do
  let fields ← v.asObj
  match ← JValue.required fields "status" JValue.asStr with
  | "SUCCESS" => pure success
  | "FAILURE" =>
    let category ← JValue.required fields "category" fun v =>
      v.asStr.bind IncidentCategory.fromStr
    let errorMessage ← JValue.required fields "error_message" JValue.asStr
    pure (failure category errorMessage)
  | _ => none

theorem ofJson_toJson (o : Outcome) : ofJson o.toJson = some o := by
  cases o with
  | success => rfl
  | failure category errorMessage =>
  change (do
    let c ← IncidentCategory.fromStr category.asStr
    pure (failure c errorMessage)) = _
  rw [IncidentCategory.fromStr_asStr]
  rfl

end Outcome

def DeploymentOperationalState.asStr : DeploymentOperationalState → String
  | desired => "DESIRED"
  | undesired => "UNDESIRED"
  | lingering => "LINGERING"
  | down => "DOWN"

def DeploymentOperationalState.fromStr (s : String) : Option DeploymentOperationalState :=
  [desired, undesired, lingering, down].find? fun o => o.asStr == s

omit [SclData] in
theorem DeploymentOperationalState.fromStr_asStr (o : DeploymentOperationalState) :
    fromStr o.asStr = some o := by
  cases o <;> decide

def ResourceOperationalState.asStr : ResourceOperationalState → String
  | pending => "PENDING"
  | live => "LIVE"
  | destroyed => "DESTROYED"

def ResourceOperationalState.fromStr (s : String) : Option ResourceOperationalState :=
  [pending, live, destroyed].find? fun o => o.asStr == s

omit [SclData] in
theorem ResourceOperationalState.fromStr_asStr (o : ResourceOperationalState) :
    fromStr o.asStr = some o := by
  cases o <;> decide

namespace Rq

/-! ## Entities -/

/-- What a report is about. -/
inductive EntityQid
  | deployment (qid : DeploymentQid)
  | resource (qid : ResourceQid)
deriving DecidableEq

namespace EntityQid

/-- The text that is used as a key everywhere. -/
def asString : EntityQid → String
  | deployment qid => qid.toString
  | resource qid => qid.toString

def toJson : EntityQid → JValue Json
  | deployment qid => .obj [("kind", .str "deployment"), ("qid", .str qid.toString)]
  | resource qid => .obj [("kind", .str "resource"), ("qid", .str qid.toString)]

def ofJson (v : JValue Json) : Option EntityQid := do
  let fields ← v.asObj
  let kind ← JValue.required fields "kind" JValue.asStr
  let qid ← JValue.required fields "qid" JValue.asStr
  match kind with
  | "deployment" => (DeploymentQid.parse qid.toList).toOption.map deployment
  | "resource" => (ResourceQid.parse qid.toList).toOption.map resource
  | _ => none

/-- The entity parses from its text. -/
def Readable : EntityQid → Prop
  | deployment qid => DeploymentQid.parse qid.toString.toList = .ok qid
  | resource qid => ResourceQid.parse qid.toString.toList = .ok qid

instance : DecidablePred Readable
  | deployment qid => inferInstanceAs (Decidable (DeploymentQid.parse qid.toString.toList = .ok qid))
  | resource qid => inferInstanceAs (Decidable (ResourceQid.parse qid.toString.toList = .ok qid))

theorem ofJson_toJson {e : EntityQid} : ofJson e.toJson = some e ↔ e.Readable := by
  cases e with
  | deployment qid =>
    have hread : ofJson (deployment qid).toJson =
        (DeploymentQid.parse qid.toString.toList).toOption.map deployment := by
      simp [ofJson, toJson, JValue.asObj, JValue.required, JValue.asStr]
    rw [hread, Readable]
    cases DeploymentQid.parse qid.toString.toList with
    | error | ok => simp [Except.toOption]
  | resource qid =>
  have hread : ofJson (resource qid).toJson =
      (ResourceQid.parse qid.toString.toList).toOption.map resource := by
    simp [ofJson, toJson, JValue.asObj, JValue.required, JValue.asStr]
  rw [hread, Readable]
  cases ResourceQid.parse qid.toString.toList with
  | error | ok => simp [Except.toOption]

end EntityQid

/-! ## Metrics -/

/-- What was measured.  `extra` is a map, in the order of its keys. -/
structure Metrics where
  wallTimeMs : UInt64
  extra : List (String × Json)

namespace Metrics

/-- The metrics of a report that has none. -/
def default : Metrics := ⟨0, []⟩

/-- What the engines fill in. -/
def wallTime (ms : UInt64) : Metrics := ⟨ms, []⟩

def toJson (m : Metrics) : JValue Json :=
  .obj (("wall_time_ms", .num m.wallTimeMs.toNat) ::
    -- an empty map is left out
    if m.extra.isEmpty then [] else [("extra", .obj (m.extra.map fun f => (f.1, .payload f.2)))])

/-- A number that fits into 64 bits. -/
def readU64 (v : JValue Json) : Option UInt64 :=
  v.asNum.bind fun n => if n < 2 ^ 64 then some (UInt64.ofNat n) else none

def readExtra (reread : Json → Option Json) (v : JValue Json) : Option (List (String × Json)) :=
  v.asObj.bind fun fields => fields.mapM fun f => (f.2.asPayload reread).map fun p => (f.1, p)

def ofJson (reread : Json → Option Json) (v : JValue Json) : Option Metrics := do
  let fields ← v.asObj
  let wallTimeMs ← JValue.required fields "wall_time_ms" readU64
  let extra ← JValue.withDefault fields "extra" [] (readExtra reread)
  pure ⟨wallTimeMs, extra⟩

theorem readU64_num (n : UInt64) : readU64 (.num n.toNat) = some n := by
  rw [readU64, JValue.asNum, Option.bind_some, if_pos n.toNat_lt, UInt64.ofNat_toNat]

/-- Each payload of the metrics is read as it was written. -/
def Lossless (reread : Json → Option Json) (m : Metrics) : Prop :=
  ∀ f ∈ m.extra, reread f.2 = some f.2

variable {reread : Json → Option Json}

theorem readExtra_obj (extra : List (String × Json)) :
    readExtra reread (.obj (extra.map fun f => (f.1, .payload f.2))) = some extra ↔
      ∀ f ∈ extra, reread f.2 = some f.2 := by
  rw [readExtra, JValue.asObj, Option.bind_some, JValue.mapM_map_eq_some]
  refine forall₂_congr fun f _ => ?_
  rw [JValue.asPayload, Option.map_eq_some_iff]
  exact ⟨fun ⟨p, hp, heq⟩ => hp.trans (congrArg (fun f => some f.2) heq), fun h => ⟨_, h, rfl⟩⟩

theorem ofJson_toJson {m : Metrics} : ofJson reread m.toJson = some m ↔ m.Lossless reread := by
  obtain ⟨wallTimeMs, extra⟩ := m
  cases extra with
  | nil =>
    have hread : ofJson reread (toJson ⟨wallTimeMs, []⟩) = (do
        let w ← readU64 (.num wallTimeMs.toNat)
        pure (⟨w, []⟩ : Metrics)) := rfl
    rw [hread, readU64_num]
    exact iff_of_true rfl fun f hf => absurd hf List.not_mem_nil
  | cons f extra =>
  have hread : ofJson reread (toJson ⟨wallTimeMs, f :: extra⟩) = (do
      let w ← readU64 (.num wallTimeMs.toNat)
      let es ← readExtra reread
        (.obj ((f :: extra).map fun f : String × Json => (f.1, .payload f.2)))
      pure (⟨w, es⟩ : Metrics)) := rfl
  rw [hread, readU64_num, Lossless, ← readExtra_obj]
  simp [Option.bind_eq_some_iff]

end Metrics

/-! ## Extensions -/

/-- What only reports about deployments, or about resources, have. -/
inductive EntityExtension
  | deployment (operationalState : DeploymentOperationalState) (terminal : Bool)
  | resource (operationalState : ResourceOperationalState) (terminal volatile : Bool)
deriving DecidableEq

namespace EntityExtension

def isTerminal : EntityExtension → Bool
  | deployment _ terminal => terminal
  | resource _ terminal _ => terminal

def isVolatile : EntityExtension → Bool
  | deployment _ _ => false
  | resource _ _ volatile => volatile

def toJson : EntityExtension → JValue Json
  | deployment operationalState terminal =>
    .obj [("kind", .str "DEPLOYMENT"), ("operational_state", .str operationalState.asStr),
      ("terminal", .bool terminal)]
  | resource operationalState terminal volatile =>
    .obj [("kind", .str "RESOURCE"), ("operational_state", .str operationalState.asStr),
      ("terminal", .bool terminal), ("volatile", .bool volatile)]

def ofJson (v : JValue Json) : Option EntityExtension := do
  let fields ← v.asObj
  match ← JValue.required fields "kind" JValue.asStr with
  | "DEPLOYMENT" =>
    let state ← JValue.required fields "operational_state" fun v =>
      v.asStr.bind DeploymentOperationalState.fromStr
    let terminal ← JValue.withDefault fields "terminal" false JValue.asBool
    pure (deployment state terminal)
  | "RESOURCE" =>
    let state ← JValue.required fields "operational_state" fun v =>
      v.asStr.bind ResourceOperationalState.fromStr
    let terminal ← JValue.withDefault fields "terminal" false JValue.asBool
    let volatile ← JValue.withDefault fields "volatile" false JValue.asBool
    pure (resource state terminal volatile)
  | _ => none

theorem ofJson_toJson (e : EntityExtension) : ofJson e.toJson = some e := by
  cases e with
  | deployment operationalState terminal =>
    change (do
      let o ← DeploymentOperationalState.fromStr operationalState.asStr
      pure (deployment o terminal)) = _
    rw [DeploymentOperationalState.fromStr_asStr]
    rfl
  | resource operationalState terminal volatile =>
  change (do
    let o ← ResourceOperationalState.fromStr operationalState.asStr
    pure (resource o terminal volatile)) = _
  rw [ResourceOperationalState.fromStr_asStr]
  rfl

end EntityExtension

/-! ## Reports -/

/-- A report, with everything that is published. -/
structure Report where
  entityQid : EntityQid
  timestamp : ℕ
  outcome : Outcome
  metrics : Metrics
  extension : EntityExtension

namespace Report

/-- What the engines publish for a report: the time, the time it took, and the state of the
entity. -/
def ofEngine (timestamp : ℕ) (wallTimeMs : UInt64) : Skyr.Report → Report
  | .resource qid outcome operationalState terminal volatile =>
    ⟨.resource ⟨qid.environmentQid, qid.resourceId⟩, timestamp, outcome, .wallTime wallTimeMs,
      .resource operationalState terminal volatile⟩
  | .deployment qid outcome operationalState terminal =>
    ⟨.deployment qid, timestamp, outcome, .wallTime wallTimeMs,
      .deployment operationalState terminal⟩

variable [Timestamps]

def toJson (r : Report) : JValue Json :=
  .obj [("entity_qid", r.entityQid.toJson), ("timestamp", .str (Timestamps.print r.timestamp)),
    ("outcome", r.outcome.toJson), ("metrics", r.metrics.toJson),
    ("extension", r.extension.toJson)]

def ofJson (reread : Json → Option Json) (v : JValue Json) : Option Report := do
  let fields ← v.asObj
  let entityQid ← JValue.required fields "entity_qid" EntityQid.ofJson
  let timestamp ← JValue.required fields "timestamp" fun v => v.asStr.bind Timestamps.parse
  let outcome ← JValue.required fields "outcome" Outcome.ofJson
  let metrics ← JValue.withDefault fields "metrics" .default (Metrics.ofJson reread)
  let extension ← JValue.required fields "extension" EntityExtension.ofJson
  pure ⟨entityQid, timestamp, outcome, metrics, extension⟩

/-- **A report is read back as it was written if and only if its entity parses from its text** and
its metrics are read as they were written. -/
theorem ofJson_toJson {reread : Json → Option Json} {r : Report} :
    ofJson reread r.toJson = some r ↔ r.entityQid.Readable ∧ r.metrics.Lossless reread := by
  have hread : ofJson reread r.toJson = (do
      let e ← EntityQid.ofJson r.entityQid.toJson
      let t ← Timestamps.parse (Timestamps.print r.timestamp)
      let o ← Outcome.ofJson r.outcome.toJson
      let m ← Metrics.ofJson reread r.metrics.toJson
      let x ← EntityExtension.ofJson r.extension.toJson
      pure (⟨e, t, o, m, x⟩ : Report)) := rfl
  rw [hread, Timestamps.parse_print, Outcome.ofJson_toJson, EntityExtension.ofJson_toJson,
    ← EntityQid.ofJson_toJson, ← Metrics.ofJson_toJson]
  obtain ⟨entityQid, timestamp, outcome, metrics, extension⟩ := r
  simp [Option.bind_eq_some_iff]

end Report

end Rq

end Skyr
