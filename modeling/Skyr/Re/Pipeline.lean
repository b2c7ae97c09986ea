import Skyr.Sdb.Client

/-!
# Processing a report

What the reporting engine does with a report.  A failure is added to the incident that is open for
its category, or counted, or opens an incident; a success closes all incidents of its entity.  Then
the status summary is written anew, what is remembered of the entity is brought up to date, and if
the entity is gone its summary is deleted.

Every incident that is opened or closed is announced on the notification queue.
-/

namespace Skyr.Re

open Sdb (statusSummary upsertStatusSummary deleteStatusSummary findOpenIncidentId
  listOpenIncidentsForEntity incidentInEnv openIncident appendFailureToOpenIncident closeIncident)

/-! ## What a report says -/

/-- The environment of an entity. -/
def envQidString : Rq.EntityQid → String
  | .deployment qid => qid.environment.toString
  | .resource qid => qid.environment.toString

def operationalStateStr : Rq.EntityExtension → String
  | .deployment state _ => state.asStr
  | .resource state _ _ => state.asStr

def isSuccess : Outcome → Bool
  | .success => true
  | .failure .. => false

/-- The place of a category among all of them, by severity. -/
def severity (c : IncidentCategory) : ℕ := IncidentCategory.all.idxOf c

/-- The worst category of a list. -/
def worst (cs : List IncidentCategory) : Option IncidentCategory :=
  cs.foldl (fun w c =>
    match w with
    | none => some c
    | some d => if severity d ≤ severity c then some c else some d) none

/-- One more than a number of 32 bits, as long as there is one. -/
def saturatingSucc (n : ℕ) : ℕ := min (n + 1) (2 ^ 32 - 1)

/-! ## Failures and successes -/

/-- What is remembered when a report has been processed. -/
def freshHeartbeatEntry (now : ℕ) (operationalState : Option String) (volatile : Bool) :
    HeartbeatEntry :=
  ⟨now, operationalState, volatile, false⟩

def openedNotification (entityQid : String) (category : IncidentCategory)
    (incident : Sdb.Incident) : NotificationRequest :=
  ⟨incident.id, .opened, entityQid, category, incident.openedAt, none, some incident.summary⟩

def closedNotification (entityQid : String) (category : IncidentCategory)
    (incident : Sdb.Incident) : NotificationRequest :=
  ⟨incident.id, .closed, entityQid, category, incident.openedAt, incident.closedAt,
    if incident.summary = "" then none else some incident.summary⟩

/-- `newId` is the id that is drawn if an incident is opened. -/
def handleFailure (thresholds : ThresholdConfig) (newId : ℕ) (entityQid envQid : String)
    (category : IncidentCategory) (errorMessage : String) (reportAt now : ℕ) : Work Unit := do
  match ← findOpenIncidentId entityQid category with
  | some id =>
    let existing ← incidentInEnv envQid id
    let (nextCount, openedAt) :=
      match existing with
      | some inc => (inc.reportCount + 1, inc.openedAt)
      | none => (1, reportAt)
    let _ ← appendFailureToOpenIncident id entityQid envQid category openedAt reportAt nextCount
      errorMessage
  | none =>
    let tripped ← Work.recordAndCheck entityQid category (thresholds.ruleFor category) reportAt now
    if tripped then
      match ← openIncident newId entityQid envQid category reportAt errorMessage with
      | .opened incident => Work.enqueue (openedNotification entityQid category incident)
      | .alreadyOpen existingId =>
        match ← incidentInEnv envQid existingId with
        | some inc =>
          let _ ← appendFailureToOpenIncident inc.id entityQid envQid category inc.openedAt reportAt
            (inc.reportCount + 1) errorMessage
        | none => pure ()
    else
      pure ()

/-- The count of the incident in a slot; an error of any kind counts as one report. -/
def runningCountFor (entityQid envQid : String) (category : IncidentCategory) : Work ℕ := do
  match ← (findOpenIncidentId entityQid category).attempt with
  | .ok (some id) =>
    match ← (incidentInEnv envQid id).attempt with
    | .ok (some inc) => pure inc.reportCount
    | _ => pure 1
  | _ => pure 1

/-- Close the incident of one category, and announce it. -/
def closeOne (entityQid envQid : String) (reportAt : ℕ) (category : IncidentCategory) :
    Work Unit := do
  let count ← runningCountFor entityQid envQid category
  match ← closeIncident entityQid envQid category reportAt reportAt count with
  | .closed incident => Work.enqueue (closedNotification entityQid category incident)
  | .notOpen => pure ()

def handleSuccess (entityQid envQid : String) (reportAt : ℕ) : Work Unit := do
  let slots ← listOpenIncidentsForEntity entityQid
  slots.forM fun slot => closeOne entityQid envQid reportAt slot.1

/-! ## Reports -/

section Reports

variable [SclData]

/-- How often the entity has failed in a row. -/
def consecutiveFailures (outcome : Outcome) (prev : Option Sdb.StatusSummary) : ℕ :=
  match outcome, prev with
  | .success, _ => 0
  | .failure .., some s => saturatingSucc s.consecutiveFailureCount
  | .failure .., none => 1

/-- The incidents of a report. -/
def handleOutcome (thresholds : ThresholdConfig) (newId now : ℕ) (report : Rq.Report) :
    Work Unit := do
  let entityQid := report.entityQid.asString
  let envQid := envQidString report.entityQid
  match report.outcome with
  | .failure category errorMessage =>
    handleFailure thresholds newId entityQid envQid category errorMessage report.timestamp now
  | .success =>
    handleSuccess entityQid envQid report.timestamp
    Work.forgetEntity entityQid

/-- The summary after a report. -/
def summaryOf (report : Rq.Report) (consecutiveFailureCount : ℕ)
    (openList : List (IncidentCategory × ℕ)) : Sdb.StatusSummary :=
  ⟨report.entityQid.asString, report.timestamp, isSuccess report.outcome, openList.length,
    worst (openList.map Prod.fst), consecutiveFailureCount,
    some (operationalStateStr report.extension)⟩

/-- Everything but the databases: the memory of the engine and the routing index. -/
def afterSummary (now : ℕ) (report : Rq.Report) : Work Unit := do
  let entityQid := report.entityQid.asString
  let terminal := report.extension.isTerminal
  Work.heartbeat entityQid (if terminal then none
    else some (freshHeartbeatEntry now (some (operationalStateStr report.extension))
      report.extension.isVolatile))
  match report.entityQid with
  | .resource qid => Work.maintainIndex qid report.timestamp terminal
  | .deployment _ => pure ()
  if terminal then
    deleteStatusSummary entityQid
    Work.forgetEntity entityQid
  else
    pure ()

/-- Process a report.  `now` is the time at which this happens. -/
def processReport (thresholds : ThresholdConfig) (newId now : ℕ) (report : Rq.Report) :
    Work Unit := do
  let entityQid := report.entityQid.asString
  let prev ← statusSummary entityQid
  let consecutiveFailureCount := consecutiveFailures report.outcome prev
  handleOutcome thresholds newId now report
  let openList ← listOpenIncidentsForEntity entityQid
  upsertStatusSummary (summaryOf report consecutiveFailureCount openList)
  afterSummary now report

end Reports

end Skyr.Re
