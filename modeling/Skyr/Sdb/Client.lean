import Skyr.Re.World

/-!
# The client of the status database

Opening an incident claims the open slot of its entity and category, writes the first report and
writes the incident, in this order; closing one releases the slot and stamps the incident.  The
statement on the slot decides which of several attempts is the one that counts.
-/

namespace Skyr.Sdb

open Re (Work)

/-! ## Summaries of incidents -/

def reportMessageMaxChars : ℕ := 512

def truncateForSummary (message : String) : String :=
  if message.toList.length ≤ reportMessageMaxChars then message
  else String.ofList (message.toList.take reportMessageMaxChars) ++ "..."

/-- The distinct messages, in the order in which they were first seen. -/
def computeSummary (reports : List (ℕ × String)) : String :=
  let chronological := reports.insertionSort fun a b => a.1 ≤ b.1
  let seen := chronological.foldl (fun seen r =>
    let truncated := truncateForSummary r.2
    if truncated = "" ∨ truncated ∈ seen then seen else seen ++ [truncated]) []
  "\n\n".intercalate seen

/-! ## Reading -/

def statusSummary (entityQid : String) : Work (Option StatusSummary) := do
  let row ← Work.sdb (.getStatusSummary entityQid)
  pure (row.map (·.decode entityQid))

def upsertStatusSummary (summary : StatusSummary) : Work Unit :=
  Work.sdb (.upsertStatusSummary summary.entityQid summary.encode)

def deleteStatusSummary (entityQid : String) : Work Unit :=
  Work.sdb (.deleteStatusSummary entityQid)

def findOpenIncidentId (entityQid : String) (category : IncidentCategory) : Work (Option ℕ) :=
  Work.sdb (.getOpenSlot entityQid category)

def listOpenIncidentsForEntity (entityQid : String) : Work (List (IncidentCategory × ℕ)) :=
  Work.sdb (.listOpenSlotsForEntity entityQid)

def incidentInEnv (envQid : String) (id : ℕ) : Work (Option Incident) := do
  match ← Work.sdb (.getIncident (envQid, id)) with
  | none => pure none
  | some row => some <$> Work.orFail (row.decode id)

def incidentsInEnv (envQid : String) : Work (List Incident) := do
  let rows ← Work.sdb (.listIncidentsInEnv envQid)
  Work.orFail (rows.mapM fun r => r.2.decode r.1)

def listReportsForIncident (incidentId : ℕ) : Work (List (ℕ × String)) :=
  Work.sdb (.listIncidentReports incidentId)

/-! ## Incidents -/

inductive OpenIncidentOutcome
  | opened (incident : Incident)
  | alreadyOpen (existingId : ℕ)

inductive CloseIncidentOutcome
  | closed (incident : Incident)
  | notOpen

/-- The row of an incident that is opened. -/
def openedRow (entityQid : String) (category : IncidentCategory) (openedAt : ℕ)
    (summary : String) : IncidentRow :=
  ⟨some entityQid, some category, some openedAt, none, some openedAt, some 1, some summary⟩

/-- Open an incident; `newId` is the id that is drawn for it. -/
def openIncident (newId : ℕ) (entityQid envQid : String) (category : IncidentCategory)
    (openedAt : ℕ) (errorMessage : String) : Work OpenIncidentOutcome := do
  match ← Work.sdb (.claimOpenSlot entityQid category newId) with
  | some existingId => pure (.alreadyOpen existingId)
  | none =>
    Work.sdb (.insertIncidentReport newId openedAt errorMessage)
    let summary := truncateForSummary errorMessage
    Work.sdb (.insertIncident (envQid, newId) (openedRow entityQid category openedAt summary))
    pure (.opened ⟨newId, entityQid, category, openedAt, none, openedAt, 1, summary⟩)

/-- Add a failure to an incident that is open. -/
def appendFailureToOpenIncident (incidentId : ℕ) (entityQid envQid : String)
    (category : IncidentCategory) (openedAt lastReportAt newReportCount : ℕ)
    (errorMessage : String) : Work (Option Incident) := do
  Work.sdb (.insertIncidentReport incidentId lastReportAt errorMessage)
  let reports ← listReportsForIncident incidentId
  let summary := computeSummary reports
  Work.sdb (.updateIncidentAppend (envQid, incidentId) lastReportAt (storedCount newReportCount)
    summary)
  let incident ← incidentInEnv envQid incidentId
  -- what was just written is returned, whatever was read
  pure (incident.map fun inc =>
    { inc with
      entityQid := entityQid
      category := category
      openedAt := openedAt
      lastReportAt := lastReportAt
      reportCount := newReportCount
      summary := summary })

def closeIncident (entityQid envQid : String) (category : IncidentCategory)
    (closedAt lastReportAt finalReportCount : ℕ) : Work CloseIncidentOutcome := do
  match ← Work.sdb (.getOpenSlot entityQid category) with
  | none => pure .notOpen
  | some incidentId =>
    let _ ← Work.sdb (.releaseOpenSlot entityQid category)
    Work.sdb (.updateIncidentClose (envQid, incidentId) closedAt lastReportAt
      (storedCount finalReportCount))
    match ← incidentInEnv envQid incidentId with
    | some incident => pure (.closed incident)
    | none => pure .notOpen

end Skyr.Sdb
