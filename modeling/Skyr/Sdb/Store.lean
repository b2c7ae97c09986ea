import Mathlib.Data.List.AList
import Skyr.Rq

/-!
# The status database

Four tables: the status summary of each entity; the incidents of each environment; the *open slots*,
one row per entity and category with the id of the incident that is open; and the failure reports of
each incident.

All columns but the keys may be null, and `UPDATE` creates a row if there is none: what it does not
set is null then (`Store.modify`).  A client that reads an incident insists on the columns that are
always set when an incident is opened (`IncidentRow.decode`), so that such a row is an error for
whoever comes across it.
-/

namespace Skyr.Sdb

/-! ## Rows -/

/-- An incident as a row, with its columns other than the key. -/
structure IncidentRow where
  entityQid : Option String
  category : Option IncidentCategory
  openedAt : Option ℕ
  closedAt : Option ℕ
  lastReportAt : Option ℕ
  reportCount : Option ℤ
  summary : Option String
deriving DecidableEq

/-- A row all of whose columns are null. -/
def IncidentRow.null : IncidentRow := ⟨none, none, none, none, none, none, none⟩

/-- What is set when an incident is closed. -/
def IncidentRow.stampClosed (closedAt lastReportAt : ℕ) (reportCount : ℤ) (row : IncidentRow) :
    IncidentRow :=
  { row with
    closedAt := some closedAt
    lastReportAt := some lastReportAt
    reportCount := some reportCount }

/-- What is set when a failure is appended to an incident. -/
def IncidentRow.stampAppended (lastReportAt : ℕ) (reportCount : ℤ) (summary : String)
    (row : IncidentRow) : IncidentRow :=
  { row with
    lastReportAt := some lastReportAt
    reportCount := some reportCount
    summary := some summary }

/-- An incident as clients see it. -/
structure Incident where
  id : ℕ
  entityQid : String
  category : IncidentCategory
  openedAt : ℕ
  closedAt : Option ℕ
  lastReportAt : ℕ
  reportCount : ℕ
  summary : String
deriving DecidableEq

/-- Reading a row; columns that must not be null are an error if they are. -/
def IncidentRow.decode (id : ℕ) (r : IncidentRow) : Except String Incident :=
  match r.entityQid, r.category, r.openedAt, r.lastReportAt, r.reportCount with
  | some entityQid, some category, some openedAt, some lastReportAt, some reportCount =>
    .ok ⟨id, entityQid, category, openedAt, r.closedAt, lastReportAt, reportCount.toNat,
      r.summary.getD ""⟩
  | _, _, _, _, _ => .error "unexpected null"

/-- A number as it is stored in a column of 64 bits. -/
def storedCount (n : ℕ) : ℤ := min (n : ℤ) (2 ^ 63 - 1)

/-- A number of 32 bits without sign as one with sign. -/
def asI32 (n : ℕ) : ℤ := if n < 2 ^ 31 then n else n - 2 ^ 32

/-- A status summary as a row. -/
structure SummaryRow where
  lastReportAt : ℕ
  lastReportSucceeded : Bool
  openIncidentCount : ℤ
  worstOpenCategory : Option IncidentCategory
  consecutiveFailureCount : ℤ
  operationalState : Option String
deriving DecidableEq

/-- A status summary as clients see it. -/
structure StatusSummary where
  entityQid : String
  lastReportAt : ℕ
  lastReportSucceeded : Bool
  openIncidentCount : ℕ
  worstOpenCategory : Option IncidentCategory
  consecutiveFailureCount : ℕ
  operationalState : Option String
deriving DecidableEq

def SummaryRow.decode (entityQid : String) (r : SummaryRow) : StatusSummary :=
  ⟨entityQid, r.lastReportAt, r.lastReportSucceeded, r.openIncidentCount.toNat,
    r.worstOpenCategory, r.consecutiveFailureCount.toNat, r.operationalState⟩

def StatusSummary.encode (s : StatusSummary) : SummaryRow :=
  ⟨s.lastReportAt, s.lastReportSucceeded, asI32 s.openIncidentCount, s.worstOpenCategory,
    asI32 s.consecutiveFailureCount, s.operationalState⟩

/-! ## Tables -/

/-- The key of an incident: its environment and its id. -/
abbrev IncidentKey := String × ℕ

/-- The tables. -/
structure Store where
  summaries : String → Option SummaryRow
  incidents : AList fun _ : IncidentKey => IncidentRow
  openSlots : String → IncidentCategory → Option ℕ
  /-- Messages, by incident and time. -/
  reports : AList fun _ : ℕ × ℕ => String

namespace Store

def empty : Store := ⟨fun _ => none, ∅, fun _ _ => none, ∅⟩

/-- The row of an incident. -/
def incident (s : Store) (key : IncidentKey) : Option IncidentRow := s.incidents.lookup key

/-- The categories in the order of their names, which is the order of open slots. -/
def slotOrder : List IncidentCategory :=
  [.badConfiguration, .cannotProgress, .crash, .inconsistentState, .systemError]

/-- The open slots of an entity. -/
def slotsOf (s : Store) (entityQid : String) : List (IncidentCategory × ℕ) :=
  slotOrder.filterMap fun c => (s.openSlots entityQid c).map (c, ·)

/-- The incidents of an environment, the newest first. -/
def incidentsOf (s : Store) (envQid : String) : List (ℕ × IncidentRow) :=
  ((s.incidents.entries.filter fun r => r.1.1 = envQid).map fun r => (r.1.2, r.2)).insertionSort
    fun a b => b.1 ≤ a.1

/-- The reports of an incident, the newest first. -/
def reportsOf (s : Store) (incidentId : ℕ) : List (ℕ × String) :=
  ((s.reports.entries.filter fun r => r.1.1 = incidentId).map fun r => (r.1.2, r.2)).insertionSort
    fun a b => b.1 ≤ a.1

def setSummary (s : Store) (entityQid : String) (row : Option SummaryRow) : Store :=
  { s with summaries := Function.update s.summaries entityQid row }

def setSlot (s : Store) (entityQid : String) (category : IncidentCategory) (id : Option ℕ) :
    Store :=
  { s with openSlots := fun e c =>
      if e = entityQid ∧ c = category then id else s.openSlots e c }

def putIncident (s : Store) (key : IncidentKey) (row : IncidentRow) : Store :=
  { s with incidents := s.incidents.insert key row }

/-- Sets some columns of a row.  A row that is not there is created. -/
def modify (s : Store) (key : IncidentKey) (f : IncidentRow → IncidentRow) : Store :=
  s.putIncident key (f ((s.incident key).getD .null))

def putReport (s : Store) (incidentId reportAt : ℕ) (errorMessage : String) : Store :=
  { s with reports := s.reports.insert (incidentId, reportAt) errorMessage }

variable (s : Store)

@[simp] theorem incident_putIncident_self (key : IncidentKey) (row : IncidentRow) :
    (s.putIncident key row).incident key = some row :=
  AList.lookup_insert _

@[simp] theorem incident_putIncident_ne {key key' : IncidentKey} (row : IncidentRow)
    (h : key' ≠ key) : (s.putIncident key row).incident key' = s.incident key' :=
  AList.lookup_insert_ne h

@[simp] theorem openSlots_putIncident (key : IncidentKey) (row : IncidentRow) :
    (s.putIncident key row).openSlots = s.openSlots := rfl

@[simp] theorem incident_setSlot (e : String) (c : IncidentCategory) (id : Option ℕ)
    (key : IncidentKey) : (s.setSlot e c id).incident key = s.incident key := rfl

@[simp] theorem openSlots_setSlot_self (e : String) (c : IncidentCategory) (id : Option ℕ) :
    (s.setSlot e c id).openSlots e c = id := if_pos ⟨rfl, rfl⟩

theorem openSlots_setSlot_ne {e e' : String} {c c' : IncidentCategory} (id : Option ℕ)
    (h : ¬ (e' = e ∧ c' = c)) : (s.setSlot e c id).openSlots e' c' = s.openSlots e' c' := if_neg h

/-- A row is listed under its environment. -/
theorem mem_incidentsOf {s : Store} {envQid : String} {id : ℕ} {row : IncidentRow} :
    (id, row) ∈ s.incidentsOf envQid ↔ s.incident (envQid, id) = some row := by
  rw [incidentsOf, (List.perm_insertionSort _ _).mem_iff, List.mem_map, incident]
  constructor
  · rintro ⟨⟨⟨env, id'⟩, row'⟩, hr, heq⟩
    obtain ⟨hr, henv⟩ := List.mem_filter.1 hr
    cases heq
    rw [show envQid = env from (of_decide_eq_true henv).symm]
    exact AList.mem_lookup_iff.2 hr
  intro h
  exact ⟨⟨(envQid, id), row⟩,
    List.mem_filter.2 ⟨AList.mem_lookup_iff.1 h, decide_eq_true rfl⟩, rfl⟩

theorem mem_slotsOf {s : Store} {e : String} {c : IncidentCategory} {id : ℕ} :
    (c, id) ∈ s.slotsOf e ↔ s.openSlots e c = some id := by
  have hall : c ∈ slotOrder := by cases c <;> decide
  rw [slotsOf, List.mem_filterMap]
  constructor
  · rintro ⟨c', -, h⟩
    obtain ⟨id', hid, heq⟩ := Option.map_eq_some_iff.1 h
    cases heq
    exact hid
  · intro h
    exact ⟨c, hall, by rw [h]; rfl⟩

end Store

/-! ## Statements -/

/-- A statement. -/
inductive Statement
  | getStatusSummary (entityQid : String)
  | upsertStatusSummary (entityQid : String) (row : SummaryRow)
  | deleteStatusSummary (entityQid : String)
  | claimOpenSlot (entityQid : String) (category : IncidentCategory) (incidentId : ℕ)
  | releaseOpenSlot (entityQid : String) (category : IncidentCategory)
  | getOpenSlot (entityQid : String) (category : IncidentCategory)
  | listOpenSlotsForEntity (entityQid : String)
  | insertIncident (key : IncidentKey) (row : IncidentRow)
  | getIncident (key : IncidentKey)
  | listIncidentsInEnv (envQid : String)
  | updateIncidentClose (key : IncidentKey) (closedAt lastReportAt : ℕ) (reportCount : ℤ)
  | updateIncidentAppend (key : IncidentKey) (lastReportAt : ℕ) (reportCount : ℤ) (summary : String)
  | insertIncidentReport (incidentId reportAt : ℕ) (errorMessage : String)
  | listIncidentReports (incidentId : ℕ)

namespace Statement

/-- What a statement returns. -/
@[reducible] def Result : Statement → Type
  | getStatusSummary _ => Option SummaryRow
  | claimOpenSlot .. => Option ℕ
  | releaseOpenSlot .. => Bool
  | getOpenSlot .. => Option ℕ
  | listOpenSlotsForEntity _ => List (IncidentCategory × ℕ)
  | getIncident _ => Option IncidentRow
  | listIncidentsInEnv _ => List (ℕ × IncidentRow)
  | listIncidentReports _ => List (ℕ × String)
  | upsertStatusSummary .. | deleteStatusSummary _ | insertIncident .. | updateIncidentClose ..
  | updateIncidentAppend .. | insertIncidentReport .. => Unit

/-- Carry out a statement.  A claim of a slot that is taken returns the id in it and does
nothing. -/
def exec : (o : Statement) → Store → o.Result × Store
  | getStatusSummary e, s => (s.summaries e, s)
  | upsertStatusSummary e row, s => ((), s.setSummary e (some row))
  | deleteStatusSummary e, s => ((), s.setSummary e none)
  | claimOpenSlot e c id, s =>
    match s.openSlots e c with
    | some existing => (some existing, s)
    | none => (none, s.setSlot e c (some id))
  | releaseOpenSlot e c, s => ((s.openSlots e c).isSome, s.setSlot e c none)
  | getOpenSlot e c, s => (s.openSlots e c, s)
  | listOpenSlotsForEntity e, s => (s.slotsOf e, s)
  | insertIncident key row, s => ((), s.putIncident key row)
  | getIncident key, s => (s.incident key, s)
  | listIncidentsInEnv env, s => (s.incidentsOf env, s)
  | updateIncidentClose key closedAt lastReportAt reportCount, s =>
    ((), s.modify key (.stampClosed closedAt lastReportAt reportCount))
  | updateIncidentAppend key lastReportAt reportCount summary, s =>
    ((), s.modify key (.stampAppended lastReportAt reportCount summary))
  | insertIncidentReport id reportAt m, s => ((), s.putReport id reportAt m)
  | listIncidentReports id, s => (s.reportsOf id, s)

end Statement

end Skyr.Sdb
