import Skyr.Re.Pipeline
import Skyr.Sdb.Incidents

/-!
# Processing a report twice

A report may be delivered more than once.  A success that is processed again finds no incident open
and writes the same summary as before.  A failure is another matter: it is counted once more, both
in the summary and in its incident, so that a failure that gets through can be processed twice
without a trace only if it ends the life of its entity and is not the one too many.

Besides, the database may hold incidents that cannot be read (see `Sdb.Incidents`).  Such an
incident stops the processing of a failure before anything is counted, and the processing of a
success in the middle: what is left then falls to the next delivery.

Here nothing fails by itself: every statement is carried out (`fineTurn`).  Two processings of a
report may take place at different times and draw different ids.
-/

namespace Skyr.Sdb

/-! ## Rows that are closed -/

namespace IncidentRow

/-- The columns that are set when an incident is opened and never again. -/
def identified (row : IncidentRow) : Bool :=
  row.entityQid.isSome && row.category.isSome && row.openedAt.isSome

/-- The number of reports that is counted for a row; a row that cannot be read counts as one. -/
def runningCount (id : ℕ) (row : IncidentRow) : ℕ :=
  match row.decode id with
  | .ok i => i.reportCount
  | .error _ => 1

/-- What a success of the time `reportAt` makes of a row. -/
def closedBy (id reportAt : ℕ) (row : IncidentRow) : IncidentRow :=
  row.stampClosed reportAt reportAt (storedCount (row.runningCount id))

theorem decode_of_not_complete {row : IncidentRow} (h : ¬ row.Complete) (id : ℕ) :
    row.decode id = .error "unexpected null" := by
  rw [decode]
  split
  · rename_i he hc ho hl hn
    refine absurd ?_ h
    constructor <;> simp only [he, hc, ho, hl, hn, Option.isSome_some]
  · rfl

variable {row : IncidentRow}

theorem complete_stampClosed {closedAt lastReportAt : ℕ} {n : ℤ} :
    (row.stampClosed closedAt lastReportAt n).Complete ↔ row.identified = true := by
  rw [identified, Bool.and_eq_true, Bool.and_eq_true]
  exact ⟨fun h => ⟨⟨h.entityQid, h.category⟩, h.openedAt⟩, fun h => ⟨h.1.1, h.1.2, h.2, rfl, rfl⟩⟩

theorem complete_stampAppended {lastReportAt : ℕ} {n : ℤ} {summary : String} :
    (row.stampAppended lastReportAt n summary).Complete ↔ row.identified = true := by
  rw [identified, Bool.and_eq_true, Bool.and_eq_true]
  exact ⟨fun h => ⟨⟨h.entityQid, h.category⟩, h.openedAt⟩, fun h => ⟨h.1.1, h.1.2, h.2, rfl, rfl⟩⟩

@[simp] theorem reportCount_stampAppended (lastReportAt : ℕ) (n : ℤ) (summary : String) :
    (row.stampAppended lastReportAt n summary).reportCount = some n := rfl

@[simp] theorem stampAppended_stampAppended (lastReportAt lastReportAt' : ℕ) (n n' : ℤ)
    (summary summary' : String) :
    (row.stampAppended lastReportAt n summary).stampAppended lastReportAt' n' summary' =
      row.stampAppended lastReportAt' n' summary' := rfl

theorem Complete.identified (h : row.Complete) : row.identified = true := by
  rw [IncidentRow.identified, h.entityQid, h.category, h.openedAt]
  rfl

theorem runningCount_of_not_complete (h : ¬ row.Complete) (id : ℕ) : row.runningCount id = 1 := by
  rw [runningCount, decode_of_not_complete h]

theorem runningCount_of_complete (h : row.Complete) (id : ℕ) :
    row.runningCount id = (row.reportCount.getD 0).toNat := by
  obtain ⟨e, he⟩ := Option.isSome_iff_exists.1 h.entityQid
  obtain ⟨c, hc⟩ := Option.isSome_iff_exists.1 h.category
  obtain ⟨o, ho⟩ := Option.isSome_iff_exists.1 h.openedAt
  obtain ⟨l, hl⟩ := Option.isSome_iff_exists.1 h.lastReportAt
  obtain ⟨n, hn⟩ := Option.isSome_iff_exists.1 h.reportCount
  rw [runningCount, IncidentRow.decode, he, hc, ho, hl, hn]
  rfl

end IncidentRow

theorem storedCount_toNat (n : ℕ) : storedCount (storedCount n).toNat = storedCount n := by
  simp only [storedCount]
  omega

/-- A number that is read, increased and stored again is another one, unless it is the largest that
can be stored. -/
theorem storedCount_succ_eq_iff (n : ℕ) :
    storedCount ((storedCount (n + 1)).toNat + 1) = storedCount (n + 1) ↔ 2 ^ 63 - 2 ≤ n := by
  simp only [storedCount]
  omega

/-- Closing an incident again at the same time changes nothing. -/
theorem IncidentRow.closedBy_closedBy (id reportAt : ℕ) (row : IncidentRow) :
    (row.closedBy id reportAt).closedBy id reportAt = row.closedBy id reportAt := by
  have hcount : storedCount ((row.closedBy id reportAt).runningCount id) =
      storedCount (row.runningCount id) := by
    by_cases hrow : (row.closedBy id reportAt).Complete
    · rw [runningCount_of_complete hrow]
      exact storedCount_toNat _
    · have hold : ¬ row.Complete := fun h => hrow (complete_stampClosed.2 h.identified)
      rw [runningCount_of_not_complete hrow, runningCount_of_not_complete hold]
  change row.stampClosed reportAt reportAt
    (storedCount ((row.closedBy id reportAt).runningCount id)) = _
  rw [hcount]
  rfl

namespace Store

/-- The columns of an incident; those of one that is not there are null. -/
def row (s : Store) (key : IncidentKey) : IncidentRow := (s.incident key).getD .null

theorem incident_modify (s : Store) (key key' : IncidentKey) (f : IncidentRow → IncidentRow) :
    (s.modify key f).incident key' =
      if key' = key then some (f (s.row key)) else s.incident key' := by
  split
  · subst key'
    exact incident_putIncident_self ..
  · exact incident_putIncident_ne _ _ ‹_›

end Store

end Skyr.Sdb

namespace Skyr.Re

open Sdb (Store IncidentRow)

/-! ## Runs in which nothing fails -/

/-- The run of a program in which everything is carried out. -/
abbrev fine {α : Type} (p : Work α) (s : State) : Except String α × State :=
  Prog.steady fineTurn p s

variable {s s' : State} {e env : String} {c : IncidentCategory}

theorem fine_sdb (o : Sdb.Statement) (s : State) :
    fine (Work.sdb o) s = (.ok (o.exec s.sdb).1, s.withStore (o.exec s.sdb).2) := rfl

theorem fine_bind {α β : Type} {p : Work α} {f : α → Work β} {a : α}
    (h : fine p s = (.ok a, s')) : fine (p >>= f) s = fine (f a) s' :=
  Prog.steady_bind fineTurn h

theorem fine_bind_error {α β : Type} {p : Work α} {f : α → Work β} {x : String}
    (h : fine p s = (.error x, s')) : fine (p >>= f) s = (.error x, s') :=
  Prog.steady_bind_error fineTurn h

theorem fine_attempt {α : Type} {p : Work α} {r : Except String α} (h : fine p s = (r, s')) :
    fine p.attempt s = (.ok r, s') := by
  rw [fine, Prog.steady_attempt]
  change (Except.ok (fine p s).1, (fine p s).2) = _
  rw [h]

variable {id : ℕ}

theorem fine_incidentInEnv {row : IncidentRow} {i : Sdb.Incident}
    (hrow : s.sdb.incident (env, id) = some row) (hi : row.decode id = .ok i) :
    fine (Sdb.incidentInEnv env id) s = (.ok (some i), s) := by
  have hget : fine (Work.sdb (.getIncident (env, id))) s = (.ok (some row), s) := by
    rw [fine_sdb, Sdb.Statement.exec, hrow]
    rfl
  rw [Sdb.incidentInEnv, fine_bind hget]
  change fine (some <$> Work.orFail (row.decode id)) s = _
  rw [hi]
  rfl

theorem fine_incidentInEnv_error {row : IncidentRow} {x : String}
    (hrow : s.sdb.incident (env, id) = some row) (hx : row.decode id = .error x) :
    fine (Sdb.incidentInEnv env id) s = (.error x, s) := by
  have hget : fine (Work.sdb (.getIncident (env, id))) s = (.ok (some row), s) := by
    rw [fine_sdb, Sdb.Statement.exec, hrow]
    rfl
  rw [Sdb.incidentInEnv, fine_bind hget]
  change fine (some <$> Work.orFail (row.decode id)) s = _
  rw [hx]
  rfl

theorem fine_incidentInEnv_none (h : s.sdb.incident (env, id) = none) :
    fine (Sdb.incidentInEnv env id) s = (.ok none, s) := by
  have hget : fine (Work.sdb (.getIncident (env, id))) s = (.ok none, s) := by
    rw [fine_sdb, Sdb.Statement.exec, h]
    rfl
  rw [Sdb.incidentInEnv, fine_bind hget]
  rfl

theorem fine_findOpenIncidentId {id : Option ℕ} (h : s.sdb.openSlots e c = id) :
    fine (Sdb.findOpenIncidentId e c) s = (.ok id, s) := by
  rw [Sdb.findOpenIncidentId, fine_sdb, Sdb.Statement.exec, h]
  rfl

/-! ## Successes -/

section Successes

variable (reportAt : ℕ)

theorem fine_runningCountFor (hslot : s.sdb.openSlots e c = some id) :
    fine (runningCountFor e env c) s = (.ok ((s.sdb.row (env, id)).runningCount id), s) := by
  rw [runningCountFor, fine_bind (fine_attempt (fine_findOpenIncidentId hslot))]
  rw [Store.row, IncidentRow.runningCount]
  cases hrow : s.sdb.incident (env, id) with
  | none =>
    rw [fine_bind (fine_attempt (fine_incidentInEnv_none hrow))]
    rfl
  | some row =>
  rw [Option.getD_some]
  cases hdecode : row.decode id with
  | ok i =>
    rw [fine_bind (fine_attempt (fine_incidentInEnv hrow hdecode))]
    rfl
  | error x =>
    rw [fine_bind (fine_attempt (fine_incidentInEnv_error hrow hdecode))]
    rfl

def closedStore (s : Store) (e env : String) (c : IncidentCategory) (id reportAt : ℕ) : Store :=
  (s.setSlot e c none).modify (env, id) (.closedBy id reportAt)

/-- The row of an incident when a success has closed it. -/
def closedRow (s : State) (env : String) (reportAt id : ℕ) : IncidentRow :=
  (s.sdb.row (env, id)).closedBy id reportAt

/-- What is announced when the incident in a slot is closed: nothing if it cannot be read. -/
def announced (s : State) (e env : String) (reportAt : ℕ) (slot : IncidentCategory × ℕ) :
    List NotificationRequest :=
  match (closedRow s env reportAt slot.2).decode slot.2 with
  | .ok i => [closedNotification e slot.1 i]
  | .error _ => []

/-- Whether the incident in a slot can be read once it is closed. -/
def legible (s : State) (env : String) (slot : IncidentCategory × ℕ) : Bool :=
  (s.sdb.row (env, slot.2)).identified

/-- The state when the incident in a slot has been closed, as far as that goes. -/
def closedState (s : State) (e env : String) (reportAt : ℕ) (slot : IncidentCategory × ℕ) : State :=
  { s with
    sdb := closedStore s.sdb e env slot.1 slot.2 reportAt
    notifications := announced s e env reportAt slot ++ s.notifications }

theorem fine_closeOne {slot : IncidentCategory × ℕ}
    (hslot : s.sdb.openSlots e slot.1 = some slot.2) :
    fine (closeOne e env reportAt slot.1) s =
      (if legible s env slot then .ok () else .error "unexpected null",
        closedState s e env reportAt slot) := by
  obtain ⟨c, id⟩ := slot
  have hget : fine (Work.sdb (.getOpenSlot e c)) s = (.ok (some id), s) :=
    fine_findOpenIncidentId hslot
  have hstamped : (closedStore s.sdb e env c id reportAt).incident (env, id) =
      some (closedRow s env reportAt id) := by
    rw [closedStore, Store.incident_modify, if_pos rfl]
    rfl
  change fine (closeOne e env reportAt c) s = _
  rw [closeOne, fine_bind (fine_runningCountFor hslot)]
  by_cases hrow : (closedRow s env reportAt id).Complete
  · obtain ⟨i, hi⟩ := hrow.decode id
    have hlegible : legible s env (c, id) = true := IncidentRow.complete_stampClosed.1 hrow
    have hannounced : announced s e env reportAt (c, id) = [closedNotification e c i] := by
      simp only [announced, hi]
    rw [if_pos hlegible, closedState, hannounced]
    have hclose : fine (Sdb.closeIncident e env c reportAt reportAt
        ((s.sdb.row (env, id)).runningCount id)) s =
        (.ok (.closed i), s.withStore (closedStore s.sdb e env c id reportAt)) := by
      rw [Sdb.closeIncident, fine_bind hget]
      change fine (Sdb.incidentInEnv env id >>= _)
        (s.withStore (closedStore s.sdb e env c id reportAt)) = _
      rw [fine_bind (fine_incidentInEnv hstamped hi)]
      rfl
    exact fine_bind hclose
  · have hx := IncidentRow.decode_of_not_complete hrow id
    have hlegible : ¬ legible s env (c, id) = true := fun h =>
      hrow (IncidentRow.complete_stampClosed.2 h)
    have hannounced : announced s e env reportAt (c, id) = [] := by simp only [announced, hx]
    rw [if_neg hlegible, closedState, hannounced]
    have hclose : fine (Sdb.closeIncident e env c reportAt reportAt
        ((s.sdb.row (env, id)).runningCount id)) s =
        (.error "unexpected null", s.withStore (closedStore s.sdb e env c id reportAt)) := by
      rw [Sdb.closeIncident, fine_bind hget]
      change fine (Sdb.incidentInEnv env id >>= _)
        (s.withStore (closedStore s.sdb e env c id reportAt)) = _
      exact fine_bind_error (fine_incidentInEnv_error hstamped hx)
    exact fine_bind_error hclose

/-- The slots a success goes through: it stops at the first whose incident cannot be read. -/
def reached (s : State) (env : String) :
    List (IncidentCategory × ℕ) → List (IncidentCategory × ℕ)
  | [] => []
  | slot :: slots => if legible s env slot then slot :: reached s env slots else [slot]

/-- The slots that are still open when a success has stopped. -/
def left (s : State) (env : String) : List (IncidentCategory × ℕ) → List (IncidentCategory × ℕ)
  | [] => []
  | slot :: slots => if legible s env slot then left s env slots else slots

theorem reached_append_left (s : State) (env : String) (slots : List (IncidentCategory × ℕ)) :
    reached s env slots ++ left s env slots = slots := by
  induction slots with
  | nil => rfl
  | cons slot slots ih =>
  rw [reached, left]
  split
  · rw [List.cons_append, ih]
  · rfl

theorem left_eq_nil {slots : List (IncidentCategory × ℕ)}
    (h : slots.all (legible s env) = true) : left s env slots = [] := by
  induction slots with
  | nil => rfl
  | cons slot slots ih =>
  rw [List.all_cons, Bool.and_eq_true] at h
  rw [left, if_pos h.1, ih h.2]

/-- A state in which closing an incident leads to the same row as in another. -/
def Alike (env : String) (reportAt : ℕ) (s t : State) : Prop :=
  ∀ id, closedRow t env reportAt id = closedRow s env reportAt id

section Alike

variable {t : State} (h : Alike env reportAt s t)
include h

theorem Alike.legible : legible t env = legible s env := by
  funext slot
  have hrow := congrArg IncidentRow.identified (h slot.2)
  exact hrow

theorem Alike.announced : announced t e env reportAt = announced s e env reportAt := by
  funext slot
  rw [Re.announced, Re.announced, h]

theorem Alike.reached : reached t env = reached s env := by
  funext slots
  induction slots with
  | nil => rfl
  | cons slot slots ih => rw [Re.reached, Re.reached, h.legible, ih]

theorem Alike.left : left t env = left s env := by
  funext slots
  induction slots with
  | nil => rfl
  | cons slot slots ih => rw [Re.left, Re.left, h.legible, ih]

end Alike

/-- What closing some incidents does to the incidents and the notifications. -/
structure Closing (e env : String) (reportAt : ℕ) (s t : State)
    (slots : List (IncidentCategory × ℕ)) : Prop where
  incidents : ∀ key, t.sdb.incident key =
    if key.1 = env ∧ key.2 ∈ slots.map Prod.snd then some (closedRow s env reportAt key.2)
    else s.sdb.incident key
  notifications : ∀ n, n ∈ t.notifications ↔
    n ∈ s.notifications ∨ ∃ slot ∈ slots, n ∈ announced s e env reportAt slot
  summaries : t.sdb.summaries = s.sdb.summaries

theorem Closing.alike {t : State} {slots : List (IncidentCategory × ℕ)}
    (h : Closing e env reportAt s t slots) : Alike env reportAt s t := by
  intro id
  rw [closedRow, Store.row, h.incidents]
  split
  · exact IncidentRow.closedBy_closedBy ..
  · rfl

theorem closing_closedState (s : State) (slot : IncidentCategory × ℕ) :
    Closing e env reportAt s (closedState s e env reportAt slot) [slot] where
  incidents key := by
    by_cases hkey : key = (env, slot.2)
    · subst hkey
      rw [if_pos ⟨rfl, List.mem_singleton_self _⟩]
      exact (Store.incident_modify ..).trans (if_pos rfl)
    · rw [if_neg fun h => hkey (Prod.ext h.1 (List.mem_singleton.1 h.2))]
      exact (Store.incident_modify ..).trans (if_neg hkey)
  notifications n := by
    simp only [closedState, List.mem_append, List.mem_singleton, exists_eq_left]
    exact or_comm
  summaries := rfl

theorem Closing.trans {t u : State} {slots slots' : List (IncidentCategory × ℕ)}
    (h : Closing e env reportAt s t slots) (h' : Closing e env reportAt t u slots') :
    Closing e env reportAt s u (slots ++ slots') where
  incidents key := by
    rw [h'.incidents, h.incidents, h.alike, List.map_append]
    by_cases hkey : key.1 = env <;> by_cases hid : key.2 ∈ slots.map Prod.snd <;>
      simp only [hkey, hid, true_and, false_and, List.mem_append, true_or, false_or, if_true,
        if_false, ite_self]
  notifications n := by
    rw [h'.notifications, h.notifications, h.alike.announced]
    simp only [List.mem_append, or_and_right, exists_or, or_assoc]
  summaries := h'.summaries.trans h.summaries

theorem nodup_slotsOf (s : Store) (e : String) : ((s.slotsOf e).map Prod.fst).Nodup := by
  have hsub : ∀ l : List IncidentCategory,
      ((l.filterMap fun c => (s.openSlots e c).map (c, ·)).map Prod.fst).Sublist l := by
    intro l
    induction l with
    | nil => exact List.Sublist.slnil
    | cons c l ih =>
    rw [List.filterMap_cons]
    cases s.openSlots e c with
    | none => exact ih.cons c
    | some id => exact ih.cons_cons c
  exact (hsub Store.slotOrder).nodup (by decide)

theorem slotsOf_release {s : Store} {slot : IncidentCategory × ℕ}
    {slots : List (IncidentCategory × ℕ)} (h : s.slotsOf e = slot :: slots) :
    (s.setSlot e slot.1 none).slotsOf e = slots := by
  have hfilter : (s.setSlot e slot.1 none).slotsOf e =
      (s.slotsOf e).filter fun p => p.1 ≠ slot.1 := by
    rw [Store.slotsOf, Store.slotsOf, List.filter_filterMap]
    refine List.filterMap_congr fun c _ => ?_
    by_cases hc : c = slot.1
    · subst hc
      rw [Store.openSlots_setSlot_self]
      cases s.openSlots e slot.1 <;> simp [Option.filter]
    · rw [Store.openSlots_setSlot_ne _ _ fun h => hc h.2]
      cases s.openSlots e c <;> simp [Option.filter, hc]
  have hnodup := nodup_slotsOf s e
  rw [h, List.map_cons, List.nodup_cons] at hnodup
  rw [hfilter, h, List.filter_cons_of_neg (by simp), List.filter_eq_self]
  intro p hp
  exact decide_eq_true fun heq => hnodup.1 (heq ▸ List.mem_map_of_mem hp)

variable (env) in
/-- **A success closes the incidents of its entity** one after another, and stops at one that cannot
be read. -/
theorem fine_closeAll {slots : List (IncidentCategory × ℕ)} (hslots : s.sdb.slotsOf e = slots) :
    ∃ t, fine (slots.forM fun slot => closeOne e env reportAt slot.1) s =
        (if slots.all (legible s env) then .ok () else .error "unexpected null", t) ∧
      Closing e env reportAt s t (reached s env slots) ∧ t.sdb.slotsOf e = left s env slots := by
  induction slots generalizing s with
  | nil => exact ⟨s, rfl, ⟨fun key => by simp [reached], fun n => by simp [reached], rfl⟩, hslots⟩
  | cons slot slots ih =>
  have hslot : s.sdb.openSlots e slot.1 = some slot.2 :=
    Store.mem_slotsOf.1 (hslots ▸ List.mem_cons_self)
  have hone : fine (closeOne e env reportAt slot.1) s = _ := fine_closeOne reportAt hslot
  have hclosing : Closing e env reportAt s (closedState s e env reportAt slot) [slot] :=
    closing_closedState reportAt s slot
  have hrest : (closedState s e env reportAt slot).sdb.slotsOf e = slots := slotsOf_release hslots
  change ∃ t, fine (closeOne e env reportAt slot.1 >>= fun _ => slots.forM _) s = _ ∧ _
  rw [List.all_cons, reached, left]
  cases hlegible : legible s env slot with
  | false =>
    rw [hlegible] at hone
    exact ⟨_, fine_bind_error hone, hclosing, hrest⟩
  | true =>
  rw [hlegible] at hone
  obtain ⟨t, hall, hclosing', hleft⟩ := ih hrest
  rw [hclosing.alike.legible, hclosing.alike.reached, hclosing.alike.left] at *
  exact ⟨t, (fine_bind hone).trans hall, hclosing.trans reportAt hclosing', hleft⟩

end Successes

/-! ## Failures -/

section Failures

/-- The store when a failure has been added to an incident. -/
def appendedStore (s : Store) (env : String) (id reportAt count : ℕ) (m : String) : Store :=
  (s.putReport id reportAt m).modify (env, id) (.stampAppended reportAt (Sdb.storedCount count)
    (Sdb.computeSummary ((s.putReport id reportAt m).reportsOf id)))

theorem incident_appendedStore_self (s : Store) (env : String) (id reportAt count : ℕ)
    (m : String) :
    (appendedStore s env id reportAt count m).incident (env, id) =
      some ((s.row (env, id)).stampAppended reportAt (Sdb.storedCount count)
        (Sdb.computeSummary ((s.putReport id reportAt m).reportsOf id))) :=
  (Store.incident_modify ..).trans (if_pos rfl)

variable {openedAt reportAt count : ℕ} {m : String}

theorem fine_append (h : (s.sdb.row (env, id)).identified = true) :
    ∃ i, fine (Sdb.appendFailureToOpenIncident id e env c openedAt reportAt count m) s =
      (.ok i, s.withStore (appendedStore s.sdb env id reportAt count m)) := by
  obtain ⟨i, hi⟩ := (IncidentRow.complete_stampAppended.2 h).decode id
  have hrow := incident_appendedStore_self s.sdb env id reportAt count m
  have hread := fine_incidentInEnv (s := s.withStore (appendedStore s.sdb env id reportAt count m))
    hrow hi
  exact ⟨_, fine_bind hread⟩

theorem fine_append_error (h : ¬ (s.sdb.row (env, id)).identified = true) :
    fine (Sdb.appendFailureToOpenIncident id e env c openedAt reportAt count m) s =
      (.error "unexpected null", s.withStore (appendedStore s.sdb env id reportAt count m)) := by
  have hrow := incident_appendedStore_self s.sdb env id reportAt count m
  have hcomplete : ∀ n summary,
      ¬ ((s.sdb.row (env, id)).stampAppended reportAt n summary).Complete :=
    fun _ _ hcomplete => h (IncidentRow.complete_stampAppended.1 hcomplete)
  have hread := fine_incidentInEnv_error
    (s := s.withStore (appendedStore s.sdb env id reportAt count m)) hrow
    (IncidentRow.decode_of_not_complete (hcomplete _ _) id)
  change fine (Sdb.incidentInEnv env id >>= _)
    (s.withStore (appendedStore s.sdb env id reportAt count m)) = _
  exact fine_bind_error hread

variable {thresholds : ThresholdConfig} {newId now : ℕ}

/-- An incident that cannot be read stops the processing before anything is written. -/
theorem fine_handleFailure_stopped (hslot : s.sdb.openSlots e c = some id) {row : IncidentRow}
    (hrow : s.sdb.incident (env, id) = some row) (hcomplete : ¬ row.Complete) :
    fine (handleFailure thresholds newId e env c m reportAt now) s =
      (.error "unexpected null", s) := by
  rw [handleFailure, fine_bind (fine_findOpenIncidentId hslot)]
  exact fine_bind_error
    (fine_incidentInEnv_error hrow (IncidentRow.decode_of_not_complete hcomplete id))

/-- An incident that is not there is created without the columns that make it readable. -/
theorem fine_handleFailure_missing (hslot : s.sdb.openSlots e c = some id)
    (hrow : s.sdb.incident (env, id) = none) :
    fine (handleFailure thresholds newId e env c m reportAt now) s =
      (.error "unexpected null", s.withStore (appendedStore s.sdb env id reportAt 1 m)) := by
  have hnull : ¬ (s.sdb.row (env, id)).identified = true := by
    rw [Store.row, hrow]
    exact Bool.false_ne_true
  rw [handleFailure, fine_bind (fine_findOpenIncidentId hslot)]
  rw [fine_bind (fine_incidentInEnv_none hrow)]
  exact fine_bind_error (fine_append_error hnull)

theorem fine_handleFailure_appended (hslot : s.sdb.openSlots e c = some id)
    (hcomplete : (s.sdb.row (env, id)).Complete) :
    fine (handleFailure thresholds newId e env c m reportAt now) s =
      (.ok (), s.withStore (appendedStore s.sdb env id reportAt
        ((s.sdb.row (env, id)).runningCount id + 1) m)) := by
  cases hrow : s.sdb.incident (env, id) with
  | none =>
    rw [Store.row, hrow] at hcomplete
    exact absurd hcomplete.entityQid Bool.false_ne_true
  | some row =>
  have heq : s.sdb.row (env, id) = row := by
    rw [Store.row, hrow]
    rfl
  obtain ⟨i, hi⟩ := hcomplete.decode id
  have hcount : (s.sdb.row (env, id)).runningCount id = i.reportCount := by
    rw [IncidentRow.runningCount, hi]
  obtain ⟨i', hi'⟩ : ∃ i', fine (Sdb.appendFailureToOpenIncident id e env c i.openedAt reportAt
      (i.reportCount + 1) m) s = (.ok i', _) := fine_append hcomplete.identified
  rw [hcount, handleFailure, fine_bind (fine_findOpenIncidentId hslot)]
  rw [fine_bind (fine_incidentInEnv hrow (heq ▸ hi))]
  exact fine_bind hi'

/-- A failure that is not one too many, of a category without an incident, changes nothing but what
is counted. -/
theorem fine_handleFailure_counted (hslot : s.sdb.openSlots e c = none)
    (hcheck : (s.tracker.recordAndCheck e c (thresholds.ruleFor c) reportAt now).1 = false) :
    fine (handleFailure thresholds newId e env c m reportAt now) s =
      (.ok (), { s with tracker :=
        (s.tracker.recordAndCheck e c (thresholds.ruleFor c) reportAt now).2 }) := by
  have hrecord : fine (Work.recordAndCheck e c (thresholds.ruleFor c) reportAt now) s =
      (.ok false, { s with tracker :=
        (s.tracker.recordAndCheck e c (thresholds.ruleFor c) reportAt now).2 }) := by
    rw [← hcheck]
    rfl
  rw [handleFailure, fine_bind (fine_findOpenIncidentId hslot)]
  rw [fine_bind hrecord]
  rfl

/-- One failure too many opens an incident. -/
theorem fine_handleFailure_opened (hslot : s.sdb.openSlots e c = none)
    (hcheck : (s.tracker.recordAndCheck e c (thresholds.ruleFor c) reportAt now).1 = true) :
    ∃ s', fine (handleFailure thresholds newId e env c m reportAt now) s = (.ok (), s') ∧
      s'.sdb.openSlots e c = some newId ∧
      s'.sdb.incident (env, newId) =
        some (Sdb.openedRow e c reportAt (Sdb.truncateForSummary m)) := by
  have hrecord : fine (Work.recordAndCheck e c (thresholds.ruleFor c) reportAt now) s =
      (.ok true, { s with tracker :=
        (s.tracker.recordAndCheck e c (thresholds.ruleFor c) reportAt now).2 }) := by
    rw [← hcheck]
    rfl
  have hclaim : ∀ t, fine (Work.sdb (.claimOpenSlot e c newId)) { s with tracker := t } =
      (.ok none, { s with tracker := t, sdb := s.sdb.setSlot e c (some newId) }) := by
    intro t
    rw [fine_sdb, Sdb.Statement.exec]
    simp only [hslot]
    rfl
  have hopen : ∀ t, ∃ i s',
      fine (Sdb.openIncident newId e env c reportAt m) { s with tracker := t } =
        (.ok (.opened i), s') ∧ s'.sdb.openSlots e c = some newId ∧
      s'.sdb.incident (env, newId) =
        some (Sdb.openedRow e c reportAt (Sdb.truncateForSummary m)) := by
    intro t
    rw [Sdb.openIncident, fine_bind (hclaim t)]
    exact ⟨_, _, rfl, Store.openSlots_setSlot_self .., Store.incident_putIncident_self ..⟩
  obtain ⟨i, s', hopened, hslot', hrow'⟩ := hopen _
  rw [handleFailure, fine_bind (fine_findOpenIncidentId hslot)]
  rw [fine_bind hrecord]
  exact ⟨_, fine_bind hopened, hslot', hrow'⟩

end Failures

/-! ## Reports -/

section Reports

variable [SclData] {thresholds : ThresholdConfig} {newId now : ℕ} {r : Rq.Report}

/-- The summary a report leaves, given what was there before and what is open after it. -/
def finalSummary (r : Rq.Report) (prev : Option Sdb.SummaryRow)
    (openList : List (IncidentCategory × ℕ)) : Option Sdb.SummaryRow :=
  if r.extension.isTerminal then none
  else some (summaryOf r (consecutiveFailures r.outcome
    (prev.map (·.decode r.entityQid.asString))) openList).encode

theorem fine_afterSummary (now : ℕ) (r : Rq.Report) (s : State) :
    ∃ s', fine (afterSummary now r) s = (.ok (), s') ∧
      s'.sdb = (if r.extension.isTerminal then s.sdb.setSummary r.entityQid.asString none
        else s.sdb) ∧
      s'.notifications = s.notifications ∧
      s'.tracker = (if r.extension.isTerminal then s.tracker.forgetEntity r.entityQid.asString
        else s.tracker) := by
  obtain ⟨entity, timestamp, outcome, metrics, ext⟩ := r
  cases hterminal : ext.isTerminal with
  | true | false =>
  simp only [afterSummary, hterminal]
  cases entity <;> exact ⟨_, rfl, rfl, rfl, rfl⟩

theorem fine_processReport_error {x : String}
    (h : fine (handleOutcome thresholds newId now r) s = (.error x, s')) :
    fine (processReport thresholds newId now r) s = (.error x, s') := by
  have hprev : fine (Sdb.statusSummary r.entityQid.asString) s =
      (.ok ((s.sdb.summaries r.entityQid.asString).map (·.decode r.entityQid.asString)), s) := rfl
  rw [processReport, fine_bind hprev]
  exact fine_bind_error h

/-- What becomes of a report once its incidents have been dealt with. -/
theorem fine_processReport (h : fine (handleOutcome thresholds newId now r) s = (.ok (), s')) :
    ∃ s'', fine (processReport thresholds newId now r) s = (.ok (), s'') ∧
      (∀ key, s''.sdb.incident key = s'.sdb.incident key) ∧
      s''.sdb.openSlots = s'.sdb.openSlots ∧ s''.sdb.reports = s'.sdb.reports ∧
      s''.sdb.summaries = Function.update s'.sdb.summaries r.entityQid.asString
        (finalSummary r (s.sdb.summaries r.entityQid.asString)
          (s'.sdb.slotsOf r.entityQid.asString)) ∧
      s''.notifications = s'.notifications ∧
      s''.tracker = (if r.extension.isTerminal then s'.tracker.forgetEntity r.entityQid.asString
        else s'.tracker) := by
  have hprev : fine (Sdb.statusSummary r.entityQid.asString) s =
      (.ok ((s.sdb.summaries r.entityQid.asString).map (·.decode r.entityQid.asString)), s) := rfl
  have hlist : fine (Sdb.listOpenIncidentsForEntity r.entityQid.asString) s' =
      (.ok (s'.sdb.slotsOf r.entityQid.asString), s') := rfl
  have hupsert : ∀ n l, fine (Sdb.upsertStatusSummary (summaryOf r n l)) s' =
      (.ok (), s'.withStore (s'.sdb.setSummary r.entityQid.asString
        (some (summaryOf r n l).encode))) := fun _ _ => rfl
  rw [processReport, fine_bind hprev, fine_bind h, fine_bind hlist, fine_bind (hupsert ..)]
  obtain ⟨s'', hafter, hsdb, hnotifications, htracker⟩ := fine_afterSummary now r _
  refine ⟨s'', hafter, fun key => ?_, ?_, ?_, ?_, hnotifications, htracker⟩
  · rw [hsdb]
    split <;> rfl
  · rw [hsdb]
    split <;> rfl
  · rw [hsdb]
    split <;> rfl
  rw [hsdb, finalSummary]
  split
  · exact Function.update_idem ..
  · rfl

/-- The same summaries, the same incidents, and the same set of notifications. -/
structure SameOutcome (s t : State) : Prop where
  summaries : t.sdb.summaries = s.sdb.summaries
  incidents : ∀ key, t.sdb.incident key = s.sdb.incident key
  notifications : ∀ n, n ∈ t.notifications ↔ n ∈ s.notifications

/-! ### Successes -/

/-- The number of failures in a row is zero after a success, whatever was there before. -/
theorem finalSummary_success (hsuccess : r.outcome = .success) (prev prev' : Option Sdb.SummaryRow)
    (l : List (IncidentCategory × ℕ)) : finalSummary r prev l = finalSummary r prev' l := by
  rw [finalSummary, finalSummary, hsuccess]
  cases prev <;> cases prev' <;> rfl

/-- The open slots of the entity of a report. -/
abbrev slots (r : Rq.Report) (s : State) : List (IncidentCategory × ℕ) :=
  s.sdb.slotsOf r.entityQid.asString

abbrev envOf (r : Rq.Report) : String := envQidString r.entityQid

/-- What processing a success does. -/
structure Pass (r : Rq.Report) (s t : State) : Prop where
  incidents : ∀ key, t.sdb.incident key =
    if key.1 = envOf r ∧ key.2 ∈ (reached s (envOf r) (slots r s)).map Prod.snd
    then some (closedRow s (envOf r) r.timestamp key.2) else s.sdb.incident key
  notifications : ∀ n, n ∈ t.notifications ↔ n ∈ s.notifications ∨
    ∃ slot ∈ reached s (envOf r) (slots r s),
      n ∈ announced s r.entityQid.asString (envOf r) r.timestamp slot
  left : slots r t = left s (envOf r) (slots r s)
  summaries : t.sdb.summaries =
    if (slots r s).all (legible s (envOf r)) then
      Function.update s.sdb.summaries r.entityQid.asString (finalSummary r none [])
    else s.sdb.summaries

theorem pass_processReport (thresholds : ThresholdConfig) (newId now : ℕ)
    (hsuccess : r.outcome = .success) (s : State) :
    Pass r s (fine (processReport thresholds newId now r) s).2 := by
  obtain ⟨t, hall, hclosing, hleft⟩ := fine_closeAll (envOf r) r.timestamp
    (rfl : s.sdb.slotsOf r.entityQid.asString = slots r s)
  have hlist : fine (Sdb.listOpenIncidentsForEntity r.entityQid.asString) s =
      (.ok (slots r s), s) := rfl
  have hhandle : fine (handleSuccess r.entityQid.asString (envOf r) r.timestamp) s =
      (if (slots r s).all (legible s (envOf r)) then .ok () else .error "unexpected null", t) := by
    rw [handleSuccess, fine_bind hlist]
    exact hall
  cases hthrough : (slots r s).all (legible s (envOf r)) with
  | false =>
    rw [hthrough] at hhandle
    have houtcome : fine (handleOutcome thresholds newId now r) s =
        (.error "unexpected null", t) := by
      rw [handleOutcome, hsuccess]
      exact fine_bind_error hhandle
    rw [fine_processReport_error houtcome]
    refine ⟨hclosing.incidents, hclosing.notifications, hleft, ?_⟩
    rw [hthrough]
    exact hclosing.summaries
  | true =>
  rw [hthrough] at hhandle
  have houtcome : fine (handleOutcome thresholds newId now r) s =
      (.ok (), { t with tracker := t.tracker.forgetEntity r.entityQid.asString }) := by
    rw [handleOutcome, hsuccess]
    exact fine_bind hhandle
  obtain ⟨u, hprocess, hincidents, hslots, -, hsummaries, hnotifications, -⟩ :=
    fine_processReport houtcome
  have hnil : t.sdb.slotsOf r.entityQid.asString = [] := hleft.trans (left_eq_nil hthrough)
  rw [hprocess]
  refine ⟨fun key => (hincidents key).trans (hclosing.incidents key), fun n => ?_, ?_, ?_⟩
  · rw [hnotifications]
    exact hclosing.notifications n
  · rw [← hleft, slots, Store.slotsOf, hslots]
    rfl
  · rw [hthrough, hsummaries, hnil, finalSummary_success hsuccess _ none]
    exact congrArg (Function.update · _ _) hclosing.summaries

/-- Where a success stops, it leaves nothing to do for the next one: the incidents that the next one
gets to are as a success leaves them and have been announced, and if it gets to the end the summary
is as a success leaves it. -/
structure Idle (r : Rq.Report) (s : State) : Prop where
  incidents : ∀ slot ∈ reached s (envOf r) (left s (envOf r) (slots r s)),
    slot.2 ∈ (reached s (envOf r) (slots r s)).map Prod.snd ∨
      s.sdb.incident (envOf r, slot.2) = some (closedRow s (envOf r) r.timestamp slot.2)
  notifications : ∀ slot ∈ reached s (envOf r) (left s (envOf r) (slots r s)),
    ∀ n ∈ announced s r.entityQid.asString (envOf r) r.timestamp slot, n ∈ s.notifications
  summary : (left s (envOf r) (slots r s)).all (legible s (envOf r)) = true →
    s.sdb.summaries r.entityQid.asString = finalSummary r none []

/-- A success may be processed again if every incident of its entity can be closed, or if what it
leaves is already done. -/
def Repeated (r : Rq.Report) (s : State) : Prop :=
  (slots r s).all (legible s (envOf r)) = true ∨ Idle r s

theorem Pass.alike {t : State} (h : Pass r s t) : Alike (envOf r) r.timestamp s t := by
  intro id
  rw [closedRow, Store.row, h.incidents]
  split
  · exact IncidentRow.closedBy_closedBy ..
  · rfl

omit [SclData] in
theorem category_announced {reportAt : ℕ} {slot : IncidentCategory × ℕ} {n : NotificationRequest}
    (h : n ∈ announced s e env reportAt slot) : n.category = slot.1 := by
  rw [announced] at h
  split at h
  · rw [List.mem_singleton.1 h]
    rfl
  · exact absurd h List.not_mem_nil

omit [SclData] in
theorem mem_of_mem_reached {slot : IncidentCategory × ℕ}
    {slots : List (IncidentCategory × ℕ)} (h : slot ∈ reached s env slots) : slot ∈ slots := by
  rw [← reached_append_left s env slots]
  exact List.mem_append_left _ h

/-- A slot that is left is of another category than those that have been dealt with, so it has not
been announced with them. -/
theorem announced_left {n : NotificationRequest} {slot slot' : IncidentCategory × ℕ}
    (hslot : slot ∈ left s (envOf r) (slots r s))
    (hn : n ∈ announced s r.entityQid.asString (envOf r) r.timestamp slot)
    (hslot' : slot' ∈ reached s (envOf r) (slots r s))
    (hn' : n ∈ announced s r.entityQid.asString (envOf r) r.timestamp slot') : False := by
  have hnodup := nodup_slotsOf s.sdb r.entityQid.asString
  rw [← reached_append_left s (envOf r) (s.sdb.slotsOf _), List.map_append] at hnodup
  have hmem : n.category ∈ (left s (envOf r) (slots r s)).map Prod.fst :=
    category_announced hn ▸ List.mem_map_of_mem hslot
  have hmem' : n.category ∈ (reached s (envOf r) (slots r s)).map Prod.fst :=
    category_announced hn' ▸ List.mem_map_of_mem hslot'
  exact (List.nodup_append.1 hnodup).2.2 _ hmem' _ hmem rfl

section Twice

variable {t u : State} (h : Pass r s t) (h' : Pass r t u)
include h h'

theorem Pass.incidents_twice : (∀ key, u.sdb.incident key = t.sdb.incident key) ↔
    ∀ slot ∈ reached s (envOf r) (Re.left s (envOf r) (slots r s)),
      slot.2 ∈ (reached s (envOf r) (slots r s)).map Prod.snd ∨
        s.sdb.incident (envOf r, slot.2) = some (closedRow s (envOf r) r.timestamp slot.2) := by
  have hu : ∀ key, u.sdb.incident key =
      if key.1 = envOf r ∧ key.2 ∈
        (reached s (envOf r) (Re.left s (envOf r) (slots r s))).map Prod.snd
      then some (closedRow s (envOf r) r.timestamp key.2) else t.sdb.incident key := by
    intro key
    rw [h'.incidents, h.alike.reached, h.left, h.alike]
  constructor
  · intro hsame slot hslot
    have hkey := hsame (envOf r, slot.2)
    rw [hu, if_pos ⟨rfl, List.mem_map_of_mem hslot⟩, h.incidents] at hkey
    split at hkey
    · exact .inl (‹_ ∧ _›).2
    · exact .inr hkey.symm
  · intro hidle key
    rw [hu]
    split
    · rename_i hkey
      obtain ⟨slot, hslot, hid⟩ := List.mem_map.1 hkey.2
      have hrow : key = (envOf r, slot.2) := Prod.ext hkey.1 hid.symm
      rw [h.incidents]
      split
      · rfl
      · rename_i hnew
        obtain hold | hold := hidle slot hslot
        · exact absurd ⟨hkey.1, hid ▸ hold⟩ hnew
        · rw [hrow, hold]
    · rfl

theorem Pass.notifications_twice : (∀ n, n ∈ u.notifications ↔ n ∈ t.notifications) ↔
    ∀ slot ∈ reached s (envOf r) (Re.left s (envOf r) (slots r s)),
      ∀ n ∈ announced s r.entityQid.asString (envOf r) r.timestamp slot, n ∈ s.notifications := by
  have hu : ∀ n, n ∈ u.notifications ↔ n ∈ t.notifications ∨
      ∃ slot ∈ reached s (envOf r) (Re.left s (envOf r) (slots r s)),
        n ∈ announced s r.entityQid.asString (envOf r) r.timestamp slot := by
    intro n
    rw [h'.notifications, h.alike.reached, h.left, h.alike.announced]
  constructor
  · intro hsame slot hslot n hn
    obtain hold | ⟨slot', hslot', hn'⟩ :=
      (h.notifications n).1 ((hsame n).1 ((hu n).2 (.inr ⟨slot, hslot, hn⟩)))
    · exact hold
    · exact (announced_left (mem_of_mem_reached hslot) hn hslot' hn').elim
  · intro hidle n
    rw [hu]
    refine ⟨?_, .inl⟩
    rintro (hold | ⟨slot, hslot, hn⟩)
    · exact hold
    · exact (h.notifications n).2 (.inl (hidle slot hslot n hn))

theorem Pass.summaries_twice (hstopped : ¬ (slots r s).all (legible s (envOf r)) = true) :
    u.sdb.summaries = t.sdb.summaries ↔
      ((Re.left s (envOf r) (slots r s)).all (legible s (envOf r)) = true →
        s.sdb.summaries r.entityQid.asString = finalSummary r none []) := by
  rw [h'.summaries, h.left, h.alike.legible, h.summaries, if_neg hstopped]
  split
  · rename_i hthrough
    constructor
    · intro heq _
      exact (congrFun heq r.entityQid.asString).symm.trans (Function.update_self ..)
    · intro hsummary
      rw [← hsummary hthrough]
      exact Function.update_eq_self ..
  · rename_i hthrough
    exact ⟨fun _ h => absurd h hthrough, fun _ => rfl⟩

/-- **When a success may be processed again.** -/
theorem Pass.sameOutcome_iff : SameOutcome t u ↔ Repeated r s := by
  by_cases hthrough : (slots r s).all (legible s (envOf r)) = true
  · have hnone : Re.left s (envOf r) (slots r s) = [] := left_eq_nil hthrough
    refine iff_of_true ⟨?_, (Pass.incidents_twice h h').2 ?_, (Pass.notifications_twice h h').2 ?_⟩
      (.inl hthrough)
    · rw [h'.summaries, h.left, hnone, h.summaries, if_pos hthrough]
      exact Function.update_idem ..
    · rw [hnone]
      exact fun slot hslot => absurd hslot List.not_mem_nil
    · rw [hnone]
      exact fun slot hslot => absurd hslot List.not_mem_nil
  · rw [Repeated, or_iff_right hthrough]
    constructor
    · intro hsame
      exact ⟨(Pass.incidents_twice h h').1 hsame.incidents,
        (Pass.notifications_twice h h').1 hsame.notifications,
        (Pass.summaries_twice h h' hthrough).1 hsame.summaries⟩
    · intro hidle
      exact ⟨(Pass.summaries_twice h h' hthrough).2 hidle.summary,
        (Pass.incidents_twice h h').2 hidle.incidents,
        (Pass.notifications_twice h h').2 hidle.notifications⟩

end Twice

/-! ### Failures -/

/-- A failure may be processed again if its open slot has an incident that cannot be read, so that
it is not counted at all; or if it is the last report of its entity, and the number of reports of
the incident in its slot has come to the largest that can be stored or, without an incident, the
failures counted so far and this one are not yet too many. -/
def Uncounted (thresholds : ThresholdConfig) (now : ℕ) (r : Rq.Report) (c : IncidentCategory)
    (s : State) : Prop :=
  match s.sdb.openSlots r.entityQid.asString c with
  | some id => ¬ (s.sdb.row (envOf r, id)).Complete ∨
    r.extension.isTerminal = true ∧ 2 ^ 63 - 2 ≤ (s.sdb.row (envOf r, id)).runningCount id
  | none => r.extension.isTerminal = true ∧
    (s.tracker.recorded r.entityQid.asString c (thresholds.ruleFor c) r.timestamp now).length <
      (thresholds.ruleFor c).minReports

section Failures

variable (thresholds) {m : String} (hfailure : r.outcome = .failure c m)
include hfailure

theorem fine_handleOutcome_failure (newId now : ℕ) (s : State) :
    fine (handleOutcome thresholds newId now r) s =
      fine (handleFailure thresholds newId r.entityQid.asString (envOf r) c m r.timestamp now)
        s := by
  rw [handleOutcome, hfailure]

/-- **The number of failures in a row moves** with every failure that gets through. -/
theorem finalSummary_failure_ne (hterminal : ¬ r.extension.isTerminal = true)
    (prev : Option Sdb.SummaryRow) (l l' : List (IncidentCategory × ℕ)) :
    finalSummary r (finalSummary r prev l) l' ≠ finalSummary r prev l := by
  have hcount : ∃ n < 2 ^ 32, consecutiveFailures r.outcome
      (prev.map (·.decode r.entityQid.asString)) = n := by
    refine ⟨_, ?_, rfl⟩
    rw [hfailure]
    cases prev with
    | none => exact Nat.one_lt_two_pow (by decide)
    | some row =>
      simp only [consecutiveFailures, Option.map_some, saturatingSucc]
      omega
  obtain ⟨n, hn, hn'⟩ := hcount
  rw [finalSummary, finalSummary, if_neg hterminal, if_neg hterminal, hn', hfailure]
  intro heq
  have hcounts : Sdb.asI32 (saturatingSucc (Sdb.asI32 n).toNat) = Sdb.asI32 n :=
    congrArg Sdb.SummaryRow.consecutiveFailureCount (Option.some.inj heq)
  simp only [Sdb.asI32, saturatingSucc] at hcounts
  split at hcounts <;> split at hcounts <;> omega

/-- A failure that meets an incident it cannot read leaves no trace. -/
theorem processed_stopped (newId now : ℕ)
    (hslot : s.sdb.openSlots r.entityQid.asString c = some id) {row : IncidentRow}
    (hrow : s.sdb.incident (envOf r, id) = some row) (hcomplete : ¬ row.Complete) :
    (fine (processReport thresholds newId now r) s).2 = s := by
  rw [fine_processReport_error ((fine_handleOutcome_failure thresholds hfailure newId now s).trans
    (fine_handleFailure_stopped hslot hrow hcomplete))]

theorem sameOutcome_of_not_complete (id₁ id₂ now₁ now₂ : ℕ)
    (hslot : s.sdb.openSlots r.entityQid.asString c = some id)
    (hcomplete : ¬ (s.sdb.row (envOf r, id)).Complete) :
    SameOutcome (fine (processReport thresholds id₁ now₁ r) s).2
      (fine (processReport thresholds id₂ now₂ r)
        (fine (processReport thresholds id₁ now₁ r) s).2).2 := by
  obtain ⟨row, hslot', hrow', hcomplete'⟩ :
      ∃ row, (fine (processReport thresholds id₁ now₁ r) s).2.sdb.openSlots
          r.entityQid.asString c = some id ∧
        (fine (processReport thresholds id₁ now₁ r) s).2.sdb.incident (envOf r, id) = some row ∧
        ¬ row.Complete := by
    rw [Store.row] at hcomplete
    cases hrow : s.sdb.incident (envOf r, id) with
    | some row =>
      rw [hrow] at hcomplete
      rw [processed_stopped thresholds hfailure id₁ now₁ hslot hrow hcomplete]
      exact ⟨row, hslot, hrow, hcomplete⟩
    | none =>
      rw [fine_processReport_error
        ((fine_handleOutcome_failure thresholds hfailure id₁ now₁ s).trans
          (fine_handleFailure_missing hslot hrow))]
      refine ⟨_, hslot, incident_appendedStore_self .., fun h => ?_⟩
      have hnull := IncidentRow.complete_stampAppended.1 h
      rw [Store.row, hrow] at hnull
      exact Bool.false_ne_true hnull
  rw [processed_stopped thresholds hfailure id₂ now₂ hslot' hrow' hcomplete']
  exact ⟨rfl, fun _ => rfl, fun _ => Iff.rfl⟩

/-- What a failure leaves that is added to an incident. -/
theorem processed_appended (newId now : ℕ)
    (hslot : s.sdb.openSlots r.entityQid.asString c = some id)
    (hcomplete : (s.sdb.row (envOf r, id)).Complete) :
    ∃ l, let s₁ := (fine (processReport thresholds newId now r) s).2
      (∀ key, s₁.sdb.incident key = (appendedStore s.sdb (envOf r) id r.timestamp
        ((s.sdb.row (envOf r, id)).runningCount id + 1) m).incident key) ∧
      s₁.sdb.openSlots = s.sdb.openSlots ∧
      s₁.sdb.reports = (s.sdb.putReport id r.timestamp m).reports ∧
      s₁.sdb.summaries = Function.update s.sdb.summaries r.entityQid.asString
        (finalSummary r (s.sdb.summaries r.entityQid.asString) l) ∧
      s₁.notifications = s.notifications := by
  obtain ⟨s₁, hprocess, hincidents, hslots, hreports, hsummaries, hnotifications, -⟩ :=
    fine_processReport ((fine_handleOutcome_failure thresholds hfailure newId now s).trans
        (fine_handleFailure_appended hslot hcomplete))
  rw [hprocess]
  exact ⟨_, hincidents, hslots, hreports, hsummaries, hnotifications⟩

/-- The same failure once more is counted once more, unless the number cannot get larger. -/
theorem sameOutcome_appended_iff (id₁ id₂ now₁ now₂ : ℕ)
    (hslot : s.sdb.openSlots r.entityQid.asString c = some id)
    (hcomplete : (s.sdb.row (envOf r, id)).Complete) :
    SameOutcome (fine (processReport thresholds id₁ now₁ r) s).2
        (fine (processReport thresholds id₂ now₂ r)
          (fine (processReport thresholds id₁ now₁ r) s).2).2 ↔
      r.extension.isTerminal = true ∧
        2 ^ 63 - 2 ≤ (s.sdb.row (envOf r, id)).runningCount id := by
  obtain ⟨l, hincidents, hslots, hreports, hsummaries, hnotifications⟩ :=
    processed_appended thresholds hfailure id₁ now₁ hslot hcomplete
  generalize (fine (processReport thresholds id₁ now₁ r) s).2 = s₁ at *
  have hrow : s₁.sdb.row (envOf r, id) = (s.sdb.row (envOf r, id)).stampAppended r.timestamp
      (Sdb.storedCount ((s.sdb.row (envOf r, id)).runningCount id + 1))
      (Sdb.computeSummary ((s.sdb.putReport id r.timestamp m).reportsOf id)) := by
    rw [Store.row, hincidents, incident_appendedStore_self]
    rfl
  have hcomplete₁ : (s₁.sdb.row (envOf r, id)).Complete := by
    rw [hrow]
    exact IncidentRow.complete_stampAppended.2 hcomplete.identified
  have hcount : (s₁.sdb.row (envOf r, id)).runningCount id =
      (Sdb.storedCount ((s.sdb.row (envOf r, id)).runningCount id + 1)).toNat := by
    rw [IncidentRow.runningCount_of_complete hcomplete₁, hrow,
      IncidentRow.reportCount_stampAppended, Option.getD_some]
  obtain ⟨l', hincidents', -, -, hsummaries', hnotifications'⟩ :=
    processed_appended thresholds hfailure id₂ now₂
      ((congrFun (congrFun hslots _) c).trans hslot) hcomplete₁
  generalize (fine (processReport thresholds id₂ now₂ r) s₁).2 = s₂ at *
  constructor
  · intro hsame
    refine ⟨?_, ?_⟩
    · by_contra hterminal
      refine finalSummary_failure_ne hfailure hterminal
        (s.sdb.summaries r.entityQid.asString) l l' ?_
      have heq := congrFun hsame.summaries r.entityQid.asString
      rw [hsummaries', hsummaries, Function.update_self, Function.update_self] at heq
      exact heq
    · have heq := hsame.incidents (envOf r, id)
      rw [hincidents', hincidents, incident_appendedStore_self, incident_appendedStore_self,
        hcount] at heq
      have hcounts := congrArg IncidentRow.reportCount (Option.some.inj heq)
      rw [IncidentRow.reportCount_stampAppended, IncidentRow.reportCount_stampAppended] at hcounts
      exact (Sdb.storedCount_succ_eq_iff _).1 (Option.some.inj hcounts)
  · rintro ⟨hterminal, hlarge⟩
    refine ⟨?_, fun key => ?_, fun n => by rw [hnotifications']⟩
    · rw [hsummaries', hsummaries, finalSummary, finalSummary, if_pos hterminal, if_pos hterminal]
      exact Function.update_idem ..
    · rw [hincidents']
      by_cases hkey : key = (envOf r, id)
      · subst hkey
        have hstored : Sdb.storedCount ((s₁.sdb.row (envOf r, id)).runningCount id + 1) =
            Sdb.storedCount ((s.sdb.row (envOf r, id)).runningCount id + 1) := by
          rw [hcount]
          exact (Sdb.storedCount_succ_eq_iff _).2 hlarge
        have htexts : (s₁.sdb.putReport id r.timestamp m).reportsOf id =
            (s.sdb.putReport id r.timestamp m).reportsOf id := by
          simp only [Store.reportsOf, Store.putReport, hreports, AList.insert_insert]
        rw [hincidents, incident_appendedStore_self, incident_appendedStore_self, hstored, htexts,
          hrow, IncidentRow.stampAppended_stampAppended]
      · exact (Store.incident_modify ..).trans (if_neg hkey)

/-- A failure that opens an incident is added to it when it comes again. -/
theorem not_sameOutcome_of_opened (id₁ id₂ now₁ now₂ : ℕ)
    (hslot : s.sdb.openSlots r.entityQid.asString c = none)
    (hcheck : (s.tracker.recordAndCheck r.entityQid.asString c (thresholds.ruleFor c) r.timestamp
      now₁).1 = true) :
    ¬ SameOutcome (fine (processReport thresholds id₁ now₁ r) s).2
        (fine (processReport thresholds id₂ now₂ r)
          (fine (processReport thresholds id₁ now₁ r) s).2).2 := by
  obtain ⟨s', hhandle, hslot', hrow'⟩ : ∃ s', fine (handleFailure thresholds id₁
      r.entityQid.asString (envOf r) c m r.timestamp now₁) s = (.ok (), s') ∧ _ ∧ _ :=
    fine_handleFailure_opened hslot hcheck
  obtain ⟨s₁, hprocess, hincidents, hslots, -, -, -, -⟩ :=
    fine_processReport ((fine_handleOutcome_failure thresholds hfailure id₁ now₁ s).trans hhandle)
  rw [hprocess]
  have hopened := (hincidents (envOf r, id₁)).trans hrow'
  have hrow : s₁.sdb.row (envOf r, id₁) = Sdb.openedRow r.entityQid.asString c r.timestamp
      (Sdb.truncateForSummary m) := by
    rw [Store.row, hopened]
    rfl
  have hcomplete : (s₁.sdb.row (envOf r, id₁)).Complete := by
    rw [hrow]
    exact ⟨rfl, rfl, rfl, rfl, rfl⟩
  obtain ⟨-, hincidents', -⟩ := processed_appended thresholds hfailure id₂ now₂
    ((congrFun (congrFun hslots _) c).trans hslot') hcomplete
  intro hsame
  have heq := hsame.incidents (envOf r, id₁)
  rw [hincidents', hopened, incident_appendedStore_self,
    IncidentRow.runningCount_of_complete hcomplete, hrow] at heq
  have htwo : Sdb.storedCount 2 ≠ 1 := by decide
  exact htwo (Option.some.inj (congrArg IncidentRow.reportCount (Option.some.inj heq)))

/-- A failure that is only counted leaves nothing but the summary. -/
theorem processed_counted (newId now : ℕ)
    (hslot : s.sdb.openSlots r.entityQid.asString c = none)
    (hcheck : (s.tracker.recordAndCheck r.entityQid.asString c (thresholds.ruleFor c) r.timestamp
      now).1 = false) :
    ∃ l, let s₁ := (fine (processReport thresholds newId now r) s).2
      (∀ key, s₁.sdb.incident key = s.sdb.incident key) ∧ s₁.sdb.openSlots = s.sdb.openSlots ∧
      s₁.sdb.summaries = Function.update s.sdb.summaries r.entityQid.asString
        (finalSummary r (s.sdb.summaries r.entityQid.asString) l) ∧
      s₁.notifications = s.notifications ∧
      (r.extension.isTerminal = true → s₁.tracker r.entityQid.asString c = []) := by
  obtain ⟨s₁, hprocess, hincidents, hslots, -, hsummaries, hnotifications, htracker⟩ :=
    fine_processReport ((fine_handleOutcome_failure thresholds hfailure newId now s).trans
        (fine_handleFailure_counted hslot hcheck))
  rw [hprocess]
  refine ⟨_, hincidents, hslots, hsummaries, hnotifications, fun hterminal => ?_⟩
  dsimp only
  rw [htracker, if_pos hterminal, ThresholdTracker.forgetEntity_self]

/-- The summary that a failure leaves when its slot is free. -/
theorem processed_free (newId now : ℕ) (hslot : s.sdb.openSlots r.entityQid.asString c = none) :
    ∃ l, (fine (processReport thresholds newId now r) s).2.sdb.summaries r.entityQid.asString =
      finalSummary r (s.sdb.summaries r.entityQid.asString) l := by
  have hhandle : ∃ s', fine (handleOutcome thresholds newId now r) s = (.ok (), s') := by
    rw [fine_handleOutcome_failure thresholds hfailure]
    cases hcheck : (s.tracker.recordAndCheck r.entityQid.asString c (thresholds.ruleFor c)
      r.timestamp now).1 with
    | false => exact ⟨_, fine_handleFailure_counted hslot hcheck⟩
    | true =>
      obtain ⟨s', hopened, -⟩ : ∃ s', fine (handleFailure thresholds newId r.entityQid.asString
          (envOf r) c m r.timestamp now) s = (.ok (), s') ∧ _ ∧ _ :=
        fine_handleFailure_opened hslot hcheck
      exact ⟨s', hopened⟩
  obtain ⟨s', hhandle⟩ := hhandle
  obtain ⟨s₁, hprocess, -, -, -, hsummaries, -⟩ := fine_processReport hhandle
  rw [hprocess, hsummaries]
  exact ⟨_, Function.update_self ..⟩

/-- A failure that is only counted may come again if it ends the life of its entity. -/
theorem sameOutcome_counted_iff (id₁ id₂ now₁ now₂ : ℕ)
    (hslot : s.sdb.openSlots r.entityQid.asString c = none)
    (hcheck : (s.tracker.recordAndCheck r.entityQid.asString c (thresholds.ruleFor c) r.timestamp
      now₁).1 = false) :
    SameOutcome (fine (processReport thresholds id₁ now₁ r) s).2
        (fine (processReport thresholds id₂ now₂ r)
          (fine (processReport thresholds id₁ now₁ r) s).2).2 ↔
      r.extension.isTerminal = true := by
  obtain ⟨l, -, hslots, hsummaries, -, hforgotten⟩ :=
    processed_counted thresholds hfailure id₁ now₁ hslot hcheck
  generalize (fine (processReport thresholds id₁ now₁ r) s).2 = s₁ at *
  have hslot₁ : s₁.sdb.openSlots r.entityQid.asString c = none :=
    (congrFun (congrFun hslots _) c).trans hslot
  constructor
  · intro hsame
    by_contra hterminal
    obtain ⟨l', hsummary⟩ := processed_free thresholds hfailure id₂ now₂ hslot₁
    refine finalSummary_failure_ne hfailure hterminal
      (s.sdb.summaries r.entityQid.asString) l l' ?_
    rw [hsame.summaries, hsummaries, Function.update_self] at hsummary
    exact hsummary.symm
  · intro hterminal
    -- the entity has been forgotten, so this failure is the first of its kind
    obtain ⟨l', hincidents', -, hsummaries', hnotifications', -⟩ :=
      processed_counted thresholds hfailure id₂ now₂ hslot₁
        (ThresholdTracker.recordAndCheck_of_nil hcheck (hforgotten hterminal))
    refine ⟨?_, hincidents', fun n => by rw [hnotifications']⟩
    rw [hsummaries', hsummaries, finalSummary, finalSummary, if_pos hterminal, if_pos hterminal]
    exact Function.update_idem ..

/-- **When a failure may be processed again.** -/
theorem sameOutcome_failure_iff (id₁ id₂ now₁ now₂ : ℕ) (s : State) :
    SameOutcome (fine (processReport thresholds id₁ now₁ r) s).2
        (fine (processReport thresholds id₂ now₂ r)
          (fine (processReport thresholds id₁ now₁ r) s).2).2 ↔
      Uncounted thresholds now₁ r c s := by
  rw [Uncounted]
  split
  · rename_i id hslot
    by_cases hcomplete : (s.sdb.row (envOf r, id)).Complete
    · rw [or_iff_right (not_not_intro hcomplete)]
      exact sameOutcome_appended_iff thresholds hfailure id₁ id₂ now₁ now₂ hslot hcomplete
    · exact iff_of_true (sameOutcome_of_not_complete thresholds hfailure id₁ id₂ now₁ now₂ hslot
        hcomplete) (.inl hcomplete)
  · rename_i hslot
    by_cases hmany : (thresholds.ruleFor c).minReports ≤ (s.tracker.recorded r.entityQid.asString c
      (thresholds.ruleFor c) r.timestamp now₁).length
    · refine iff_of_false (not_sameOutcome_of_opened thresholds hfailure id₁ id₂ now₁ now₂ hslot ?_)
        fun h => absurd h.2 (Nat.not_lt.2 hmany)
      rw [ThresholdTracker.recordAndCheck, if_pos hmany]
    · rw [and_iff_left (Nat.lt_of_not_le hmany)]
      refine sameOutcome_counted_iff thresholds hfailure id₁ id₂ now₁ now₂ hslot ?_
      rw [ThresholdTracker.recordAndCheck, if_neg hmany]

end Failures

/-! ### All reports -/

/-- The reports that may be processed twice, in a given state. -/
def Repeatable (thresholds : ThresholdConfig) (now : ℕ) (r : Rq.Report) (s : State) : Prop :=
  match r.outcome with
  | .success => Repeated r s
  | .failure c _ => Uncounted thresholds now r c s

/-- **Processing a report twice is processing it once** exactly for the reports that may be
repeated. -/
theorem processing_twice_iff (thresholds : ThresholdConfig) (id₁ id₂ now₁ now₂ : ℕ) (r : Rq.Report)
    (s : State) :
    let once := (fine (processReport thresholds id₁ now₁ r) s).2
    let twice := (fine (processReport thresholds id₂ now₂ r) once).2
    SameOutcome once twice ↔ Repeatable thresholds now₁ r s := by
  rw [Repeatable]
  split
  · rename_i hsuccess
    exact (pass_processReport thresholds id₁ now₁ hsuccess s).sameOutcome_iff
      (pass_processReport thresholds id₂ now₂ hsuccess _)
  · rename_i c m hfailure
    exact sameOutcome_failure_iff thresholds hfailure id₁ id₂ now₁ now₂ s

end Reports

end Skyr.Re

/-! ## Examples -/

namespace Skyr.Re.Twice

open Sdb (Store)

local instance : SclData := .nat

/-- A report about a resource that is live. -/
def seed (outcome : Outcome) : Rq.Report :=
  .ofEngine 5 0 (.resource
    ⟨⟨⟨⟨"Acme"⟩, ⟨"Shop"⟩⟩, ⟨"main"⟩⟩, ⟨⟨"stockholm"⟩, "Std/Random.Int", "seed"⟩⟩
    outcome .live false false)

/-- Nothing has been reported yet. -/
def start : State := ⟨.empty, [], .new, fun _ => none⟩

/-- The state after a report has been processed. -/
def after (id now : ℕ) (r : Rq.Report) (s : State) : State :=
  (fine (processReport .default id now r) s).2

/-- A crash opens an incident; then a success comes twice. -/
theorem success_after_crash_twice :
    let crashed := after 1 5 (seed (.failure .crash "out of memory")) start
    crashed.sdb.openSlots (seed .success).entityQid.asString .crash = some 1 ∧
      SameOutcome (after 2 8 (seed .success) crashed)
        (after 3 9 (seed .success) (after 2 8 (seed .success) crashed)) := by
  have hslots : ∀ c, (after 1 5 (seed (.failure .crash "out of memory")) start).sdb.openSlots
      (seed .success).entityQid.asString c = if c = .crash then some 1 else none := by
    intro c
    cases c <;> with_unfolding_all rfl
  refine ⟨hslots .crash, (processing_twice_iff .default 2 3 8 9 (seed .success) _).2 (.inl ?_)⟩
  refine List.all_eq_true.2 fun slot hslot => ?_
  have hopen := Store.mem_slotsOf.1 hslot
  rw [hslots] at hopen
  split at hopen
  · obtain ⟨c, id⟩ := slot
    cases hopen
    with_unfolding_all rfl
  · cases hopen

/-- **A crash that is delivered twice is counted twice**, in its incident and in the number of
failures in a row. -/
theorem crash_twice_counts_twice :
    let crash := seed (.failure .crash "out of memory")
    let once := after 1 5 crash start
    let twice := after 2 6 crash once
    (once.sdb.incident ("Acme/Shop::main", 1)).bind (·.reportCount) = some 1 ∧
      (twice.sdb.incident ("Acme/Shop::main", 1)).bind (·.reportCount) = some 2 ∧
      (once.sdb.summaries crash.entityQid.asString).map (·.consecutiveFailureCount) = some 1 ∧
      (twice.sdb.summaries crash.entityQid.asString).map (·.consecutiveFailureCount) = some 2 := by
  refine ⟨?_, ?_, ?_, ?_⟩ <;> with_unfolding_all rfl

end Skyr.Re.Twice
