import Skyr.Sdb.Client

/-!
# Incidents, when something goes wrong in between

Opening an incident is three statements and closing one is two that write.  Any of them may fail,
with or without having been carried out, and the process may stop between any two.  This file is
about sequences of calls of the client each of which is carried out as far as it gets: `exec` with
any number of turns, and any decision at each of them.

After a call that does not come to its end, the open slot of its entity may point to an incident
that was never written.  The next failure is appended to it all the same, and since `UPDATE` creates
what is not there, an incident comes into being that has no entity and no category: no client can
read it, and the incidents of its environment cannot be listed any more.  Conversely a slot may have
been released without the incident having been closed, and then a second one is opened next to it
(`interrupted_calls_corrupt`).

If calls that have got as far as changing the slots come to their end, none of this happens,
wherever else they fail or stop (`incidents_consistent`).
-/

namespace Skyr.Sdb

open Store

open Re (Work State fineTurn lostTurn)

/-! ## Calls -/

/-- A call of the client. -/
inductive Call
  | openIncident (newId : ℕ) (entityQid : String) (category : IncidentCategory) (openedAt : ℕ)
      (errorMessage : String)
  | append (incidentId : ℕ) (entityQid : String) (category : IncidentCategory)
      (openedAt lastReportAt newReportCount : ℕ) (errorMessage : String)
  | close (entityQid : String) (category : IncidentCategory)
      (closedAt lastReportAt finalReportCount : ℕ)

variable (env : String → String)

/-- How the reporting engine calls the client: an id that is drawn is new, and a failure is appended
to the incident in the open slot. -/
def Call.Usual (s : Store) : Call → Prop
  | openIncident newId e _ _ _ => s.incident (env e, newId) = none
  | append id e c _ _ _ _ => s.openSlots e c = some id
  | close .. => True

/-- Whether a program has come to its end without an error. -/
def returned {α : Type} : Work α → Bool
  | .ret _ => true
  | _ => false

/-- One call in a sequence, with what the surroundings decide for as many turns as it gets. -/
structure Attempt where
  call : Call
  turns : List Re.sem.Turn

/-- How far a program gets. -/
def progress {α : Type} (p : Work α) (turns : List Re.sem.Turn) (s : State) : Bool × State :=
  (returned (p.exec Re.sem turns s).1, (p.exec Re.sem turns s).2)

/-- How far an attempt gets, when the environment of an entity is given by `env`. -/
def Attempt.exec (a : Attempt) (s : State) : Bool × State :=
  match a.call with
  | .openIncident newId e c openedAt m =>
    progress (Sdb.openIncident newId e (env e) c openedAt m) a.turns s
  | .append id e c openedAt lastReportAt n m =>
    progress (appendFailureToOpenIncident id e (env e) c openedAt lastReportAt n m) a.turns s
  | .close e c closedAt lastReportAt n =>
    progress (closeIncident e (env e) c closedAt lastReportAt n) a.turns s

/-- An attempt that has changed the open slots comes to its end. -/
def Attempt.Unbroken (a : Attempt) (s : State) : Prop :=
  (a.exec env s).2.sdb.openSlots ≠ s.sdb.openSlots → (a.exec env s).1 = true

/-- A sequence of attempts. -/
def attempts (as : List Attempt) (s : State) : State :=
  as.foldl (fun s a => (a.exec env s).2) s

/-- All attempts are usual and unbroken. -/
def Orderly : List Attempt → State → Prop
  | [], _ => True
  | a :: as, s => a.call.Usual env s.sdb ∧ a.Unbroken env s ∧ Orderly as (a.exec env s).2

/-! ## Consistency -/

/-- The columns that have to be there are. -/
structure IncidentRow.Complete (r : IncidentRow) : Prop where
  entityQid : r.entityQid.isSome
  category : r.category.isSome
  openedAt : r.openedAt.isSome
  lastReportAt : r.lastReportAt.isSome
  reportCount : r.reportCount.isSome

theorem IncidentRow.Complete.decode {r : IncidentRow} (h : r.Complete) (id : ℕ) :
    ∃ i, r.decode id = .ok i := by
  obtain ⟨e, he⟩ := Option.isSome_iff_exists.1 h.entityQid
  obtain ⟨c, hc⟩ := Option.isSome_iff_exists.1 h.category
  obtain ⟨o, ho⟩ := Option.isSome_iff_exists.1 h.openedAt
  obtain ⟨l, hl⟩ := Option.isSome_iff_exists.1 h.lastReportAt
  obtain ⟨n, hn⟩ := Option.isSome_iff_exists.1 h.reportCount
  rw [IncidentRow.decode, he, hc, ho, hl, hn]
  exact ⟨_, rfl⟩

/-- An incident of an entity and a category that has not been closed. -/
structure IncidentRow.OpenFor (r : IncidentRow) (e : String) (c : IncidentCategory) : Prop where
  entityQid : r.entityQid = some e
  category : r.category = some c
  closedAt : r.closedAt = none

/-- Rows are complete, and the open slots are exactly those of the incidents that have not been
closed. -/
structure Consistent (s : Store) : Prop where
  complete : ∀ key row, s.incident key = some row → row.Complete
  slot : ∀ e c id, s.openSlots e c = some id →
    ∃ row, s.incident (env e, id) = some row ∧ row.OpenFor e c
  unclosed : ∀ key row e c, s.incident key = some row → row.OpenFor e c →
    key.1 = env e ∧ s.openSlots e c = some key.2

variable {env} {s s' : Store}

/-- Consistency is about incidents and slots only. -/
theorem Consistent.of_eq (h : Consistent env s) (hi : ∀ key, s'.incident key = s.incident key)
    (ho : s'.openSlots = s.openSlots) : Consistent env s' where
  complete key row hrow := h.complete key row (hi key ▸ hrow)
  slot e c id hid := by
    rw [ho] at hid
    obtain ⟨row, hrow, hopen⟩ := h.slot e c id hid
    exact ⟨row, (hi _).trans hrow, hopen⟩
  unclosed key row e c hrow hopen := by
    rw [ho]
    exact h.unclosed key row e c (hi key ▸ hrow) hopen

variable {e : String} {c : IncidentCategory}

/-- A slot that was free, and the incident for it. -/
theorem Consistent.open (h : Consistent env s)
    {newId openedAt : ℕ} {summary : String} (hfree : s.openSlots e c = none)
    (hnew : s.incident (env e, newId) = none) :
    Consistent env ((s.setSlot e c (some newId)).putIncident (env e, newId)
      (openedRow e c openedAt summary)) where
  complete key row hrow := by
    by_cases hkey : key = (env e, newId)
    · rw [hkey, incident_putIncident_self] at hrow
      cases hrow
      exact ⟨rfl, rfl, rfl, rfl, rfl⟩
    · rw [incident_putIncident_ne _ _ hkey] at hrow
      exact h.complete key row hrow
  slot e' c' id hid := by
    rw [openSlots_putIncident] at hid
    by_cases hec : e' = e ∧ c' = c
    · obtain ⟨rfl, rfl⟩ := hec
      rw [openSlots_setSlot_self] at hid
      cases hid
      exact ⟨_, incident_putIncident_self .., rfl, rfl, rfl⟩
    rw [openSlots_setSlot_ne _ _ hec] at hid
    obtain ⟨row, hrow, hopen⟩ := h.slot e' c' id hid
    have hkey : (env e', id) ≠ (env e, newId) := by
      intro heq
      rw [heq, hnew] at hrow
      exact nomatch hrow
    exact ⟨row, (incident_putIncident_ne _ _ hkey).trans hrow, hopen⟩
  unclosed key row e' c' hrow hopen := by
    rw [openSlots_putIncident]
    by_cases hkey : key = (env e, newId)
    · rw [hkey, incident_putIncident_self] at hrow
      cases hrow
      cases hopen.entityQid
      cases hopen.category
      rw [hkey, openSlots_setSlot_self]
      exact ⟨rfl, rfl⟩
    rw [incident_putIncident_ne _ _ hkey] at hrow
    obtain ⟨henv, hslot⟩ := h.unclosed key row e' c' hrow hopen
    refine ⟨henv, ?_⟩
    rw [openSlots_setSlot_ne]
    · exact hslot
    rintro ⟨rfl, rfl⟩
    rw [hfree] at hslot
    exact nomatch hslot

/-- A row that keeps what identifies it. -/
theorem Consistent.modify (h : Consistent env s) {key : IncidentKey} {row : IncidentRow}
    {f : IncidentRow → IncidentRow} (hrow : s.incident key = some row)
    (hcomplete : (f row).Complete)
    (hopen : ∀ e c, (f row).OpenFor e c ↔ row.OpenFor e c) : Consistent env (s.modify key f) := by
  have hmodify : s.modify key f = s.putIncident key (f row) := by
    rw [Store.modify, hrow]
    rfl
  rw [hmodify]
  refine ⟨fun key' row' hrow' => ?_, fun e c id hid => ?_, fun key' row' e c hrow' hopen' => ?_⟩
  · by_cases hkey : key' = key
    · rw [hkey, incident_putIncident_self] at hrow'
      cases hrow'
      exact hcomplete
    · rw [incident_putIncident_ne _ _ hkey] at hrow'
      exact h.complete key' row' hrow'
  · obtain ⟨row', hrow', hopen'⟩ := h.slot e c id hid
    by_cases hkey : (env e, id) = key
    · rw [hkey, hrow] at hrow'
      cases hrow'
      exact ⟨f row, by rw [hkey, incident_putIncident_self], (hopen e c).2 hopen'⟩
    · exact ⟨row', by rw [incident_putIncident_ne _ _ hkey]; exact hrow', hopen'⟩
  by_cases hkey : key' = key
  · rw [hkey, incident_putIncident_self] at hrow'
    cases hrow'
    rw [hkey]
    exact h.unclosed key row e c hrow ((hopen e c).1 hopen')
  · rw [incident_putIncident_ne _ _ hkey] at hrow'
    exact h.unclosed key' row' e c hrow' hopen'

variable {id : ℕ}

/-- A slot that is released, and its incident closed. -/
theorem Consistent.close (h : Consistent env s)
    {f : IncidentRow → IncidentRow} (hid : s.openSlots e c = some id)
    (hcomplete : ∀ row, row.Complete → (f row).Complete)
    (hclosed : ∀ row, (f row).closedAt ≠ none) :
    Consistent env ((s.setSlot e c none).modify (env e, id) f) := by
  obtain ⟨row, hrow, hopen⟩ := h.slot e c id hid
  have hmodify : (s.setSlot e c none).modify (env e, id) f =
      (s.setSlot e c none).putIncident (env e, id) (f row) := by
    rw [Store.modify, incident_setSlot, hrow]
    rfl
  rw [hmodify]
  refine ⟨fun key' row' hrow' => ?_, fun e' c' id' hid' => ?_, fun key' row' e' c' hrow' hopen' => ?_⟩
  · by_cases hkey : key' = (env e, id)
    · rw [hkey, incident_putIncident_self] at hrow'
      cases hrow'
      exact hcomplete row (h.complete _ row hrow)
    · rw [incident_putIncident_ne _ _ hkey] at hrow'
      exact h.complete key' row' hrow'
  · rw [openSlots_putIncident] at hid'
    by_cases hec : e' = e ∧ c' = c
    · obtain ⟨rfl, rfl⟩ := hec
      rw [openSlots_setSlot_self] at hid'
      exact nomatch hid'
    rw [openSlots_setSlot_ne _ _ hec] at hid'
    obtain ⟨row', hrow', hopen'⟩ := h.slot e' c' id' hid'
    have hkey : (env e', id') ≠ (env e, id) := by
      intro heq
      rw [heq, hrow] at hrow'
      cases hrow'
      refine hec ⟨?_, ?_⟩
      · exact Option.some.inj (hopen'.entityQid.symm.trans hopen.entityQid)
      · exact Option.some.inj (hopen'.category.symm.trans hopen.category)
    exact ⟨row', by rw [incident_putIncident_ne _ _ hkey]; exact hrow', hopen'⟩
  by_cases hkey : key' = (env e, id)
  · rw [hkey, incident_putIncident_self] at hrow'
    cases hrow'
    exact absurd hopen'.closedAt (hclosed row)
  rw [incident_putIncident_ne _ _ hkey] at hrow'
  obtain ⟨henv, hslot⟩ := h.unclosed key' row' e' c' hrow' hopen'
  refine ⟨henv, ?_⟩
  rw [openSlots_putIncident, openSlots_setSlot_ne]
  · exact hslot
  rintro ⟨rfl, rfl⟩
  rw [hid] at hslot
  exact hkey (Prod.ext henv (Option.some.inj hslot).symm)

/-! ## One call -/

variable {w : State}

/-- The rule for a statement: it is carried out and the program goes on, or it fails, having been
carried out or not. -/
theorem through_sdb {α : Type} {T : Work α → State → Prop} {o : Statement} {f : o.Result → Work α}
    (here : T (Work.sdb o >>= f) w)
    (done : (f (o.exec w.sdb).1).through Re.sem T (w.withStore (o.exec w.sdb).2))
    (failed : ∀ e, T (.fail e) w ∧ T (.fail e) (w.withStore (o.exec w.sdb).2)) :
    (Work.sdb o >>= f).through Re.sem T w := by
  refine ⟨here, fun reply => ?_⟩
  cases reply with
  | done cut => exact done
  | error applied e =>
  cases applied with
  | false => exact (failed e).1
  | true => exact (failed e).2

/-- What is shown of each place in a call: if it may stop there, the database is consistent. -/
def Kept (env : String → String) (w₀ : State) {α : Type} (p : Work α) (w : State) : Prop :=
  (w.sdb.openSlots ≠ w₀.sdb.openSlots → returned p = true) → Consistent env w.sdb

section Kept

variable {α : Type} {w₀ w : State} {p : Work α}

theorem Kept.of_consistent (h : Consistent env w.sdb) : Kept env w₀ p w := fun _ => h

theorem Kept.of_changed {e : String} {c : IncidentCategory}
    (h : w.sdb.openSlots e c ≠ w₀.sdb.openSlots e c) (hp : returned p = false) :
    Kept env w₀ p w := by
  intro hreturned
  rw [hreturned fun heq => h (by rw [heq])] at hp
  exact nomatch hp

end Kept

theorem exec_claim_free (h : s.openSlots e c = none) :
    (Statement.claimOpenSlot e c id).exec s = (none, s.setSlot e c (some id)) := by
  rw [Statement.exec, h]

theorem exec_claim_taken {existing : ℕ}
    (h : s.openSlots e c = some existing) :
    (Statement.claimOpenSlot e c id).exec s = (some existing, s) := by
  rw [Statement.exec, h]

theorem through_openIncident (h : Consistent env w.sdb) {newId : ℕ}
    {openedAt : ℕ} {m : String}
    (hnew : w.sdb.incident (env e, newId) = none) :
    (Sdb.openIncident newId e (env e) c openedAt m).through Re.sem (Kept env w) w := by
  rw [Sdb.openIncident]
  cases hslot : w.sdb.openSlots e c with
  | some existing =>
    refine through_sdb (.of_consistent h) ?_ fun _ => ⟨.of_consistent h, ?_⟩
    · rw [exec_claim_taken hslot]
      exact Kept.of_consistent h
    · rw [exec_claim_taken hslot]
      exact Kept.of_consistent h
  | none =>
  -- once the slot is taken, only the end of the program counts
  have hchanged : (w.sdb.setSlot e c (some newId)).openSlots e c ≠ w.sdb.openSlots e c := by
    rw [openSlots_setSlot_self, hslot]
    nofun
  refine through_sdb (.of_consistent h) ?_ fun _ => ⟨.of_consistent h, ?_⟩
  · rw [exec_claim_free hslot]
    refine through_sdb (.of_changed hchanged rfl) ?_ fun _ =>
      ⟨.of_changed hchanged rfl, .of_changed hchanged rfl⟩
    refine through_sdb (.of_changed hchanged rfl) ?_ fun _ =>
      ⟨.of_changed hchanged rfl, .of_changed hchanged rfl⟩
    exact Kept.of_consistent ((h.open hslot hnew).of_eq (fun _ => rfl) rfl)
  · rw [exec_claim_free hslot]
    exact Kept.of_changed hchanged rfl

/-- Reading an incident changes nothing. -/
theorem through_incidentInEnv {α : Type} {T : Work α → State → Prop} {envQid : String}
    {f : Option Incident → Work α} (here : T (incidentInEnv envQid id >>= f) w)
    (failed : ∀ e, T (.fail e) w) (hf : ∀ i, (f i).through Re.sem T w) :
    (incidentInEnv envQid id >>= f).through Re.sem T w := by
  rw [incidentInEnv, Prog.bind_assoc] at here ⊢
  refine through_sdb here ?_ fun e => ⟨failed e, failed e⟩
  cases hrow : w.sdb.incident (envQid, id) with
  | none =>
    have hexec : (Statement.getIncident (envQid, id)).exec w.sdb = (none, w.sdb) := by
      rw [Statement.exec, hrow]
    rw [hexec]
    exact hf none
  | some row =>
  have hexec : (Statement.getIncident (envQid, id)).exec w.sdb = (some row, w.sdb) := by
    rw [Statement.exec, hrow]
  rw [hexec]
  change ((some <$> Work.orFail (row.decode id)) >>= f).through Re.sem T w
  cases row.decode id with
  | error e => exact failed e
  | ok i => exact hf (some i)

/-- Appending a failure keeps what identifies the incident. -/
theorem Consistent.append (h : Consistent env s) {key : IncidentKey} {row : IncidentRow}
    (hrow : s.incident key = some row) (lastReportAt : ℕ) (n : ℤ) (summary : String) :
    Consistent env (s.modify key (.stampAppended lastReportAt n summary)) := by
  have hcomplete := h.complete key row hrow
  refine Consistent.modify h hrow ?_ fun e c => ?_
  · exact ⟨hcomplete.entityQid, hcomplete.category, hcomplete.openedAt, rfl, rfl⟩
  · exact ⟨fun ho => ⟨ho.1, ho.2, ho.3⟩, fun ho => ⟨ho.1, ho.2, ho.3⟩⟩

section

variable (h : Consistent env w.sdb)

include h

theorem through_append {incidentId : ℕ}
    {openedAt lastReportAt n : ℕ} {m : String}
    (hid : w.sdb.openSlots e c = some incidentId) :
    (appendFailureToOpenIncident incidentId e (env e) c openedAt lastReportAt n m).through Re.sem
      (Kept env w) w := by
  obtain ⟨row, hrow, -⟩ := h.slot e c incidentId hid
  have hreported : Consistent env (w.sdb.putReport incidentId lastReportAt m) :=
    h.of_eq (fun _ => rfl) rfl
  have hupdated (summary : String) : Consistent env
      ((w.sdb.putReport incidentId lastReportAt m).modify (env e, incidentId)
        (.stampAppended lastReportAt (storedCount n) summary)) := hreported.append hrow ..
  rw [appendFailureToOpenIncident]
  refine through_sdb (.of_consistent h) ?_ fun _ => ⟨.of_consistent h, .of_consistent hreported⟩
  refine through_sdb (.of_consistent hreported) ?_ fun _ =>
    ⟨.of_consistent hreported, .of_consistent hreported⟩
  refine through_sdb (.of_consistent hreported) ?_ fun _ =>
    ⟨.of_consistent hreported, .of_consistent (hupdated _)⟩
  exact through_incidentInEnv (.of_consistent (hupdated _)) (fun _ => .of_consistent (hupdated _))
    fun _ => Kept.of_consistent (hupdated _)

theorem through_close
    {closedAt lastReportAt n : ℕ} :
    (closeIncident e (env e) c closedAt lastReportAt n).through Re.sem (Kept env w) w := by
  rw [Sdb.closeIncident]
  refine through_sdb (.of_consistent h) ?_ fun _ => ⟨.of_consistent h, .of_consistent h⟩
  cases hslot : w.sdb.openSlots e c with
  | none =>
    have hexec : (Statement.getOpenSlot e c).exec w.sdb = (none, w.sdb) := by
      rw [Statement.exec, hslot]
    rw [hexec]
    exact Kept.of_consistent h
  | some id =>
  have hexec : (Statement.getOpenSlot e c).exec w.sdb = (some id, w.sdb) := by
    rw [Statement.exec, hslot]
  have hchanged : (w.sdb.setSlot e c none).openSlots e c ≠ w.sdb.openSlots e c := by
    rw [openSlots_setSlot_self, hslot]
    nofun
  have hclosed : Consistent env ((w.sdb.setSlot e c none).modify (env e, id)
      (.stampClosed closedAt lastReportAt (storedCount n))) := by
    refine Consistent.close h hslot (fun row hrow => ?_) fun _ => Option.some_ne_none _
    exact ⟨hrow.entityQid, hrow.category, hrow.openedAt, rfl, rfl⟩
  rw [hexec]
  refine through_sdb (.of_consistent h) ?_ fun _ =>
    ⟨.of_consistent h, .of_changed hchanged rfl⟩
  refine through_sdb (.of_changed hchanged rfl) ?_ fun _ =>
    ⟨.of_changed hchanged rfl, .of_consistent hclosed⟩
  refine through_incidentInEnv (.of_consistent hclosed) (fun _ => .of_consistent hclosed)
    fun i => ?_
  cases i <;> exact Kept.of_consistent hclosed

/-! ## Sequences of calls -/

/-- **One attempt**: as far as it gets, it keeps the database consistent. -/
theorem Consistent.attempt {a : Attempt}
    (husual : a.call.Usual env w.sdb) (hunbroken : a.Unbroken env w) :
    Consistent env (a.exec env w).2.sdb := by
  obtain ⟨call, turns⟩ := a
  cases call with
  | openIncident newId e c openedAt m =>
    exact Prog.through_exec (through_openIncident h husual) turns hunbroken
  | append id e c openedAt lastReportAt n m =>
    exact Prog.through_exec (through_append h husual) turns hunbroken
  | close e c closedAt lastReportAt n =>
    exact Prog.through_exec (through_close h) turns hunbroken

theorem Consistent.attempts {as : List Attempt}
    (has : Orderly env as w) : Consistent env (attempts env as w).sdb := by
  induction as generalizing w with
  | nil => exact h
  | cons a as ih => exact ih (h.attempt has.1 has.2.1) has.2.2

end

theorem Consistent.empty : Consistent env .empty where
  complete _ _ hrow := nomatch hrow
  slot _ _ _ hid := nomatch hid
  unclosed _ _ _ _ hrow := nomatch hrow

/-- The incidents of an environment can be listed, if the statement is answered. -/
theorem Consistent.listing (h : Consistent env w.sdb) (envQid : String)
    {ts : ℕ → Re.sem.Turn} {cut : Option (ℕ × String)}
    (hts : (ts 0).ans (.sdb (.listIncidentsInEnv envQid)) = Reply.done cut) :
    ∃ is, ((incidentsInEnv envQid).run Re.sem ts w).1 = .ok is := by
  have hrows : ∀ rows : List (ℕ × IncidentRow), (∀ r ∈ rows, r.2.Complete) →
      ∃ is, (rows.mapM fun r => r.2.decode r.1) = .ok is := by
    intro rows hrows
    induction rows with
    | nil => exact ⟨[], rfl⟩
    | cons r rows ih =>
    obtain ⟨hr, hrows⟩ := List.forall_mem_cons.1 hrows
    obtain ⟨i, hi⟩ := hr.decode r.1
    obtain ⟨is, his⟩ := ih hrows
    exact ⟨i :: is, by rw [List.mapM_cons, hi, his]; rfl⟩
  obtain ⟨is, his⟩ := hrows (w.sdb.incidentsOf envQid) fun r hr =>
    h.complete _ _ (mem_incidentsOf.1 hr)
  refine ⟨is, ?_⟩
  have hact : Re.sem.act (.sdb (.listIncidentsInEnv envQid))
      ((ts 0).ans (.sdb (.listIncidentsInEnv envQid))) w = (.ok (w.sdb.incidentsOf envQid), w) := by
    rw [hts]
    rfl
  rw [incidentsInEnv, Work.sdb, Prog.ask_bind, Prog.run, hact]
  change ((Work.orFail ((w.sdb.incidentsOf envQid).mapM fun r => r.2.decode r.1)).run
    Re.sem _ w).1 = _
  rw [his]
  rfl

/-- **Incidents stay in order** when calls that change the open slots come to their end: in every
state a sequence of calls leads to, all incidents are complete, every open slot has its incident,
no two incidents of an entity and a category are open, and listing an environment succeeds if its
statement does. -/
theorem incidents_consistent (env : String → String) (as : List Attempt) (w : State)
    (hw : w.sdb = .empty) (has : Orderly env as w) :
    let w' := attempts env as w
    (∀ key row, w'.sdb.incident key = some row → row.Complete) ∧
      (∀ e c id, w'.sdb.openSlots e c = some id →
        ∃ row, w'.sdb.incident (env e, id) = some row ∧ row.OpenFor e c) ∧
      (∀ e c key row key' row', w'.sdb.incident key = some row → row.OpenFor e c →
        w'.sdb.incident key' = some row' → row'.OpenFor e c → key = key') ∧
      ∀ (envQid : String) (ts : ℕ → Re.sem.Turn) (cut : Option (ℕ × String)),
        (ts 0).ans (.sdb (.listIncidentsInEnv envQid)) = Reply.done cut →
        ∃ is, ((incidentsInEnv envQid).run Re.sem ts w').1 = .ok is := by
  have h : Consistent env (attempts env as w).sdb :=
    Consistent.attempts (by rw [hw]; exact .empty) has
  refine ⟨h.complete, h.slot, ?_, fun envQid ts cut hts => h.listing envQid hts⟩
  intro e c key row key' row' hrow hopen hrow' hopen'
  obtain ⟨henv, hslot⟩ := h.unclosed key row e c hrow hopen
  obtain ⟨henv', hslot'⟩ := h.unclosed key' row' e c hrow' hopen'
  rw [hslot] at hslot'
  exact Prod.ext (henv.trans henv'.symm) (Option.some.inj hslot')

/-! ## Examples -/

/-- Nothing has been reported yet. -/
def start : State := ⟨.empty, [], .new, fun _ => none⟩

/-- All entities of the examples are in one environment. -/
def mainEnv : String → String := fun _ => "Acme/Shop::main"

/-- An incident is opened, after a first attempt that did not reach the database, and a failure is
appended to it as far as the first statement. -/
def mishaps : List Attempt :=
  [⟨.openIncident 1 "d" .crash 5 "out of memory", [lostTurn]⟩,
    ⟨.openIncident 1 "d" .crash 5 "out of memory", [fineTurn, fineTurn, fineTurn]⟩,
    ⟨.append 1 "d" .crash 5 6 2 "out of memory", [fineTurn, lostTurn]⟩]

theorem mishaps_consistent :
    ((attempts mainEnv mishaps start).sdb.openSlots "d" .crash = some 1 ∧
      ∃ row, (attempts mainEnv mishaps start).sdb.incident ("Acme/Shop::main", 1) = some row ∧
        row.OpenFor "d" .crash) := by
  have hslot : (attempts mainEnv mishaps start).sdb.openSlots "d" .crash = some 1 := by
    with_unfolding_all rfl
  have hordered : Orderly mainEnv mishaps start := by
    refine ⟨rfl, fun h => absurd rfl h, rfl, fun _ => ?_, ?_, fun h => absurd ?_ h, trivial⟩
    · with_unfolding_all rfl
    · with_unfolding_all rfl
    · with_unfolding_all rfl
  exact ⟨hslot, (incidents_consistent mainEnv mishaps start rfl hordered).2.1 _ _ _ hslot⟩

/-- The process stops after the slot was claimed, and the next failure is appended to the incident
in the slot. -/
def stoppedOpening : List Attempt :=
  [⟨.openIncident 1 "d" .crash 5 "out of memory", [fineTurn]⟩,
    ⟨.append 1 "d" .crash 6 6 1 "out of memory", [fineTurn, fineTurn, fineTurn, fineTurn]⟩]

/-- An incident is opened, the process stops when its slot has been released, and another incident
is opened. -/
def stoppedClosing : List Attempt :=
  [⟨.openIncident 1 "d" .crash 5 "out of memory", [fineTurn, fineTurn, fineTurn]⟩,
    ⟨.close "d" .crash 7 7 1, [fineTurn, fineTurn]⟩,
    ⟨.openIncident 2 "d" .crash 9 "out of memory", [fineTurn, fineTurn, fineTurn]⟩]

/-- **Calls that are interrupted corrupt the database.**  After an opening that stops in the middle
there is an incident without an entity and a category, and the incidents of the environment cannot
be listed.  After a closing that stops in the middle two incidents are open. -/
theorem interrupted_calls_corrupt :
    let w := attempts mainEnv stoppedOpening start
    let v := attempts mainEnv stoppedClosing start
    (w.sdb.openSlots "d" .crash = some 1 ∧
      w.sdb.incident ("Acme/Shop::main", 1) =
        some ⟨none, none, none, none, some 6, some 1, some "out of memory"⟩ ∧
      ((incidentsInEnv "Acme/Shop::main").run Re.sem (fun _ => fineTurn) w).1 =
        .error "unexpected null") ∧
      v.sdb.incident ("Acme/Shop::main", 1) =
        some ⟨some "d", some .crash, some 5, none, some 5, some 1, some "out of memory"⟩ ∧
      v.sdb.incident ("Acme/Shop::main", 2) =
        some ⟨some "d", some .crash, some 9, none, some 9, some 1, some "out of memory"⟩ := by
  refine ⟨⟨?_, ?_, ?_⟩, ?_, ?_⟩
  all_goals with_unfolding_all rfl

end Skyr.Sdb
