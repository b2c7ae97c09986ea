import Skyr.De.Eval
import Skyr.Rte.Ownership

/-!
# Creates that stop half-way

A create writes the columns of its row one after the other: inputs and owner, dependencies,
outputs, markers, source trace.  Any of these statements can fail, and the ones before it stay
written.  What is left is then up to later messages.

They can do nothing about a row that has its inputs but not its outputs.  A create finds the row
and drops itself; a restore, an adoption, a check and a destroy find the outputs missing and reject
themselves (`stuck`).  And the deployment engine takes such a row into the next evaluation as if
its outputs were the empty record.  A row that has its outputs, on the other hand, can always be
destroyed, whatever else is missing.  So a failed create is harmless exactly when it does not stop
between these two writes (`create_harmless_iff`).  It stops there without any outage if a dependency
does not read back.
-/

namespace Skyr.Rte

open Prog Rdb.ResourceClient

variable [SclData]

/-! ## Rows beyond repair -/

/-- All the columns a create writes are there. -/
def Complete (r : Rdb.Row) : Prop :=
  r.inputs.isSome ∧ r.outputs.isSome ∧ r.dependencies.isSome ∧ r.markers.isSome

/-- A row that no outputs are read from: it has none, or it does not decode. -/
def Broken (c : Rdb.ResourceClient) (row : Rdb.Row) : Prop :=
  ∀ r, Rdb.mapResourceRow c.region c.key row = .ok r → r.outputs = none

/-- Requests that leave the resource databases as they are: reports, settlements and reads. -/
def Idle : Op → Prop
  | .rdb _ (.getResource _) => True
  | o => Quiet o

section Stuck

variable {ctx : WorkerContext} {w : World} {row : Rdb.Row}

theorem idle_of_quiet {o : Op} (h : Quiet o) : Idle o := by
  cases o with
  | report | settle => trivial
  | _ => exact h.elim

theorem idle_quiet {α : Type} {p : M α} (hp : p.issues Quiet) :
    Always (fun _ o => Idle o) p (fun _ _ => True) w :=
  always_of_issues hp (T := fun _ => True)
    (fun _ ho _ _ => ⟨idle_of_quiet ho, fun _ _ => trivial⟩) trivial

theorem act_rdb_of_idle {o : Op} (h : Idle o) (a : Ans o) : (World.act o a w).2.rdb = w.rdb := by
  cases o with
  | rdb region o =>
    cases o with
    | getResource key =>
      refine World.act_rdb_keeps (T := fun w' => w'.rdb = w.rdb) rfl ?_ a
      rw [show w.afterRdb region (.getResource key) = w from w.setRdb_self region]
    | _ => exact h.elim
  | _ => rfl

variable {c : Rdb.ResourceClient}

/-- What every handler but the one for creates does with a broken row: it drops the message or
rejects it. -/
theorem idle_of_get {α : Type} (hrow : c.stored w = some row)
    (hbroken : Broken c row) {f : Except String (Option Rdb.Resource) → M α}
    (hsome : ∀ r : Rdb.Resource, r.outputs = none → (f (.ok (some r))).issues Quiet)
    (herr : ∀ e, (f (.error e)).issues Quiet) :
    Always (fun _ o => Idle o) (c.get.attempt >>= f) (fun _ _ => True) w := by
  refine always_bind.2 (always_attempt.2 (always_get trivial
    (fun hnone => ?_) (fun row' r hrow' hr => ?_) fun e => idle_quiet (herr e)))
  · rw [hrow] at hnone; cases hnone
  rw [hrow] at hrow'
  cases hrow'
  exact idle_quiet (hsome r (hbroken r hr))

variable {r : Rdb.Resource}

theorem idle_destroyOwned (d : DestroyMessage) (hr : r.outputs = none) :
    (destroyOwned ctx d r).issues Quiet := by
  rw [destroyOwned, hr]
  cases r.inputs with
  | none | some => exact reject_quiet ..

theorem idle_updateOwned (p : UpdateParams) (hr : r.outputs = none) :
    (p.updateOwned ctx r).issues Quiet := by
  rw [UpdateParams.updateOwned, hr]
  cases r.inputs with
  | none | some => exact p.reject_quiet ..

theorem idle_checkOwned (d : CheckMessage) (hr : r.outputs = none) :
    (checkOwned ctx d r).issues Quiet := by
  rw [checkOwned, hr]
  cases r.inputs with
  | none | some => exact reject_quiet ..

theorem idle_handleUpdate (p : UpdateParams)
    (hrow : (resourceClient ctx p.resource).stored w = some row)
    (hbroken : Broken (resourceClient ctx p.resource) row) :
    Always (fun _ o => Idle o) (handleUpdate ctx p) (fun _ _ => True) w := by
  have hdrop : (M.settle .ack >>= fun _ => (pure none : M (Option Bool))).issues Quiet :=
    issues_bind (settle_quiet _) fun _ => trivial
  have hinputs : Always (fun _ o => Idle o) (handleUpdateInputs ctx p) (fun _ _ => True) w := by
    refine idle_of_get hrow hbroken (fun r hr => ?_) fun e => p.reject_quiet ..
    change Prog.issues Quiet (if _ then _ else _)
    split
    · exact hdrop
    · exact idle_updateOwned p hr
  refine always_then (I := fun _ => True) hinputs (fun r _ _ => ?_) fun _ _ _ => trivial
  cases r with
  | none => trivial
  | some volatile => exact idle_quiet (publishReport_quiet ..)

theorem idle_handle (m : Message) (hrow : (resourceClient ctx m.resource).stored w = some row)
    (hbroken : Broken (resourceClient ctx m.resource) row) :
    Always (fun _ o => Idle o) (handle ctx m) (fun _ _ => True) w := by
  cases m with
  | create d =>
    exact idle_of_get hrow hbroken (fun _ _ => settle_quiet _) fun e => reject_quiet ..
  | restore d => exact idle_handleUpdate (restoreParams d) hrow hbroken
  | adopt d => exact idle_handleUpdate (adoptParams d) hrow hbroken
  | destroy d =>
    refine idle_of_get hrow hbroken (fun r hr => ?_) fun e => reject_quiet ..
    change Prog.issues Quiet (if _ then _ else _)
    split
    · exact settle_quiet _
    · exact idle_destroyOwned d hr
  | check d =>
  refine idle_of_get hrow hbroken (fun r hr => ?_) fun e => reject_quiet ..
  change Prog.issues Quiet (if _ then _ else _)
  split
  · exact settle_quiet _
  · exact idle_checkOwned d hr

theorem stored_deliver_of_broken (hrow : c.stored w = some row)
    (hbroken : Broken c row) (d : Delivery) : c.stored (deliver ctx w d) = some row := by
  by_cases hc : c = resourceClient ctx d.message.resource
  · subst hc
    have hidle : Always (fun _ o => Idle o) (workerLoopIteration ctx d.message)
        (fun _ _ => True) w :=
      always_then (I := fun _ => True) (idle_handle d.message hrow hbroken)
        (fun _ _ _ => idle_quiet (settle_quiet _)) fun _ _ _ => trivial
    have hrdb : (deliver ctx w d).rdb = w.rdb :=
      exec_rel (R := fun w w' : World => w'.rdb = w.rdb) (fun _ => rfl)
        (fun _ _ _ h h' => h'.trans h) (fun _ _ a h _ => act_rdb_of_idle h a) hidle
        (within_anything d.turns)
    exact (stored_congr _ hrdb).trans hrow
  · exact ((exec_stepped ctx w d).others c hc).trans hrow

/-- **A broken row is stuck**: no message of any kind, delivered any number of times, ever changes
it again. -/
theorem stuck (hrow : c.stored w = some row) (hbroken : Broken c row)
    (ds : List Delivery) : c.stored (ds.foldl (deliver ctx) w) = some row := by
  induction ds generalizing w with
  | nil => exact hrow
  | cons d ds ih => exact ih (stored_deliver_of_broken hrow hbroken d)

end Stuck

/-! ## Rows that can be destroyed -/

section Recover

variable {ctx : WorkerContext} {w : World}

/-- A row that a destroy in the name of `owner` can take away. -/
structure Destroyable (c : Rdb.ResourceClient) (owner : String) (row : Rdb.Row) : Prop where
  owned : row.owner = some owner
  decodes : ∃ r inputs outputs, Rdb.mapResourceRow c.region c.key row = .ok r ∧
    r.inputs = some inputs ∧ r.outputs = some outputs

theorem surely_get {P : World → Op → Prop} {c : Rdb.ResourceClient} {row : Rdb.Row}
    {r : Rdb.Resource} {Q : Except String (Option Rdb.Resource) → World → Prop}
    (hP : P w (.rdb c.region (.getResource c.key))) (hrow : c.stored w = some row)
    (hr : Rdb.mapResourceRow c.region c.key row = .ok r) (hQ : Q (.ok (some r)) w) :
    Surely P c.get Q w := by
  have hw : w.afterRdb c.region (.getResource c.key) = w := w.setRdb_self c.region
  refine always_bind.2 (surely_rdb.2 ⟨hP, ?_⟩)
  rw [hw]
  have hread : (Rdb.Store.exec none (.getResource c.key) (w.rdb c.region)).1 = c.stored w := rfl
  rw [hread, hrow]
  change Surely P (some <$> M.ofExcept (Rdb.mapResourceRow c.region c.key row)) Q w
  rw [hr]
  exact hQ

/-- Requests of the transition engine that leave the resource databases as they are leave the rows
as they are. -/
theorem surely_quiet {α : Type} {c : Rdb.ResourceClient} {row : Option Rdb.Row} {p : M α}
    (hp : p.issues Quiet) (hrow : c.stored w = row) :
    Surely (fun _ _ => True) p (fun _ w' => c.stored w' = row) w := by
  refine always_of_issues (T := fun w' => c.stored w' = row) hp (fun o ho w' hw' => ?_) hrow
  refine ⟨trivial, fun a _ => ?_⟩
  exact (c.stored_congr (act_rdb_of_idle (idle_of_quiet ho) a)).trans hw'

variable {d : DestroyMessage} {plugin : ModuleId} {row : Rdb.Row}
  (hplugin : resolvePlugin d.resource.resourceId.typ ctx.plugins = some plugin)
  (hrow : (resourceClient ctx d.resource).stored w = some row)
  (h : Destroyable (resourceClient ctx d.resource)
    (deploymentQid d.resource.environmentQid d.deploymentId) row)

include hplugin hrow h

/-- In cooperative surroundings a destroy takes its resource's row away. -/
theorem surely_handleDestroy : Surely (fun _ _ => True) (handleDestroy ctx d)
      (fun _ w' => (resourceClient ctx d.resource).stored w' = none) w := by
  obtain ⟨r, inputs, outputs, hr, hinputs, houtputs⟩ := h.decodes
  have howner : r.owner = some (deploymentQid d.resource.environmentQid d.deploymentId) :=
    (Rdb.owner_mapResourceRow hr).trans h.owned
  refine always_bind.2 (always_attempt.2 (surely_get trivial hrow hr ?_))
  change Surely _ (if r.owner ≠ _ then _ else _) _ w
  rw [if_neg (not_not.2 howner), destroyOwned, hinputs, houtputs, hplugin]
  refine always_bind.2 (always_attempt.2 ⟨trivial, ?_⟩)
  rintro ans rfl
  refine always_bind.2 (always_attempt.2 (always_bind.2 (surely_rdb.2 ⟨trivial, ?_⟩)))
  refine surely_quiet (publishReport_quiet ..) ?_
  rw [stored_afterRdb, if_pos ⟨rfl, rfl⟩]
  rfl

/-- **A row with its outputs can be destroyed.** -/
theorem exists_destroy :
    ∃ turns, (resourceClient ctx d.resource).stored (deliver ctx w ⟨.destroy d, turns⟩) = none := by
  have hsurely : Surely (fun _ _ => True) (workerLoopIteration ctx (.destroy d))
      (fun _ w' => (resourceClient ctx d.resource).stored w' = none) w := by
    refine always_bind.2 (always_mono (surely_handleDestroy hplugin hrow h) ?_)
    intro r w' hw'
    cases r with
    | ok _ => exact surely_quiet (settle_quiet _) hw'
    | error e => exact hw'
  have hrun := always_run hsurely (fun _ => calm_within)
  obtain ⟨turns, hturns⟩ := exists_exec_eq_run (workerLoopIteration ctx (.destroy d))
    (fun _ => calm) w
  refine ⟨turns, ?_⟩
  rw [deliver, Delivery.progress, hturns]
  exact hrun

end Recover

/-! ## The writes of a create -/

/-- A record column that reads back. -/
def ReadsBack (json : Json) : Prop := ∃ record, Rdb.decodeRecord (some json) = .ok (some record)

/-- The texts of the dependencies parse, and their column is not too large. -/
def ColumnReadsBack (column : Rdb.Column) : Prop := ∃ ids, Rdb.decodeDependencies column = .ok ids

/-- The first write of a create is carried out, whatever is replied to it. -/
def InputsWritten (c : Rdb.ResourceClient) (owner : String) (resource : Resource)
    (ts : ℕ → World.sem.Turn) : Prop :=
  ∃ inputs, SclData.toJson resource.inputs = .ok inputs ∧
    ((ts 0).ans (.rdb c.region (.setResourceInput c.key inputs owner))).applied

/-- The write of the outputs, as the next one, is carried out, and they read back. -/
def OutputWritten (c : Rdb.ResourceClient) (resource : Resource) (ts : ℕ → World.sem.Turn) :
    Prop :=
  ∃ outputs, SclData.toJson resource.outputs = .ok outputs ∧ ReadsBack outputs ∧
    ((ts 0).ans (.rdb c.region (.setResourceOutput c.key outputs))).applied

/-- The create gets past the write of the dependencies, and on to that of the outputs. -/
def DependenciesPassed (c : Rdb.ResourceClient) (resource : Resource)
    (dependencies : List ResourceId) (ts : ℕ → World.sem.Turn) : Prop :=
  ColumnReadsBack (Rdb.encodeDependencies dependencies) ∧
  ((ts 0).ans (.rdb c.region (.setResourceDependencies c.key dependencies))).isDone ∧
  ((ts 1).ans (.rdb c.region (.getResource c.key))).isDone ∧
  OutputWritten c resource fun n => ts (n + 2)

/-- The create gets past the writes of the inputs and the dependencies, and the write of the
outputs is carried out; what it writes reads back. -/
def OutputsWritten (c : Rdb.ResourceClient) (owner : String) (resource : Resource)
    (dependencies : List ResourceId) (ts : ℕ → World.sem.Turn) : Prop :=
  (∃ inputs, SclData.toJson resource.inputs = .ok inputs ∧ ReadsBack inputs ∧
    ((ts 0).ans (.rdb c.region (.setResourceInput c.key inputs owner))).isDone) ∧
  ((ts 1).ans (.rdb c.region (.getResource c.key))).isDone ∧
  DependenciesPassed c resource dependencies fun n => ts (n + 2)

section Writes

variable {c : Rdb.ResourceClient} {w : World} {row : Rdb.Row} {inputs : Json} {owner : String}
  {resource : Resource} {dependencies : List ResourceId} {sourceTrace : SourceTrace}
  {ts : ℕ → World.sem.Turn}

theorem stored_write {o : Rdb.Op} (ho : o.target = some c.key) :
    c.stored (w.afterRdb c.region o) = o.effect (c.stored w) := by
  rw [stored_afterRdb, if_pos ⟨rfl, ho⟩]

theorem decodeRecord_some_eq (json : Json) :
    (∃ e, Rdb.decodeRecord (some json) = .error e) ∨ ReadsBack json := by
  cases h : Rdb.decodeRecord (some json) with
  | error e => exact .inl ⟨e, rfl⟩
  | ok r =>
  cases r with
  | some record => exact .inr ⟨record, h⟩
  | none =>
  rw [Rdb.decodeRecord] at h
  split at h
  · cases h
  · cases hj : SclData.fromJson json <;> rw [hj] at h <;> cases h

theorem broken_of_no_outputs (h : row.outputs = none) : Broken c row := by
  intro r hr
  rw [Rdb.mapResourceRow, h, Rdb.decodeRecord] at hr
  split at hr
  · next hin hout _ => cases hr; cases hout; rfl
  · cases hr
  · cases hr
  · cases hr

variable {outputs : Json}

theorem readsBack_of_decodes {r : Rdb.Resource} (h : row.outputs = some outputs)
    (hr : Rdb.mapResourceRow c.region c.key row = .ok r) : ReadsBack outputs := by
  rcases decodeRecord_some_eq outputs with ⟨e, he⟩ | hback
  · rw [Rdb.mapResourceRow, h, he] at hr
    cases hin : Rdb.decodeRecord row.inputs <;> rw [hin] at hr <;> cases hr
  · exact hback

theorem columnReadsBack_of_decodes {r : Rdb.Resource}
    (hr : Rdb.mapResourceRow c.region c.key row = .ok r) : ColumnReadsBack row.column := by
  rw [Rdb.mapResourceRow] at hr
  split at hr
  · next hdeps => exact ⟨_, hdeps⟩
  · cases hr
  · cases hr
  · cases hr

theorem destroyable_of_readsBack (hin : row.inputs = some inputs)
    (hown : row.owner = some owner) (hout : row.outputs = some outputs)
    (hinputs : ReadsBack inputs) (houtputs : ReadsBack outputs)
    (hdeps : ColumnReadsBack row.column) : Destroyable c owner row := by
  obtain ⟨x, hx⟩ := hinputs
  obtain ⟨y, hy⟩ := houtputs
  obtain ⟨ids, hids⟩ := hdeps
  refine ⟨hown, ?_⟩
  rw [Rdb.mapResourceRow, hin, hout, hx, hy, hids]
  exact ⟨_, x, y, rfl, rfl, rfl⟩

/-- The row in the middle of a create: inputs and owner are there, outputs and markers are not. -/
structure Halfway (inputs : Json) (owner : String) (row : Rdb.Row) : Prop where
  inputs : row.inputs = some inputs
  owner : row.owner = some owner
  outputs : row.outputs = none
  markers : row.markers = none

theorem Halfway.decodes_iff (h : Halfway inputs owner row) :
    (∃ r, Rdb.mapResourceRow c.region c.key row = .ok r) ↔
      ReadsBack inputs ∧ ColumnReadsBack row.column := by
  constructor
  · rintro ⟨r, hr⟩
    refine ⟨?_, columnReadsBack_of_decodes hr⟩
    rw [Rdb.mapResourceRow, h.inputs, h.outputs] at hr
    rcases decodeRecord_some_eq inputs with ⟨e, he⟩ | hback
    · rw [he] at hr; cases hr
    · exact hback
  rintro ⟨⟨record, hrecord⟩, ids, hids⟩
  rw [Rdb.mapResourceRow, h.inputs, h.outputs, hrecord, hids]
  exact ⟨_, rfl⟩

/-- How the row is left by a create that has written its inputs: `written` says that it has
written its outputs as well. -/
def LeftBy (c : Rdb.ResourceClient) (owner : String) (written : Prop) (row : Option Rdb.Row) :
    Prop :=
  ∃ r, row = some r ∧
    ((written ∧ Destroyable c owner r) ∨ (¬written ∧ Broken c r ∧ r.markers = none))

theorem Halfway.leftBy {written : Prop} (h : Halfway inputs owner row) (hw : ¬written) :
    LeftBy c owner written (some row) :=
  ⟨row, rfl, .inr ⟨hw, broken_of_no_outputs h.outputs, h.markers⟩⟩

/-- The columns written last have no bearing on whether a row can be destroyed. -/
theorem destroyable_run {α : Type} {p : M α}
    (hp : p.issues fun o => (∃ markers, o = .rdb c.region (.setResourceMarkers c.key markers)) ∨
      (∃ trace, o = .rdb c.region (.setResourceSourceTrace c.key trace)) ∨
      o = .rdb c.region (.getResource c.key))
    (hrow : c.stored w = some row) (hin : row.inputs = some inputs) (hown : row.owner = some owner)
    (hout : row.outputs = some outputs) (hinputs : ReadsBack inputs) (houtputs : ReadsBack outputs)
    (hdeps : ColumnReadsBack row.column) :
    ∃ row', c.stored (p.run World.sem ts w).2 = some row' ∧ Destroyable c owner row' := by
  let Kept (w' : World) : Prop := ∃ row', c.stored w' = some row' ∧
    row'.inputs = some inputs ∧ row'.owner = some owner ∧ row'.outputs = some outputs ∧
      row'.column = row.column
  have halways : Always (fun _ _ => True) p (fun _ w' => Kept w') w := by
    refine always_of_issues hp ?_ ⟨row, hrow, hin, hown, hout, rfl⟩
    -- Whether a statement is carried out or not, these columns are as before.
    rintro o ho w' ⟨row', hrow', hin', hown', hout'⟩
    refine ⟨trivial, fun a _ => ?_⟩
    rcases ho with ⟨markers, rfl⟩ | ⟨trace, rfl⟩ | rfl
    · refine World.act_rdb_keeps (T := Kept) ⟨row', hrow', hin', hown', hout'⟩ ?_ a
      refine ⟨{ row' with markers := some markers }, ?_, hin', hown', hout'⟩
      rw [stored_write rfl, hrow']
      rfl
    · refine World.act_rdb_keeps (T := Kept) ⟨row', hrow', hin', hown', hout'⟩ ?_ a
      refine ⟨{ row' with sourceTrace := some trace }, ?_, hin', hown', hout'⟩
      rw [stored_write rfl, hrow']
      rfl
    refine ⟨row', ?_, hin', hown', hout'⟩
    exact (c.stored_congr (act_rdb_of_idle (o := .rdb c.region (.getResource c.key))
      trivial a)).trans hrow'
  obtain ⟨row', hrow', hin', hown', hout', hcolumn⟩ :=
    always_run halways (fun n => fun _ => trivial)
  exact ⟨row', hrow',
    destroyable_of_readsBack hin' hown' hout' hinputs houtputs (hcolumn ▸ hdeps)⟩

theorem markers_issues (c : Rdb.ResourceClient) (markers : List Marker) (trace : SourceTrace) :
    (do
      let _ ← c.setMarkers markers
      let _ ← c.setSourceTrace trace : M Unit).issues fun o =>
        (∃ markers, o = .rdb c.region (.setResourceMarkers c.key markers)) ∨
        (∃ trace, o = .rdb c.region (.setResourceSourceTrace c.key trace)) ∨
        o = .rdb c.region (.getResource c.key) := by
  refine issues_bind (issues_write (.inl ⟨_, rfl⟩) (.inr (.inr rfl)))
    fun _ => issues_bind (issues_write (.inr (.inl ⟨_, rfl⟩)) (.inr (.inr rfl))) fun _ => trivial

theorem persist_from_outputs (hrow : c.stored w = some row) (h : Halfway inputs owner row)
    (hinputs : ReadsBack inputs) (hdeps : ColumnReadsBack row.column) :
    LeftBy c owner (OutputWritten c resource ts) (c.stored ((do
      let _ ← c.setOutput resource.outputs
      let _ ← c.setMarkers resource.markers
      let _ ← c.setSourceTrace sourceTrace : M Unit).run World.sem ts w).2) := by
  rw [Rdb.ResourceClient.setOutput]
  cases houtputs : SclData.toJson resource.outputs with
  | error e =>
    change LeftBy c owner _ (c.stored w)
    rw [hrow]
    refine h.leftBy ?_
    rintro ⟨outputs, hout, -, -⟩
    rw [houtputs] at hout
    cases hout
  | ok outputs =>
  change LeftBy c owner _ (c.stored ((((M.rdb c.region (.setResourceOutput c.key outputs)) >>=
    fun _ => c.readBack) >>= _).run World.sem ts w).2)
  have hstored : c.stored (w.afterRdb c.region (.setResourceOutput c.key outputs)) =
      some { row with outputs := some outputs } := by
    rw [stored_write rfl, hrow]
    rfl
  have hwritten : OutputWritten c resource ts ↔ ReadsBack outputs ∧
      ((ts 0).ans (.rdb c.region (.setResourceOutput c.key outputs))).applied := by
    rw [OutputWritten, houtputs]
    simp
  rw [hwritten]
  by_cases hpass : c.Passes (.setResourceOutput c.key outputs) ts w
  · obtain ⟨r, hrun⟩ := run_write_of_passes hpass
    rw [hrun]
    obtain ⟨hdone, -, row', r', hrow', hr'⟩ := hpass
    rw [hstored] at hrow'
    cases hrow'
    have hback : ReadsBack outputs := readsBack_of_decodes rfl hr'
    obtain ⟨row', hrow', hdestroy⟩ := destroyable_run (markers_issues ..) hstored h.inputs
      h.owner rfl hinputs hback hdeps
    exact ⟨row', hrow', .inl ⟨⟨hback, Reply.applied_of_isDone hdone⟩, hdestroy⟩⟩
  rw [run_write_of_not_passes hpass]
  split
  · next happlied =>
    refine ⟨_, hstored, ?_⟩
    by_cases hback : ReadsBack outputs
    · exact .inl ⟨⟨hback, happlied⟩,
        destroyable_of_readsBack h.inputs h.owner rfl hinputs hback hdeps⟩
    · refine .inr ⟨fun hw => hback hw.1, fun r hr => ?_, h.markers⟩
      exact absurd (readsBack_of_decodes rfl hr) hback
  next happlied =>
  rw [hrow]
  exact h.leftBy fun hw => happlied hw.2

/-- From the write of the dependencies on. -/
theorem persist_from_dependencies (hrow : c.stored w = some row) (h : Halfway inputs owner row)
    (hinputs : ReadsBack inputs) :
    LeftBy c owner (DependenciesPassed c resource dependencies ts) (c.stored ((do
      let _ ← c.setDependencies dependencies
      let _ ← c.setOutput resource.outputs
      let _ ← c.setMarkers resource.markers
      let _ ← c.setSourceTrace sourceTrace : M Unit).run World.sem ts w).2) := by
  rw [Rdb.ResourceClient.setDependencies]
  have hstored : c.stored (w.afterRdb c.region (.setResourceDependencies c.key dependencies)) =
      some { row with dependencies := some dependencies } := by
    rw [stored_write rfl, hrow]
    rfl
  have hhalf : Halfway inputs owner { row with dependencies := some dependencies } :=
    ⟨h.inputs, h.owner, h.outputs, h.markers⟩
  by_cases hpass : c.Passes (.setResourceDependencies c.key dependencies) ts w
  · obtain ⟨r, hrun⟩ := run_write_of_passes hpass
    rw [hrun]
    obtain ⟨hdone, hread, _, _, hrow', hr'⟩ := hpass
    rw [hstored] at hrow'
    cases hrow'
    have hdeps : ColumnReadsBack (Rdb.encodeDependencies dependencies) :=
      columnReadsBack_of_decodes hr'
    obtain ⟨row', hrow', hleft⟩ := persist_from_outputs hstored hhalf hinputs hdeps
    refine ⟨row', hrow', hleft.imp (fun hw => ⟨⟨hdeps, hdone, hread, hw.1⟩, hw.2⟩) fun hw => ?_⟩
    exact ⟨fun hpassed => hw.1 hpassed.2.2.2, hw.2⟩
  have hnot : ¬DependenciesPassed c resource dependencies ts := fun ⟨hdeps, hdone, hread, _⟩ =>
    hpass ⟨hdone, hread, _, _, hstored, (hhalf.decodes_iff.2 ⟨hinputs, hdeps⟩).choose_spec⟩
  rw [run_write_of_not_passes hpass]
  split
  · rw [hstored]
    exact hhalf.leftBy hnot
  · rw [hrow]
    exact h.leftBy hnot

/-- **What the writes of a create leave behind**: nothing when the inputs are not written, a row
that can be destroyed when the outputs are, and a broken row in between. -/
theorem persist_leaves (hnone : c.stored w = none) :
    (¬InputsWritten c owner resource ts → c.stored ((persistResourceState c resource.inputs owner
      resource.outputs (some resource.markers) dependencies sourceTrace).run World.sem ts w).2 =
        none) ∧
    (InputsWritten c owner resource ts →
      LeftBy c owner (OutputsWritten c owner resource dependencies ts) (c.stored
        ((persistResourceState c resource.inputs owner resource.outputs (some resource.markers)
          dependencies sourceTrace).run World.sem ts w).2)) := by
  rw [persistResourceState, Rdb.ResourceClient.setInput]
  cases hinputs : SclData.toJson resource.inputs with
  | error e =>
    refine ⟨fun _ => hnone, ?_⟩
    rintro ⟨inputs, hin, -⟩
    rw [hinputs] at hin
    cases hin
  | ok inputs =>
  have hstored : c.stored (w.afterRdb c.region (.setResourceInput c.key inputs owner)) =
      some { Rdb.Row.blank with inputs := some inputs, owner := some owner } := by
    rw [stored_write rfl, hnone]
    rfl
  have hhalf : Halfway inputs owner
      { Rdb.Row.blank with inputs := some inputs, owner := some owner } := ⟨rfl, rfl, rfl, rfl⟩
  have hwritten : InputsWritten c owner resource ts ↔
      ((ts 0).ans (.rdb c.region (.setResourceInput c.key inputs owner))).applied := by
    rw [InputsWritten, hinputs]
    simp
  rw [hwritten]
  change (_ → c.stored ((((M.rdb c.region (.setResourceInput c.key inputs owner)) >>=
    fun _ => c.readBack) >>= _).run World.sem ts w).2 = none) ∧ (_ → LeftBy c owner _
      (c.stored ((((M.rdb c.region (.setResourceInput c.key inputs owner)) >>=
        fun _ => c.readBack) >>= _).run World.sem ts w).2))
  by_cases hpass : c.Passes (.setResourceInput c.key inputs owner) ts w
  · refine ⟨fun hnot => absurd (Reply.applied_of_isDone hpass.1) hnot, fun _ => ?_⟩
    obtain ⟨r, hrun⟩ := run_write_of_passes hpass
    rw [hrun]
    obtain ⟨hdone, hread, row', r', hrow', hr'⟩ := hpass
    rw [hstored] at hrow'
    cases hrow'
    have hback : ReadsBack inputs := (hhalf.decodes_iff.1 ⟨r', hr'⟩).1
    obtain ⟨row', hrow', hleft⟩ := persist_from_dependencies hstored hhalf hback
    refine ⟨row', hrow', hleft.imp (fun hw => ⟨⟨⟨inputs, hinputs, hback, hdone⟩, hread, hw.1⟩,
      hw.2⟩) fun hw => ⟨fun hout => hw.1 hout.2.2, hw.2⟩⟩
  have hnot : ¬OutputsWritten c owner resource dependencies ts := by
    rintro ⟨⟨inputs', hinputs', hback, hdone⟩, hread, -⟩
    rw [hinputs] at hinputs'
    cases hinputs'
    exact hpass ⟨hdone, hread, _, _, hstored, (hhalf.decodes_iff.2 ⟨hback, [], rfl⟩).choose_spec⟩
  rw [run_write_of_not_passes hpass]
  refine ⟨fun happlied => ?_, fun happlied => ?_⟩
  · rw [if_neg happlied]
    exact hnone
  · rw [if_pos happlied, hstored]
    exact hhalf.leftBy hnot

end Writes

/-! ## Failed creates

The row that a create leaves is the one of its writes, if it gets to them, and otherwise the one it
found. -/

section Create

variable (ctx : WorkerContext) (m : CreateMessage)

/-- The text of the deployment a create is for. -/
def creator : String := deploymentQid m.resource.environmentQid m.deploymentId

/-- At turn `t` the plugin creates `resource`, and nothing keeps it from being written. -/
def Created (t : World.sem.Turn) (resource : Resource) : Prop :=
  ∃ plugin inputs, resolvePlugin m.resource.resourceId.typ ctx.plugins = some plugin ∧
    checkJsonSize m.inputs maxInputSizeBytes ∧ SclData.fromJson m.inputs = .ok inputs ∧
    t.ans (.plugin plugin (.createResource (creator m) m.resource.resourceId inputs)) =
      .ok resource ∧
    outputTooLarge resource.outputs = false

/-- The create gets as far as the writes, and `resource` is what it then writes. -/
def ReachesWrites (ts : ℕ → World.sem.Turn) (resource : Resource) : Prop :=
  ((ts 0).ans (.rdb (resourceClient ctx m.resource).region
    (.getResource (resourceClient ctx m.resource).key))).isDone ∧
  Created ctx m (ts 1) resource

/-- The create writes the inputs of its resource, and then stops before it has written the
outputs, or what it writes does not read back. -/
def StopsHalfway (ts : ℕ → World.sem.Turn) : Prop :=
  ∃ resource, ReachesWrites ctx m ts resource ∧
    InputsWritten (resourceClient ctx m.resource) (creator m) resource (fun n => ts (n + 2)) ∧
    ¬OutputsWritten (resourceClient ctx m.resource) (creator m) resource
      (dependenciesFromRefs m.dependencies) fun n => ts (n + 2)

/-- The world a create leaves. -/
def afterCreate (ts : ℕ → World.sem.Turn) (w : World) : World :=
  ((handleCreate ctx m).run World.sem ts w).2

variable {ctx m} {w : World} {ts : ℕ → World.sem.Turn}

theorem run_get_missing {α : Type} {c : Rdb.ResourceClient} (hnone : c.stored w = none)
    {f : Except String (Option Rdb.Resource) → M α} :
    (c.get.attempt >>= f).run World.sem ts w =
      match (ts 0).ans (.rdb c.region (.getResource c.key)) with
      | .done _ => (f (.ok none)).run World.sem (fun n => ts (n + 1)) w
      | .error _ msg => (f (.error msg)).run World.sem (fun n => ts (n + 1)) w := by
  have hw : w.setRdb c.region (w.rdb c.region) = w := w.setRdb_self c.region
  let read (reply : Reply) := World.act (.rdb c.region (.getResource c.key)) reply w
  change (((M.ofExcept (read ((ts 0).ans (.rdb c.region (.getResource c.key)))).1 >>= _ :
    M (Option Rdb.Resource)).attempt) >>= f).run World.sem _
      (read ((ts 0).ans (.rdb c.region (.getResource c.key)))).2 = _
  cases (ts 0).ans (.rdb c.region (.getResource c.key)) with
  | done cut =>
    have hread : read (.done cut) = (.ok (c.stored w), w.setRdb c.region (w.rdb c.region)) := rfl
    rw [hread, hnone, hw]
    rfl
  | error applied msg =>
  have hread : (read (.error applied msg)).2 = w := by cases applied <;> exact hw
  rw [hread]
  rfl

theorem act_rdb_of_quiet (o : Op) (ho : Quiet o) (a : World.sem.Ans o) (w : World) :
    (World.sem.act o a w).2.rdb = w.rdb :=
  act_rdb_of_idle (idle_of_quiet ho) a

theorem run_persistCreated (resource : Resource) (ts : ℕ → World.sem.Turn) (w : World) :
    ((persistCreated ctx m resource).run World.sem ts w).2.rdb =
      if outputTooLarge resource.outputs then w.rdb
      else ((persistResourceState (resourceClient ctx m.resource) resource.inputs (creator m)
        resource.outputs (some resource.markers) (dependenciesFromRefs m.dependencies)
        m.sourceTrace).run World.sem ts w).2.rdb := by
  rw [persistCreated]
  split
  · exact run_of_issues act_rdb_of_quiet (reject_quiet ..) ts w
  refine run_attempt_bind act_rdb_of_quiet (fun r => ?_) ts w
  cases r with
  | ok _ => exact publishReport_quiet ..
  | error e => exact reject_quiet ..

/-- A create of a missing row either writes what the plugin created, or does not write. -/
theorem run_createMissing (ctx : WorkerContext) (m : CreateMessage) (ts : ℕ → World.sem.Turn)
    (w : World) :
    (∃ resource w', Created ctx m (ts 0) resource ∧ w'.rdb = w.rdb ∧
      ((createMissing ctx m).run World.sem ts w).2.rdb =
        ((persistResourceState (resourceClient ctx m.resource) resource.inputs (creator m)
          resource.outputs (some resource.markers) (dependenciesFromRefs m.dependencies)
          m.sourceTrace).run World.sem (fun n => ts (n + 1)) w').2.rdb) ∨
    ((∀ resource, ¬Created ctx m (ts 0) resource) ∧
      ((createMissing ctx m).run World.sem ts w).2.rdb = w.rdb) := by
  have hreject : ∀ category error state volatile (ts : ℕ → World.sem.Turn) (w : World),
      ((reject m.homeRegion m.resource category error state volatile).run World.sem ts w).2.rdb =
        w.rdb :=
    fun category error state volatile =>
      run_of_issues act_rdb_of_quiet (reject_quiet _ _ state category error volatile)
  rw [createMissing]
  cases hplugin : resolvePlugin m.resource.resourceId.typ ctx.plugins with
  | none =>
    refine .inr ⟨?_, hreject ..⟩
    rintro resource ⟨plugin, inputs, h, -⟩
    rw [hplugin] at h
    cases h
  | some plugin =>
  cases hsize : checkJsonSize m.inputs maxInputSizeBytes with
  | false =>
    refine .inr ⟨?_, hreject ..⟩
    rintro resource ⟨plugin, inputs, -, h, -⟩
    rw [hsize] at h
    cases h
  | true =>
  cases hjson : SclData.fromJson m.inputs with
  | error e =>
    refine .inr ⟨?_, hreject ..⟩
    rintro resource ⟨plugin, inputs, -, -, h, -⟩
    rw [hjson] at h
    cases h
  | ok inputs =>
  let call : PluginCall := .createResource (creator m) m.resource.resourceId inputs
  have hcreated : ∀ resource, Created ctx m (ts 0) resource ↔
      (ts 0).ans (.plugin plugin call) = .ok resource ∧
        outputTooLarge resource.outputs = false := by
    intro resource
    simp [Created, hplugin, hsize, hjson, call]
  let w' : World := { w with pluginCalls := w.pluginCalls ++ [(plugin, call)] }
  change (∃ resource w', _ ∧ _ ∧ ((((M.plugin plugin call).attempt >>= _) : M Unit).run
    World.sem ts w).2.rdb = _) ∨ (_ ∧ ((((M.plugin plugin call).attempt >>= _) : M Unit).run
      World.sem ts w).2.rdb = _)
  rw [run_plugin]
  cases hans : (ts 0).ans (.plugin plugin call) with
  | error e =>
    refine .inr ⟨fun resource h => ?_, hreject ..⟩
    rw [((hcreated resource).1 h).1] at hans
    cases hans
  | ok resource =>
  have hrun : ((persistCreated ctx m resource).run World.sem (fun n => ts (n + 1)) w').2.rdb =
      if outputTooLarge resource.outputs then w'.rdb else _ :=
    run_persistCreated resource _ w'
  cases hlarge : outputTooLarge resource.outputs with
  | true =>
    refine .inr ⟨fun resource' h => ?_, ?_⟩
    · obtain ⟨hans', hlarge'⟩ := (hcreated resource').1 h
      rw [hans] at hans'
      cases hans'
      rw [hlarge] at hlarge'
      cases hlarge'
    · rw [hlarge, if_pos rfl] at hrun
      exact hrun
  | false =>
  rw [hlarge, if_neg Bool.false_ne_true] at hrun
  exact .inl ⟨resource, w', (hcreated resource).2 ⟨hans, hlarge⟩, rfl, hrun⟩

/-- The same for the whole of a create. -/
theorem afterCreate_cases (ts : ℕ → World.sem.Turn)
    (hnone : (resourceClient ctx m.resource).stored w = none) :
    (∃ resource w', ReachesWrites ctx m ts resource ∧ w'.rdb = w.rdb ∧
      (afterCreate ctx m ts w).rdb =
        ((persistResourceState (resourceClient ctx m.resource) resource.inputs (creator m)
          resource.outputs (some resource.markers) (dependenciesFromRefs m.dependencies)
          m.sourceTrace).run World.sem (fun n => ts (n + 2)) w').2.rdb) ∨
    ((∀ resource, ¬ReachesWrites ctx m ts resource) ∧ (afterCreate ctx m ts w).rdb = w.rdb) := by
  rw [afterCreate, handleCreate, run_get_missing hnone]
  cases hreply : (ts 0).ans (.rdb (resourceClient ctx m.resource).region
    (.getResource (resourceClient ctx m.resource).key)) with
  | error applied msg =>
    refine .inr ⟨fun resource h => ?_, ?_⟩
    · have hdone := h.1
      rw [hreply] at hdone
      cases hdone
    · exact run_of_issues act_rdb_of_quiet (reject_quiet ..) _ w
  | done cut =>
    have hdone : ((ts 0).ans (.rdb (resourceClient ctx m.resource).region
        (.getResource (resourceClient ctx m.resource).key))).isDone := by rw [hreply]; rfl
    rcases run_createMissing ctx m (fun n => ts (n + 1)) w with
      ⟨resource, w', hcreated, hw', hrun⟩ | ⟨hcreated, hrun⟩
    · exact .inl ⟨resource, w', ⟨hdone, hcreated⟩, hw', hrun⟩
    · exact .inr ⟨fun resource h => hcreated resource h.2, hrun⟩

theorem ReachesWrites.unique {a b : Resource} (ha : ReachesWrites ctx m ts a)
    (hb : ReachesWrites ctx m ts b) : a = b := by
  obtain ⟨-, plugin, inputs, hplugin, -, hjson, hans, -⟩ := ha
  obtain ⟨-, plugin', inputs', hplugin', -, hjson', hans', -⟩ := hb
  rw [hplugin] at hplugin'
  cases hplugin'
  rw [hjson] at hjson'
  cases hjson'
  rw [hans] at hans'
  cases hans'
  rfl

theorem stored_of_not_reachesWrites (hnone : (resourceClient ctx m.resource).stored w = none)
    (h : ∀ resource, ¬ReachesWrites ctx m ts resource) :
    (resourceClient ctx m.resource).stored (afterCreate ctx m ts w) = none := by
  rcases afterCreate_cases ts hnone with ⟨resource, w', hreach, -⟩ | ⟨-, hrdb⟩
  · exact absurd hreach (h resource)
  · exact (stored_congr _ hrdb).trans hnone

theorem stored_of_reachesWrites (hnone : (resourceClient ctx m.resource).stored w = none)
    {resource : Resource} (h : ReachesWrites ctx m ts resource) :
    (¬InputsWritten (resourceClient ctx m.resource) (creator m) resource (fun n => ts (n + 2)) →
      (resourceClient ctx m.resource).stored (afterCreate ctx m ts w) = none) ∧
    (InputsWritten (resourceClient ctx m.resource) (creator m) resource (fun n => ts (n + 2)) →
      LeftBy (resourceClient ctx m.resource) (creator m)
        (OutputsWritten (resourceClient ctx m.resource) (creator m) resource
          (dependenciesFromRefs m.dependencies) fun n => ts (n + 2))
        ((resourceClient ctx m.resource).stored (afterCreate ctx m ts w))) := by
  rcases afterCreate_cases ts hnone with ⟨resource', w', hreach, hw', hrdb⟩ | ⟨hnot, -⟩
  · cases h.unique hreach
    rw [stored_congr _ hrdb]
    exact persist_leaves ((stored_congr _ hw').trans hnone)
  · exact absurd h (hnot resource)

end Create

/-! ## Which failed creates are harmless -/

/-- A message that brings a resource about, back or away. -/
def Repairs (resource : ResourceRef) : Message → Prop
  | .create m => m.resource = resource
  | .restore m => m.resource = resource
  | .destroy m => m.resource = resource
  | _ => False

/-- Further creates, restores and destroys of the resource, with the right answers, lead to no row
or to a complete one. -/
def Recoverable (ctx : WorkerContext) (resource : ResourceRef) (w : World) : Prop :=
  ∃ ds : List Delivery, (∀ d ∈ ds, Repairs resource d.message) ∧
    ∀ row, (resourceClient ctx resource).stored (ds.foldl (deliver ctx) w) = some row → Complete row

/-- When the deployment engine takes the row into the context of an evaluation, the outputs there
are the outputs stored in the row. -/
def SeenAsStored (ctx : WorkerContext) (resource : ResourceRef) (w : World) : Prop :=
  ∀ row r, (resourceClient ctx resource).stored w = some row →
    Rdb.mapResourceRow ctx.region (resourceClient ctx resource).key row = .ok r →
      ∀ (v : De.View) (ownerQid : String),
        ((v.absorbResource ownerQid r).ctx.resources r.id).map Resource.outputs = r.outputs

section Harmless

variable {ctx : WorkerContext} {m : CreateMessage} {w : World} {ts : ℕ → World.sem.Turn}

theorem outputs_absorbResource (v : De.View) (ownerQid : String) (r : Rdb.Resource) :
    ((v.absorbResource ownerQid r).ctx.resources r.id).map Resource.outputs =
      some (r.outputs.getD SclData.empty) := by
  change (Function.update v.ctx.resources r.id (some (De.toSclc r)) r.id).map _ = _
  rw [Function.update_self]
  rfl

theorem not_recoverable_of_stopsHalfway
    (hnone : (resourceClient ctx m.resource).stored w = none) (h : StopsHalfway ctx m ts) :
    ¬Recoverable ctx m.resource (afterCreate ctx m ts w) := by
  obtain ⟨resource, hreach, hinputs, houtputs⟩ := h
  obtain ⟨row, hrow, ⟨hw, -⟩ | ⟨-, hbroken, hmarkers⟩⟩ :=
    (stored_of_reachesWrites hnone hreach).2 hinputs
  · exact absurd hw houtputs
  rintro ⟨ds, -, hds⟩
  obtain ⟨-, -, -, hcomplete⟩ := hds row (stuck hrow hbroken ds)
  rw [hmarkers] at hcomplete
  cases hcomplete

theorem harmless_of_stored_none {resource : ResourceRef}
    (h : (resourceClient ctx resource).stored w = none) :
    Recoverable ctx resource w ∧ SeenAsStored ctx resource w := by
  refine ⟨⟨[], fun _ h => absurd h List.not_mem_nil, fun row hrow => ?_⟩, fun row r hrow => ?_⟩
  · rw [List.foldl_nil, h] at hrow
    cases hrow
  · rw [h] at hrow
    cases hrow

theorem recoverable_of_destroyable {plugin : ModuleId} {row : Rdb.Row}
    (hplugin : resolvePlugin m.resource.resourceId.typ ctx.plugins = some plugin)
    (hrow : (resourceClient ctx m.resource).stored w = some row)
    (h : Destroyable (resourceClient ctx m.resource) (creator m) row) :
    Recoverable ctx m.resource w := by
  let d : DestroyMessage := ⟨m.resource, m.deploymentId, m.homeRegion⟩
  obtain ⟨turns, hgone⟩ := exists_destroy (d := d) hplugin hrow h
  refine ⟨[⟨.destroy d, turns⟩], ?_, fun row' hrow' => ?_⟩
  · rintro _ (_ | ⟨_, ⟨⟩⟩)
    rfl
  rw [List.foldl_cons, List.foldl_nil] at hrow'
  rw [hgone] at hrow'
  cases hrow'

theorem seenAsStored_of_destroyable {resource : ResourceRef} {owner : String} {row : Rdb.Row}
    (hrow : (resourceClient ctx resource).stored w = some row)
    (h : Destroyable (resourceClient ctx resource) owner row) : SeenAsStored ctx resource w := by
  intro row' r hrow' hr v ownerQid
  rw [hrow] at hrow'
  cases hrow'
  obtain ⟨r', inputs, outputs, hr', -, houtputs⟩ := h.decodes
  have hrr' : r' = r := by
    have := hr'.symm.trans hr
    cases this
    rfl
  rw [outputs_absorbResource, ← hrr', houtputs]
  rfl

/-- **A create is harmless exactly when it does not stop half-way.**  The resource it was to
create had no row; whatever its statements are answered, what it leaves can be brought to a
complete row or to no row, and is seen by evaluations as it is, if and only if the create does not
stop between the write of the inputs and the write of the outputs. -/
theorem create_harmless_iff (ctx : WorkerContext) (m : CreateMessage) (w : World)
    (ts : ℕ → World.sem.Turn) (hnone : (resourceClient ctx m.resource).stored w = none) :
    (Recoverable ctx m.resource (afterCreate ctx m ts w) ∧
      SeenAsStored ctx m.resource (afterCreate ctx m ts w)) ↔ ¬StopsHalfway ctx m ts := by
  refine ⟨fun h hstop => not_recoverable_of_stopsHalfway hnone hstop h.1, fun hstop => ?_⟩
  by_cases hreach : ∃ resource, ReachesWrites ctx m ts resource
  · obtain ⟨resource, hreach⟩ := hreach
    obtain ⟨hnothing, hleft⟩ := stored_of_reachesWrites hnone hreach
    by_cases hinputs : InputsWritten (resourceClient ctx m.resource) (creator m) resource
        (fun n => ts (n + 2))
    · obtain ⟨row, hrow, ⟨-, hdestroy⟩ | ⟨hnot, -⟩⟩ := hleft hinputs
      · obtain ⟨-, plugin, -, hplugin, -⟩ := hreach
        exact ⟨recoverable_of_destroyable hplugin hrow hdestroy,
          seenAsStored_of_destroyable hrow hdestroy⟩
      · exact absurd ⟨resource, hreach, hinputs, hnot⟩ hstop
    · exact harmless_of_stored_none (hnothing hinputs)
  · exact harmless_of_stored_none
      (stored_of_not_reachesWrites hnone fun resource h => hreach ⟨resource, h⟩)

end Harmless

end Skyr.Rte

/-! ## An outage in the middle

A create that works, up to the write of the outputs. -/

namespace Skyr.Rte

local instance : SclData := .nat

/-- A transition engine with one plugin. -/
def randomContext : WorkerContext := ⟨⟨"eu"⟩, [⟨["Std"], ["Random"]⟩]⟩

def createMessage (dependencies : List ResourceRef) : CreateMessage where
  resource := ⟨⟨⟨⟨"acme"⟩, ⟨"shop"⟩⟩, ⟨"main"⟩⟩, ⟨"eu"⟩, "Std/Random.Int", "lucky"⟩
  deploymentId := ⟨⟨1⟩, ⟨1⟩⟩
  homeRegion := ⟨"eu"⟩
  inputs := (1 : ℕ)
  dependencies := dependencies
  sourceTrace := []

/-- The create of a number for a deployment. -/
def randomMessage : CreateMessage := createMessage []

/-- The same with a dependency, whose name does not read back. -/
def oddMessage : CreateMessage :=
  createMessage [⟨⟨⟨⟨"acme"⟩, ⟨"shop"⟩⟩, ⟨"main"⟩⟩, ⟨"eu"⟩, "Std/Random.Int", "a::b"⟩]

/-- Everything works and the plugin creates what it is asked for, but the statement that writes the
outputs fails. -/
def outage (fails : Bool) : World.sem.Turn where
  ans
    | .rdb _ (.setResourceOutput _ _) => if fails then .error false "timed out" else .done none
    | .plugin _ (.createResource _ _ inputs) => .ok ⟨inputs, (7 : ℕ), [], []⟩
    | o => calm.ans o
  flip := true

theorem outage_reachesWrites (dependencies : List ResourceRef) (fails : Bool) :
    ReachesWrites randomContext (createMessage dependencies) (fun _ => outage fails)
      ⟨(1 : ℕ), (7 : ℕ), [], []⟩ := by
  have hplugin : resolvePlugin "Std/Random.Int" randomContext.plugins =
      some ⟨["Std"], ["Random"]⟩ := by decide +kernel
  exact ⟨rfl, ⟨["Std"], ["Random"]⟩, (1 : ℕ), hplugin, rfl, rfl, rfl, rfl⟩

theorem outage_stopsHalfway : StopsHalfway randomContext randomMessage fun _ => outage true := by
  refine ⟨_, outage_reachesWrites [] true, ⟨(1 : ℕ), rfl, rfl⟩, ?_⟩
  rintro ⟨-, -, -, -, -, outputs, -, -, happlied⟩
  cases happlied

/-- Everything works, and the create stops all the same. -/
theorem odd_stopsHalfway : StopsHalfway randomContext oddMessage fun _ => outage false := by
  refine ⟨_, outage_reachesWrites _ false, ⟨(1 : ℕ), rfl, rfl⟩, ?_⟩
  rintro ⟨-, -, ⟨ids, hids⟩, -⟩
  have hodd : (Rdb.decodeDependencies (Rdb.encodeDependencies
      (dependenciesFromRefs oddMessage.dependencies))).toOption = none := by decide +kernel
  rw [hids] at hodd
  cases hodd

theorem outage_stored :
    (resourceClient randomContext randomMessage.resource).stored
      (afterCreate randomContext randomMessage (fun _ => outage true) .empty) =
        some ⟨some (1 : ℕ), none, some [], none, some (creator randomMessage), none⟩ := by
  rfl

theorem create_stops_halfway :
    ¬Recoverable randomContext randomMessage.resource
      (afterCreate randomContext randomMessage (fun _ => outage true) .empty) ∧
    ¬SeenAsStored randomContext randomMessage.resource
      (afterCreate randomContext randomMessage (fun _ => outage true) .empty) ∧
    ¬Recoverable randomContext oddMessage.resource
      (afterCreate randomContext oddMessage (fun _ => outage false) .empty) := by
  refine ⟨not_recoverable_of_stopsHalfway rfl outage_stopsHalfway, fun h => ?_,
    not_recoverable_of_stopsHalfway rfl odd_stopsHalfway⟩
  have hseen := h _ _ outage_stored rfl (De.View.initial ⟨⟨⟨⟨⟨""⟩, ⟨""⟩⟩, ⟨""⟩⟩, ⟨⟨0⟩, ⟨0⟩⟩⟩, ⟨""⟩,
    none, none, false, none⟩) ""
  rw [outputs_absorbResource] at hseen
  cases hseen

theorem outage_over : ¬StopsHalfway randomContext randomMessage fun _ => outage false := by
  rintro ⟨resource, hreach, -, hnot⟩
  cases hreach.unique (outage_reachesWrites [] false)
  exact hnot ⟨⟨(1 : ℕ), rfl, ⟨(1 : ℕ), rfl⟩, rfl⟩, rfl, ⟨[], rfl⟩, rfl, rfl, (7 : ℕ), rfl,
    ⟨(7 : ℕ), rfl⟩, rfl⟩

theorem create_goes_through :
    (resourceClient randomContext randomMessage.resource).stored .empty = none ∧
      Recoverable randomContext randomMessage.resource
        (afterCreate randomContext randomMessage (fun _ => outage false) .empty) ∧
      SeenAsStored randomContext randomMessage.resource
        (afterCreate randomContext randomMessage (fun _ => outage false) .empty) :=
  ⟨rfl, (create_harmless_iff randomContext randomMessage .empty (fun _ => outage false) rfl).2
    outage_over⟩

end Skyr.Rte
