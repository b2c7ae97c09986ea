import Skyr.World

/-!
# The client of the resource database

Each setter is two statements: the `UPDATE` of its columns, then a read of the whole row.  The
setter fails when either does, so a setter that failed may well have written.
-/

namespace Skyr.Rdb

open Prog

variable [SclData]

/-! ## One resource -/

/-- A resource in the database of a region. -/
@[ext] structure ResourceClient where
  region : RegionId
  key : Key
deriving DecidableEq

namespace ResourceClient

variable (c : ResourceClient)

def get : M (Option Resource) := do
  let row : Option Row ← M.rdb c.region (.getResource c.key)
  match row with
  | none => return none
  | some row => some <$> M.ofExcept (mapResourceRow c.region c.key row)

/-- The read at the end of every setter. -/
def readBack : M Resource := do
  match ← c.get with
  | some resource => return resource
  | none => .fail "resource missing after successful write"

def setInput (inputs : Record) (owner : String) : M Resource := do
  let inputsJson ← M.ofExcept (SclData.toJson inputs)
  let _ ← M.rdb c.region (.setResourceInput c.key inputsJson owner)
  c.readBack

def setOutput (outputs : Record) : M Resource := do
  let outputsJson ← M.ofExcept (SclData.toJson outputs)
  let _ ← M.rdb c.region (.setResourceOutput c.key outputsJson)
  c.readBack

def setDependencies (dependencies : List ResourceId) : M Resource := do
  let _ ← M.rdb c.region (.setResourceDependencies c.key dependencies)
  c.readBack

def setMarkers (markers : List Marker) : M Resource := do
  let _ ← M.rdb c.region (.setResourceMarkers c.key markers)
  c.readBack

def setSourceTrace (sourceTrace : SourceTrace) : M Resource := do
  let _ ← M.rdb c.region (.setResourceSourceTrace c.key sourceTrace)
  c.readBack

def delete : M Unit := do
  let _ ← M.rdb c.region (.deleteResource c.key)

/-- The stored row of the resource. -/
def stored (w : World) : Option Row := (w.rdb c.region).row c.key

theorem stored_congr {w w' : World} (h : w.rdb = w'.rdb) : c.stored w = c.stored w' := by
  rw [stored, stored, h]

theorem stored_afterRdb (region : RegionId) (o : Op) (w : World) :
    c.stored (w.afterRdb region o) =
      if region = c.region ∧ o.target = some c.key then o.effect (c.stored w) else c.stored w := by
  rw [stored, World.afterRdb]
  by_cases hr : region = c.region
  · subst hr
    rw [World.rdb_setRdb_self, Store.row_exec]
    simp only [true_and]
    rfl
  · rw [World.rdb_setRdb_ne w (Ne.symm hr), if_neg fun h => hr h.1]
    rfl

section Rules

variable {c} {P : World → Skyr.Op → Prop} {w : World}

/-- A successful read returns what is stored, and no read changes anything. -/
theorem always_get {Q : Except String (Option Resource) → World → Prop}
    (hP : P w (.rdb c.region (.getResource c.key)))
    (hnone : c.stored w = none → Q (.ok none) w)
    (hsome : ∀ row r, c.stored w = some row → mapResourceRow c.region c.key row = .ok r →
      Q (.ok (some r)) w)
    (herr : ∀ e, Q (.error e) w) : Always P c.get Q w := by
  have hw : w.afterRdb c.region (.getResource c.key) = w := w.setRdb_self c.region
  refine always_bind.2 (always_rdb hP (fun cut => ?_) fun e => ⟨herr e, ?_⟩)
  · rw [hw]
    change Always P (match c.stored w with
      | none => pure none
      | some row => some <$> M.ofExcept (mapResourceRow c.region c.key row)) Q w
    cases hrow : c.stored w with
    | none => exact hnone hrow
    | some row =>
    change Always P (some <$> M.ofExcept (mapResourceRow c.region c.key row)) Q w
    rw [map_eq_pure_bind]
    refine always_bind.2 (always_ofExcept.2 ?_)
    cases hr : mapResourceRow c.region c.key row with
    | ok r => exact hsome row r hrow hr
    | error e => exact herr e
  · rw [hw]
    exact herr e

/-- A setter fails with or without having written; when it succeeds it has. -/
theorem always_write {o : Op} {Q : Except String Resource → World → Prop}
    (hP : P w (.rdb c.region o))
    (hP' : P (w.afterRdb c.region o) (.rdb c.region (.getResource c.key)))
    (hok : ∀ r, Q (.ok r) (w.afterRdb c.region o))
    (herr : ∀ e, Q (.error e) w ∧ Q (.error e) (w.afterRdb c.region o)) :
    Always P (M.rdb c.region o >>= fun _ => c.readBack) Q w := by
  refine always_bind.2 (always_rdb hP (fun cut => ?_) herr)
  refine always_bind.2 (always_get hP' (fun _ => (herr _).2) (fun _ r _ _ => hok r) fun e => ?_)
  exact (herr e).2

theorem issues_get {A : Skyr.Op → Prop} (h : A (.rdb c.region (.getResource c.key))) :
    c.get.issues A := by
  refine issues_bind (issues_rdb h) fun row => ?_
  cases row with
  | none => trivial
  | some row => exact issues_map (issues_ofExcept _)

theorem issues_write {A : Skyr.Op → Prop} {o : Op} (ho : A (.rdb c.region o))
    (hread : A (.rdb c.region (.getResource c.key))) :
    (M.rdb c.region o >>= fun _ => c.readBack).issues A := by
  refine issues_bind (issues_rdb ho) fun _ => issues_bind (issues_get hread) fun r => ?_
  cases r <;> trivial

end Rules

section Run

variable {α : Type} {c} {o : Op} {f : Resource → M α} {ts : ℕ → World.sem.Turn} {w : World}

/-- A setter goes through: both of its statements are answered, and the row decodes. -/
def Passes (c : ResourceClient) (o : Op) (ts : ℕ → World.sem.Turn) (w : World) : Prop :=
  ((ts 0).ans (.rdb c.region o)).isDone ∧
  ((ts 1).ans (.rdb c.region (.getResource c.key))).isDone ∧
  ∃ row r, c.stored (w.afterRdb c.region o) = some row ∧ mapResourceRow c.region c.key row = .ok r

/-- The read at the end of a setter. -/
theorem run_readBack :
    (c.readBack >>= f).run World.sem ts w =
      match (ts 0).ans (.rdb c.region (.getResource c.key)) with
      | .error _ msg => (.error msg, w)
      | .done _ =>
        match c.stored w with
        | none => (.error "resource missing after successful write", w)
        | some row =>
          match mapResourceRow c.region c.key row with
          | .error e => (.error e, w)
          | .ok r => (f r).run World.sem (fun n => ts (n + 1)) w := by
  have hw : w.afterRdb c.region (.getResource c.key) = w := w.setRdb_self c.region
  rw [readBack, get, bind_assoc, bind_assoc, run_rdb, hw]
  cases (ts 0).ans (.rdb c.region (.getResource c.key)) with
  | error applied msg => simp
  | done cut =>
  change (((match c.stored w with
    | none => pure none
    | some row => some <$> M.ofExcept (mapResourceRow c.region c.key row)) : M _) >>= _).run
      World.sem _ w = _
  cases c.stored w with
  | none => rfl
  | some row =>
  simp only [map_eq_pure_bind]
  cases mapResourceRow c.region c.key row with
  | error | ok => rfl

theorem run_write_of_passes (h : Passes c o ts w) :
    ∃ r, ((M.rdb c.region o >>= fun _ => c.readBack) >>= f).run World.sem ts w =
      (f r).run World.sem (fun n => ts (n + 2)) (w.afterRdb c.region o) := by
  obtain ⟨h0, h1, row, r, hrow, hr⟩ := h
  refine ⟨r, ?_⟩
  rw [bind_assoc, run_rdb]
  cases hreply : (ts 0).ans (.rdb c.region o) with
  | error applied msg => rw [hreply] at h0; cases h0
  | done cut =>
  simp only [run_readBack, hrow, hr]
  cases hreply' : (ts 1).ans (.rdb c.region (.getResource c.key)) with
  | error applied msg => rw [hreply'] at h1; cases h1
  | done cut' => rfl

theorem run_write_of_not_passes (h : ¬Passes c o ts w) :
    (((M.rdb c.region o >>= fun _ => c.readBack) >>= f).run World.sem ts w).2 =
      if ((ts 0).ans (.rdb c.region o)).applied then w.afterRdb c.region o else w := by
  rw [bind_assoc, run_rdb]
  cases hreply : (ts 0).ans (.rdb c.region o) with
  | error applied msg => cases applied <;> rfl
  | done cut =>
  simp only [run_readBack, Nat.zero_add, Reply.applied, if_true]
  cases hreply' : (ts 1).ans (.rdb c.region (.getResource c.key)) with
  | error applied msg => rfl
  | done cut' =>
  simp only
  cases hrow : c.stored (w.afterRdb c.region o) with
  | none => rfl
  | some row =>
  simp only
  cases hr : mapResourceRow c.region c.key row with
  | error e => rfl
  | ok r => exact absurd ⟨by rw [hreply]; rfl, by rw [hreply']; rfl, row, r, hrow, hr⟩ h

end Run

end ResourceClient

/-! ## One namespace -/

/-- The resources of an environment in the database of a region. -/
structure NamespaceClient where
  region : RegionId
  ns : String

/-- Decode a stream of rows; it breaks at the first row that does not decode. -/
def decodeRows (region : RegionId) : List (Key × Row) → Option String → Rows Resource
  | [], error => ⟨[], error⟩
  | (key, row) :: rest, error =>
    match mapResourceRow region key row with
    | .ok resource => ⟨resource :: (decodeRows region rest error).items,
        (decodeRows region rest error).error⟩
    | .error e => ⟨[], some e⟩

namespace NamespaceClient

variable (c : NamespaceClient)

def listResources : M (Rows Resource) := do
  let rows : Rows (Key × Row) ← M.rdb c.region (.listResources c.ns)
  return decodeRows c.region rows.items rows.error

def listResourcesByOwner (owner : String) : M (Rows Resource) := do
  let rows : Rows (Key × Row) ← M.rdb c.region (.listResourcesByOwner c.ns owner)
  return decodeRows c.region rows.items rows.error

def listResourceRegions : M (List ResourceRegion) := do
  let rows : Rows ResourceRegion ← M.rdb c.region (.listResourceRegions c.ns)
  M.ofRows rows

/-- All resources of the namespace; any error on the way is an error. -/
def collectResources : M (List Resource) := do M.ofRows (← c.listResources)

/-- The resources a complete listing would return, unless a row does not decode. -/
def decoded (w : World) : Option (List Resource) :=
  match (decodeRows c.region ((w.rdb c.region).list c.ns) none).error with
  | none => some (decodeRows c.region ((w.rdb c.region).list c.ns) none).items
  | some _ => none

end NamespaceClient

/-! ### What a listing returns -/

theorem error_decodeRows_some (region : RegionId) (l : List (Key × Row)) (msg : String) :
    (decodeRows region l (some msg)).error ≠ none := by
  induction l with
  | nil => exact Option.some_ne_none msg
  | cons p l ih =>
  rw [decodeRows]
  cases mapResourceRow region p.1 p.2 with
  | ok r => exact ih
  | error e => exact Option.some_ne_none e

theorem mem_items_decodeRows {region : RegionId} {l : List (Key × Row)}
    (h : (decodeRows region l none).error = none) (r : Resource) :
    r ∈ (decodeRows region l none).items ↔
      ∃ key row, (key, row) ∈ l ∧ mapResourceRow region key row = .ok r := by
  induction l with
  | nil => simp [decodeRows]
  | cons p l ih =>
  rw [decodeRows] at h ⊢
  cases hp : mapResourceRow region p.1 p.2 with
  | error e =>
    rw [hp] at h
    exact absurd h (Option.some_ne_none e)
  | ok r' =>
  rw [hp] at h
  simp only [List.mem_cons, ih h]
  constructor
  · rintro (rfl | ⟨key, row, hmem, hr⟩)
    · exact ⟨p.1, p.2, .inl rfl, hp⟩
    · exact ⟨key, row, .inr hmem, hr⟩
  rintro ⟨key, row, heq | hmem, hr⟩
  · subst heq
    rw [hp] at hr
    cases hr
    exact .inl rfl
  · exact .inr ⟨key, row, hmem, hr⟩

theorem decodes_of_mem {region : RegionId} {l : List (Key × Row)} {key : Key} {row : Row}
    (h : (decodeRows region l none).error = none) (hmem : (key, row) ∈ l) :
    ∃ r, mapResourceRow region key row = .ok r := by
  induction l with
  | nil => exact absurd hmem List.not_mem_nil
  | cons p l ih =>
  rw [decodeRows] at h
  cases hp : mapResourceRow region p.1 p.2 with
  | error e =>
    rw [hp] at h
    exact absurd h (Option.some_ne_none e)
  | ok r' =>
  rw [hp] at h
  rcases List.mem_cons.1 hmem with rfl | hmem
  · exact ⟨r', hp⟩
  · exact ih h hmem

namespace NamespaceClient

variable {c : NamespaceClient} {w : World} {all : List Resource}

theorem decoded_eq_some (h : c.decoded w = some all) :
    (decodeRows c.region ((w.rdb c.region).list c.ns) none).error = none ∧
      (decodeRows c.region ((w.rdb c.region).list c.ns) none).items = all := by
  rw [decoded] at h
  split at h
  · next herr => exact ⟨herr, Option.some.inj h⟩
  · cases h

/-- A listing returns the rows of the namespace in its region. -/
theorem mem_decoded (h : c.decoded w = some all) (r : Resource) :
    r ∈ all ↔ ∃ key row, key.ns = c.ns ∧ (w.rdb c.region).row key = some row ∧
      mapResourceRow c.region key row = .ok r := by
  obtain ⟨herr, rfl⟩ := decoded_eq_some h
  rw [mem_items_decodeRows herr]
  simp only [Store.mem_list, and_assoc]

theorem decodes_of_stored (h : c.decoded w = some all) {key : Key} {row : Row}
    (hns : key.ns = c.ns) (hrow : (w.rdb c.region).row key = some row) :
    ∃ r ∈ all, mapResourceRow c.region key row = .ok r := by
  obtain ⟨herr, -⟩ := decoded_eq_some h
  obtain ⟨r, hr⟩ := decodes_of_mem herr (Store.mem_list.2 ⟨hns, hrow⟩)
  exact ⟨r, (mem_decoded h r).2 ⟨key, row, hns, hrow, hr⟩, hr⟩

theorem decoded_congr {w' : World} (h : w'.rdb c.region = w.rdb c.region) :
    c.decoded w' = c.decoded w := by
  rw [decoded, decoded, h]

variable {P : World → Skyr.Op → Prop} {Q : Except String (List Resource) → World → Prop}

/-- Collecting all resources ends in an error or in what a complete listing returns. -/
theorem always_collectResources (hP : P w (.rdb c.region (.listResources c.ns)))
    (hok : ∀ all, c.decoded w = some all → Q (.ok all) w) (herr : ∀ e, Q (.error e) w) :
    Always P c.collectResources Q w := by
  have hw : w.afterRdb c.region (.listResources c.ns) = w := w.setRdb_self c.region
  refine always_bind.2 (always_bind.2 (always_rdb hP (fun cut => ?_) fun e => ?_))
  · rw [hw]
    refine always_ofRows (fun hnone => ?_) herr
    cases cut with
    | none =>
      refine hok _ ?_
      have h : (decodeRows c.region ((w.rdb c.region).list c.ns) none).error = none := hnone
      rw [decoded, h]
      rfl
    | some cut => exact absurd hnone (error_decodeRows_some _ _ _)
  · rw [hw]
    exact ⟨herr e, herr e⟩

/-- In cooperative surroundings the listing is complete. -/
theorem surely_collectResources (h : c.decoded w = some all) :
    Surely P c.collectResources Q w ↔
      P w (.rdb c.region (.listResources c.ns)) ∧ Q (.ok all) w := by
  have hw : w.afterRdb c.region (.listResources c.ns) = w := w.setRdb_self c.region
  obtain ⟨herr, hitems⟩ := decoded_eq_some h
  rw [collectResources, listResources, Surely, always_bind, always_bind]
  refine surely_rdb.trans (and_congr_right fun _ => ?_)
  rw [hw, ← hitems]
  change Surely P (M.ofRows (decodeRows c.region ((w.rdb c.region).list c.ns) none)) Q w ↔ _
  rw [M.ofRows, herr]
  rfl

end NamespaceClient

end Skyr.Rdb
