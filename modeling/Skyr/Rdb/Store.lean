import Mathlib.Data.List.AList
import Skyr.Sclc.EvalCtx

/-!
# The resource database

One resource database per region.  Its main table `rdb.resources` is keyed by namespace — the text
of an environment id — resource type and name.  All other columns may be absent: a row comes into
existence with the first `UPDATE` of any one column, and the columns of a resource are written by
separate statements.  A row that has its inputs and its owner but no outputs is therefore a
perfectly ordinary value here, and `Row` has one optional field per column to say so.

Records are stored as JSON text, and so are the dependencies.  Reading a row decodes them, under a
size limit, and can fail.

The second table, `rdb.resource_regions`, lives in the home region only and lists the region of
every resource of an environment.  The engines modelled here only read it.
-/

namespace Skyr

/-- What a query streams back: some rows, and the error the stream broke on, if it did. -/
structure Rows (α : Type) where
  items : List α
  error : Option String

/-- All of `items`, unless the stream is cut short. -/
def Rows.upTo {α : Type} (cut : Option (ℕ × String)) (items : List α) : Rows α :=
  match cut with
  | none => ⟨items, none⟩
  | some (n, msg) => ⟨items.take n, some msg⟩

namespace Rdb

variable [SclData]

/-! ## Tables -/

/-- The primary key of `rdb.resources`. -/
structure Key where
  ns : String
  resourceType : String
  name : String
deriving DecidableEq

/-- The remaining columns of `rdb.resources`. -/
structure Row where
  inputs : Option Json
  outputs : Option Json
  dependencies : Option (List ResourceId)
  markers : Option (List Marker)
  owner : Option String
  sourceTrace : Option SourceTrace

/-- The row an `UPDATE` of a missing key starts from. -/
def Row.blank : Row := ⟨none, none, none, none, none, none⟩

/-- A row of the routing index. -/
structure ResourceRegion where
  resourceType : String
  name : String
  region : RegionId
deriving DecidableEq

/-- The resource database of one region. -/
structure Store where
  resources : AList fun _ : Key => Row
  resourceRegions : List (String × ResourceRegion)

/-- A database without rows. -/
def Store.empty : Store := ⟨∅, []⟩

/-! ## Decoded rows -/

/-- A row as the client hands it out.  The region is the one of the database it was read from. -/
structure Resource where
  ns : String
  region : RegionId
  resourceType : String
  name : String
  inputs : Option Record
  outputs : Option Record
  dependencies : List ResourceId
  markers : List Marker
  owner : Option String
  sourceTrace : SourceTrace

/-- The id of a stored resource. -/
def Resource.id (r : Resource) : ResourceId := ⟨r.region, r.resourceType, r.name⟩

def maxJsonSize : ℕ := 16 * 1024 * 1024

/-- Read a record column. -/
def decodeRecord : Option Json → Except String (Option Record)
  | none => .ok none
  | some text =>
    if SclData.jsonSize text > maxJsonSize then
      .error s!"JSON payload too large ({SclData.jsonSize text} bytes, limit is {maxJsonSize})"
    else (SclData.fromJson text).map some

/-! The dependencies are a JSON array of texts, which are printed when they are written and parsed
when they are read.  What the other two columns of this kind hold, markers and source frames, reads
back as it is. -/

section Dependencies

omit [SclData]

/-- What the column of the dependencies may hold. -/
inductive Column
  | null
  | blank
  | strings (items : List String)
  /-- Any other text, with its length. -/
  | other (size : ℕ)

/-- The length of a character in a JSON text. -/
def jsonCharSize (c : Char) : ℕ :=
  if c ∈ ['"', '\\', '\n', '\r', '\t', Char.ofNat 8, Char.ofNat 12] then 2
  else if c.toNat < 32 then 6
  else c.utf8Size

/-- The length of a text in quotes. -/
def jsonStringSize (s : String) : ℕ := 2 + (s.toList.map jsonCharSize).sum

/-- The length of what a column holds: an array has brackets and commas. -/
def Column.size : Column → ℕ
  | null | blank => 0
  | strings items => 2 + (items.map jsonStringSize).sum + (items.length - 1)
  | other size => size

def encodeDependencies (ids : List ResourceId) : Column := .strings (ids.map ResourceId.toString)

/-- An element of the array. -/
def decodeId (s : String) : Except String ResourceId :=
  match ResourceId.parse s.toList with
  | .ok id => .ok id
  | .error _ => .error s!"failed to encode/decode json: invalid resource ID: {s}"

def decodeDependencies (column : Column) : Except String (List ResourceId) :=
  if column.size > maxJsonSize then
    .error s!"JSON payload too large ({column.size} bytes, limit is {maxJsonSize})"
  else
    match column with
    | .null | .blank => .ok []
    | .strings items => items.mapM decodeId
    | .other _ => .error "failed to encode/decode json"

end Dependencies

/-- The column of the dependencies of a row. -/
def Row.column (row : Row) : Column := row.dependencies.elim .null encodeDependencies

/-- The dependencies of a row, as they are read. -/
def Row.readDependencies (row : Row) : List ResourceId :=
  (decodeDependencies row.column).toOption.getD []

/-- Decode a row of the database of `region`. -/
def mapResourceRow (region : RegionId) (key : Key) (row : Row) : Except String Resource :=
  match decodeRecord row.inputs, decodeRecord row.outputs, decodeDependencies row.column with
  | .ok inputs, .ok outputs, .ok dependencies => .ok
    { ns := key.ns, region := region, resourceType := key.resourceType, name := key.name
      inputs := inputs, outputs := outputs
      dependencies := dependencies, markers := row.markers.getD []
      owner := row.owner, sourceTrace := row.sourceTrace.getD [] }
  | .error e, _, _ => .error e
  | _, .error e, _ => .error e
  | _, _, .error e => .error e

/-- The columns of a decoded row that are not records. -/
theorem mapResourceRow_eq_ok {region : RegionId} {key : Key} {row : Row} {r : Resource}
    (h : mapResourceRow region key row = .ok r) :
    r.id = ⟨region, key.resourceType, key.name⟩ ∧ r.owner = row.owner ∧
      r.markers = row.markers.getD [] ∧ r.dependencies = row.readDependencies := by
  rw [mapResourceRow] at h
  split at h
  · next hdeps =>
    cases h
    refine ⟨rfl, rfl, rfl, ?_⟩
    rw [Row.readDependencies, hdeps]
    rfl
  · cases h
  · cases h
  · cases h

theorem owner_mapResourceRow {region : RegionId} {key : Key} {row : Row} {r : Resource}
    (h : mapResourceRow region key row = .ok r) : r.owner = row.owner :=
  (mapResourceRow_eq_ok h).2.1

/-! ## Statements -/

/-- The statements of the client. -/
inductive Op
  | getResource (key : Key)
  | setResourceInput (key : Key) (inputs : Json) (owner : String)
  | setResourceOutput (key : Key) (outputs : Json)
  | setResourceDependencies (key : Key) (dependencies : List ResourceId)
  | setResourceMarkers (key : Key) (markers : List Marker)
  | setResourceSourceTrace (key : Key) (sourceTrace : SourceTrace)
  | deleteResource (key : Key)
  | listResources (ns : String)
  | listResourcesByOwner (ns : String) (owner : String)
  | listResourceRegions (ns : String)

/-- What a statement returns when it is executed. -/
@[reducible] def Op.Result : Op → Type
  | getResource _ => Option Row
  | listResources _ => Rows (Key × Row)
  | listResourcesByOwner _ _ => Rows (Key × Row)
  | listResourceRegions _ => Rows ResourceRegion
  | _ => Unit

namespace Store

/-- The row at a key. -/
def row (s : Store) (key : Key) : Option Row := s.resources.lookup key

/-- An `UPDATE`: it creates the row when there is none. -/
def update (s : Store) (key : Key) (f : Row → Row) : Store :=
  { s with resources := s.resources.insert key (f ((s.row key).getD .blank)) }

def delete (s : Store) (key : Key) : Store :=
  { s with resources := s.resources.erase key }

/-- The rows of a namespace. -/
def list (s : Store) (ns : String) : List (Key × Row) :=
  (s.resources.entries.map fun e => (e.1, e.2)).filter fun p => p.1.ns == ns

/-- Execute a statement.  `cut` says where the result stream breaks, if it does. -/
def exec (cut : Option (ℕ × String)) : (o : Op) → Store → o.Result × Store
  | .getResource key, s => (s.row key, s)
  | .setResourceInput key inputs owner, s =>
    ((), s.update key fun r => { r with inputs := some inputs, owner := some owner })
  | .setResourceOutput key outputs, s =>
    ((), s.update key fun r => { r with outputs := some outputs })
  | .setResourceDependencies key dependencies, s =>
    ((), s.update key fun r => { r with dependencies := some dependencies })
  | .setResourceMarkers key markers, s =>
    ((), s.update key fun r => { r with markers := some markers })
  | .setResourceSourceTrace key sourceTrace, s =>
    ((), s.update key fun r => { r with sourceTrace := some sourceTrace })
  | .deleteResource key, s => ((), s.delete key)
  | .listResources ns, s => (Rows.upTo cut (s.list ns), s)
  | .listResourcesByOwner ns owner, s =>
    (Rows.upTo cut ((s.list ns).filter fun p => p.2.owner == some owner), s)
  | .listResourceRegions ns, s =>
    (Rows.upTo cut ((s.resourceRegions.filter fun p => p.1 == ns).map Prod.snd), s)

variable (s : Store)

@[simp] theorem row_update_self (key : Key) (f : Row → Row) :
    (s.update key f).row key = some (f ((s.row key).getD .blank)) :=
  AList.lookup_insert _

@[simp] theorem row_update_ne {key key' : Key} (h : key' ≠ key) (f : Row → Row) :
    (s.update key f).row key' = s.row key' :=
  AList.lookup_insert_ne h

@[simp] theorem row_delete_self (key : Key) : (s.delete key).row key = none :=
  AList.lookup_erase _ _

@[simp] theorem row_delete_ne {key key' : Key} (h : key' ≠ key) :
    (s.delete key).row key' = s.row key' :=
  AList.lookup_erase_ne h

theorem mem_list {s : Store} {ns : String} {key : Key} {r : Row} :
    (key, r) ∈ s.list ns ↔ key.ns = ns ∧ s.row key = some r := by
  have hrow : s.row key = some r ↔ ⟨key, r⟩ ∈ s.resources.entries := AList.mem_lookup_iff
  rw [list, List.mem_filter, List.mem_map, hrow, beq_iff_eq, and_comm]
  refine and_congr_right fun _ => ⟨?_, fun h => ⟨_, h, rfl⟩⟩
  rintro ⟨⟨k, r'⟩, he, heq⟩
  obtain ⟨rfl, rfl⟩ := Prod.mk.inj heq
  exact he

end Store

/-! ## What a statement does to the rows -/

/-- The row a statement writes. -/
def Op.target : Op → Option Key
  | setResourceInput key _ _ => some key
  | setResourceOutput key _ => some key
  | setResourceDependencies key _ => some key
  | setResourceMarkers key _ => some key
  | setResourceSourceTrace key _ => some key
  | deleteResource key => some key
  | _ => none

/-- What a statement makes of the row it writes. -/
def Op.effect (o : Op) (row : Option Row) : Option Row :=
  match o with
  | setResourceInput _ inputs owner =>
    some { row.getD .blank with inputs := some inputs, owner := some owner }
  | setResourceOutput _ outputs => some { row.getD .blank with outputs := some outputs }
  | setResourceDependencies _ dependencies =>
    some { row.getD .blank with dependencies := some dependencies }
  | setResourceMarkers _ markers => some { row.getD .blank with markers := some markers }
  | setResourceSourceTrace _ sourceTrace =>
    some { row.getD .blank with sourceTrace := some sourceTrace }
  | deleteResource _ => none
  | _ => row

theorem Store.row_exec (cut : Option (ℕ × String)) (o : Op) (s : Store) (key : Key) :
    (Store.exec cut o s).2.row key =
      if o.target = some key then o.effect (s.row key) else s.row key := by
  have hupdate : ∀ (k : Key) (f : Row → Row), (s.update k f).row key =
      if some k = some key then some (f ((s.row key).getD .blank)) else s.row key := by
    intro k f
    by_cases hk : k = key
    · subst hk; rw [if_pos rfl, row_update_self]
    · rw [if_neg (fun h => hk (Option.some.inj h)), row_update_ne s (Ne.symm hk)]
  cases o with
  | setResourceInput k | setResourceOutput k | setResourceDependencies k | setResourceMarkers k
      | setResourceSourceTrace k => exact hupdate k _
  | deleteResource k =>
    by_cases hk : k = key
    · subst hk; exact (row_delete_self s k).trans (if_pos rfl).symm
    · rw [Op.target, if_neg (fun h => hk (Option.some.inj h))]
      exact row_delete_ne s (Ne.symm hk)
  | getResource | listResources | listResourcesByOwner | listResourceRegions => rfl

end Rdb

end Skyr
