import Skyr.Ids.RoundTrip
import Skyr.Rdb.Store

/-!
# The dependencies of a resource, as text

The column of the dependencies has them as a JSON array of texts: an id is printed when the
dependencies are written, and parsed when a row is read.  A row whose column does not parse is an
error, and a listing that comes across one fails as a whole.

The evaluator makes a resource id of whatever text a program passes as a name, without a check, and
not every id that is made this way parses (`EvalCtx.resourceId_survives_iff`): the name must not be
empty, and it must not print with a `::`.  A single resource with another name that something
depends on is enough for its environment not to be listed any more
(`one_name_breaks_the_listing`).  Where all names are of the right kind and the columns are not too
large, reading the text is the same as reading the ids (`listing_of_valid_names`).
-/

namespace Skyr

namespace Rdb

/-! ## The column -/

theorem decodeId_eq_ok {s : String} {id : ResourceId} :
    decodeId s = .ok id ↔ ResourceId.parse s.toList = .ok id := by
  rw [decodeId]
  split
  · rename_i h
    simp [h]
  · rename_i h
    simp [h]

/-- A column of ids that parse is read back as it was written. -/
theorem decode_encodeDependencies {ids : List ResourceId} (hids : ∀ id ∈ ids, id.Built)
    (hsize : (encodeDependencies ids).size ≤ maxJsonSize) :
    decodeDependencies (encodeDependencies ids) = .ok ids := by
  rw [decodeDependencies.eq_def, if_neg (Nat.not_lt.2 hsize)]
  clear hsize
  change (ids.map ResourceId.toString).mapM decodeId = .ok ids
  induction ids with
  | nil => rfl
  | cons id ids ih =>
  obtain ⟨hid, hids⟩ := List.forall_mem_cons.1 hids
  have hparse : decodeId id.toString = .ok id :=
    decodeId_eq_ok.2 (ResourceId.parse_eq_ok.2 ⟨hid, rfl⟩)
  rw [List.map_cons, List.mapM_cons, hparse, ih hids]
  rfl

/-! ## Rows and listings -/

variable [SclData]

/-- A row with its dependencies as text. -/
structure TextRow where
  inputs : Option Json
  outputs : Option Json
  dependencies : Column
  markers : Option (List Marker)
  owner : Option String
  sourceTrace : Option SourceTrace

/-- A row as it is stored. -/
def Row.toText (row : Row) : TextRow where
  inputs := row.inputs
  outputs := row.outputs
  dependencies := row.dependencies.elim .null encodeDependencies
  markers := row.markers
  owner := row.owner
  sourceTrace := row.sourceTrace

/-- Decode a row with texts of the database of `region`. -/
def mapTextRow (region : RegionId) (key : Key) (row : TextRow) : Except String Resource :=
  match decodeRecord row.inputs, decodeRecord row.outputs, decodeDependencies row.dependencies with
  | .ok inputs, .ok outputs, .ok dependencies => .ok
    { ns := key.ns, region := region, resourceType := key.resourceType, name := key.name
      inputs := inputs, outputs := outputs
      dependencies := dependencies, markers := row.markers.getD []
      owner := row.owner, sourceTrace := row.sourceTrace.getD [] }
  | .error e, _, _ => .error e
  | _, .error e, _ => .error e
  | _, _, .error e => .error e

/-- Reading a stored row is reading its texts. -/
theorem mapTextRow_eq_mapResourceRow (region : RegionId) (key : Key) (row : Row) :
    mapTextRow region key row.toText = mapResourceRow region key row := by
  have hinputs : row.toText.inputs = row.inputs := rfl
  have houtputs : row.toText.outputs = row.outputs := rfl
  have hcolumn : row.toText.dependencies = row.column := rfl
  rw [mapTextRow, mapResourceRow, hinputs, houtputs, hcolumn]
  cases decodeRecord row.inputs <;> cases decodeRecord row.outputs <;>
    cases decodeDependencies row.column <;> rfl

/-- Decode a row as if its column had the ids themselves. -/
def mapIdRow (region : RegionId) (key : Key) (row : Row) : Except String Resource :=
  match decodeRecord row.inputs, decodeRecord row.outputs with
  | .ok inputs, .ok outputs => .ok
    { ns := key.ns, region := region, resourceType := key.resourceType, name := key.name
      inputs := inputs, outputs := outputs
      dependencies := row.dependencies.getD [], markers := row.markers.getD []
      owner := row.owner, sourceTrace := row.sourceTrace.getD [] }
  | .error e, _ => .error e
  | _, .error e => .error e

/-- All resources of a namespace, from rows with ids. -/
def Store.listing (s : Store) (region : RegionId) (ns : String) : Except String (List Resource) :=
  (s.list ns).mapM fun p => mapIdRow region p.1 p.2

/-- All resources of a namespace, from rows with texts. -/
def Store.textListing (s : Store) (region : RegionId) (ns : String) :
    Except String (List Resource) :=
  (s.list ns).mapM fun p => mapTextRow region p.1 p.2.toText

/-- The dependencies of a row parse, and their column is not too large. -/
def Row.Readable (row : Row) : Prop :=
  ∀ ids, row.dependencies = some ids →
    (∀ id ∈ ids, id.Built) ∧ (encodeDependencies ids).size ≤ maxJsonSize

theorem mapTextRow_toText {region : RegionId} {key : Key} {row : Row} (h : row.Readable) :
    mapTextRow region key row.toText = mapIdRow region key row := by
  have hdeps : decodeDependencies row.toText.dependencies = .ok (row.dependencies.getD []) := by
    rw [Row.toText]
    cases hrow : row.dependencies with
    | none => rfl
    | some ids => exact decode_encodeDependencies (h ids hrow).1 (h ids hrow).2
  rw [mapTextRow, mapIdRow, hdeps]
  dsimp only [Row.toText]
  cases decodeRecord row.inputs <;> cases decodeRecord row.outputs <;> rfl

end Rdb

/-! ## Names -/

variable [SclData]

namespace EvalCtx

variable (ctx : EvalCtx)

/-- The region of a call is a region, and its type is one of the standard library: there is one, and
it has no colon. -/
structure Regular (c : Call) : Prop where
  region : isValidRegion (c.region.getD ctx.region).str.toList = true
  typ_ne_nil : c.typ.toList ≠ []
  typ_colon : ':' ∉ c.typ.toList

variable {ctx}

theorem Regular.built_iff {c : Call} (h : ctx.Regular c) :
    (ctx.resourceId c).Built ↔ ValidName c.name.toList :=
  ⟨fun hb => hb.name, fun hname => ⟨h.region, h.typ_ne_nil, h.typ_colon, hname⟩⟩

/-- **Which ids survive as text.** -/
theorem resourceId_survives_iff {c : Call} (h : ctx.Regular c) :
    ResourceId.parse (ctx.resourceId c).toString.toList = .ok (ctx.resourceId c) ↔
      ValidName c.name.toList := by
  rw [ResourceId.parse_eq_ok, h.built_iff, and_iff_left rfl]

end EvalCtx

namespace Rdb

/-- The dependencies of every row were made by the evaluator for calls with a valid name, and no
column is too large. -/
def Store.WellNamed (s : Store) (ns : String) : Prop :=
  ∀ key row, (key, row) ∈ s.list ns → ∀ ids, row.dependencies = some ids →
    (∀ id ∈ ids, ∃ ctx : EvalCtx, ∃ c, ctx.Regular c ∧ ValidName c.name.toList ∧
      id = ctx.resourceId c) ∧
    (encodeDependencies ids).size ≤ maxJsonSize

theorem Store.WellNamed.readable {s : Store} {ns : String} (h : s.WellNamed ns) :
    ∀ p ∈ s.list ns, p.2.Readable := by
  intro p hp ids hids
  obtain ⟨hcalls, hsize⟩ := h p.1 p.2 hp ids hids
  refine ⟨fun id hid => ?_, hsize⟩
  obtain ⟨ctx, c, hc, hname, rfl⟩ := hcalls id hid
  exact hc.built_iff.2 hname

/-- **Names of the right kind survive.**  The id of a call with such a name parses from its text,
and where all dependencies of an environment are of this kind, listing it from the stored texts is
listing it from the ids. -/
theorem listing_of_valid_names (ctx : EvalCtx) (c : Call) (hc : ctx.Regular c)
    (hname : ValidName c.name.toList) (s : Store) (region : RegionId) (ns : String)
    (hs : s.WellNamed ns) :
    ResourceId.parse (ctx.resourceId c).toString.toList = .ok (ctx.resourceId c) ∧
      s.textListing region ns = s.listing region ns := by
  refine ⟨(EvalCtx.resourceId_survives_iff hc).2 hname, ?_⟩
  have hreadable := hs.readable
  rw [Store.textListing, Store.listing]
  generalize s.list ns = rows at hreadable ⊢
  induction rows with
  | nil => rfl
  | cons p rows ih =>
  obtain ⟨hp, hrows⟩ := List.forall_mem_cons.1 hreadable
  rw [List.mapM_cons, List.mapM_cons, mapTextRow_toText hp, ih hrows]

end Rdb

end Skyr

/-! ## Examples -/

namespace Skyr.Rdb.Columns

local instance : SclData := .nat

def ctx : EvalCtx where
  resources _ := none
  region := ⟨"stockholm"⟩
  localOwner := ⟨⟨⟨⟨"Acme"⟩, ⟨"Shop"⟩⟩, ⟨"main"⟩⟩, ⟨⟨0⟩, ⟨0⟩⟩⟩
  packageOwner _ := none
  foreignResources _ _ := none

/-- A call of a resource function with a given name. -/
def call (name : String) : Call := ⟨none, "Std/Random.Int", name, (0 : ℕ), [], []⟩

theorem call_regular (name : String) : ctx.Regular (call name) where
  region := show isValidRegion "stockholm".toList = true by decide
  typ_ne_nil := show "Std/Random.Int".toList ≠ [] by decide
  typ_colon := show ':' ∉ "Std/Random.Int".toList by decide

/-- A resource that depends on the one with the given name. -/
def dependent (name : String) : Store :=
  Store.empty.update ⟨"Acme/Shop::main", "Std/Random.Int", "b"⟩ fun row =>
    { row with dependencies := some [ctx.resourceId (call name)] }

theorem seed_listed :
    (dependent "seed").textListing ctx.region "Acme/Shop::main" =
      (dependent "seed").listing ctx.region "Acme/Shop::main" := by
  have hname : ValidName "seed".toList := validName_iff.2 (by decide)
  refine (listing_of_valid_names ctx (call "seed") (call_regular _) hname _ _ _ ?_).2
  intro key row hrow ids hids
  have hkey := List.mem_singleton.1 hrow
  cases hkey
  cases hids
  refine ⟨fun id hid => ⟨ctx, call "seed", call_regular _, hname, List.mem_singleton.1 hid⟩, ?_⟩
  decide +kernel

/-- **One name is enough.**  A program may call a resource `a::b`.  Its id does not parse from its
text, and the environment cannot be listed once another resource depends on it, although all rows
could be read otherwise. -/
theorem one_name_breaks_the_listing :
    (∃ e, ResourceId.parse (ctx.resourceId (call "a::b")).toString.toList = .error e) ∧
      (∃ rs, (dependent "a::b").listing ctx.region "Acme/Shop::main" = .ok rs) ∧
      ∃ e, (dependent "a::b").textListing ctx.region "Acme/Shop::main" = .error e := by
  refine ⟨⟨.invalidResourceId "stockholm:Std/Random.Int:a::b", ?_⟩, ⟨_, rfl⟩,
    "failed to encode/decode json: invalid resource ID: stockholm:Std/Random.Int:a::b", ?_⟩
  · decide +kernel
  · with_unfolding_all rfl

end Skyr.Rdb.Columns
