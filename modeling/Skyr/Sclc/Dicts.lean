import Skyr.Lib.Assoc
import Skyr.Sclc.Eval

/-!
# Dictionaries

A dictionary is kept as a list of entries, in the order in which they came in.  A literal appends
its entries as they are; `Std/Dict.insert` and `Std/Dict.fromList` replace what is there under an
equal key, and `Std/Dict.merge` what comes first under it.  Two dictionaries are equal if their
lists are.

The operations are those of `Lib.Assoc`, with the equality of values as the test on keys.  It is
symmetric and transitive, but a function of the standard library is not equal to itself, so a key
that has one in it is never found again.  `dict_laws` says of all dictionaries that can be built
from literals without equal keys that they are finite maps, up to one point: where two of them have
the same bindings, they are equal exactly if their keys come in the same order.
-/

namespace Skyr.Sclc

/-! ## The equality of values -/

/-- The floats are compared by a test that is symmetric and transitive. -/
class LawfulFloats [Floats] : Prop where
  eq_symm {a b : Floats.F} : Floats.eq a b = true → Floats.eq b a = true
  eq_trans {a b c : Floats.F} : Floats.eq a b = true → Floats.eq b c = true → Floats.eq a c = true

section

variable [Floats]

/-- What it takes for two values to be equal. -/
inductive Value.Equal : Value → Value → Prop
  | nil : Equal .nil .nil
  | pending : Equal .pending .pending
  | int (n : ℤ) : Equal (.int n) (.int n)
  | float {a b : Floats.F} (h : Floats.eq a b = true) : Equal (.float a) (.float b)
  | bool (b : Bool) : Equal (.bool b) (.bool b)
  | str (s : String) : Equal (.str s) (.str s)
  | path (p : PathValue) : Equal (.path p) (.path p)
  | list {vs ws : List Value} (h : eqValues vs ws = true) : Equal (.list vs) (.list ws)
  | fn (m : ModuleId) (r : RawModuleId) (s : ℕ) (ps : List String) (self : Option String)
    {cs cs' : List (String × Tracked Value)} (hcs : eqCaptures cs cs' = true)
    {g g' : List (String × Value)} (hg : eqRecords g g' = true) (b b' : Expr) :
    Equal (.fn m r s ps cs self g b) (.fn m r s ps cs' self g' b')
  | record {fs gs : List (String × Value)} (h : eqRecords fs gs = true) :
    Equal (.record fs) (.record gs)
  | dict {es es' : List (Value × Value)} (h : eqDicts es es' = true) : Equal (.dict es) (.dict es')
  | exception (i : ℕ) {p q : Value} (h : p.eq q = true) : Equal (.exception i p) (.exception i q)

theorem Value.equal_of_eq {v w : Value} (h : v.eq w = true) : Equal v w := by
  rw [Value.eq.eq_def] at h
  split at h
  · exact .nil
  · exact .pending
  · rw [eq_of_beq h]
    exact .int _
  · exact .float h
  · rw [eq_of_beq h]
    exact .bool _
  · rw [eq_of_beq h]
    exact .str _
  · rw [eq_of_beq h]
    exact .path _
  · exact .list h
  · simp only [Bool.and_eq_true, beq_iff_eq] at h
    obtain ⟨⟨⟨⟨⟨⟨rfl, rfl⟩, rfl⟩, rfl⟩, hcs⟩, rfl⟩, hg⟩ := h
    exact .fn _ _ _ _ _ hcs hg _ _
  · exact .record h
  · exact .dict h
  · simp only [Bool.and_eq_true, beq_iff_eq] at h
    obtain ⟨rfl, hp⟩ := h
    exact .exception _ hp
  · cases h

theorem Value.Equal.eq {v w : Value} (h : Equal v w) : v.eq w = true := by
  cases h <;> simp [Value.eq, *]

mutual

theorem Value.eq_symm_trans [LawfulFloats] {v w : Value} (h : v.eq w = true) :
    w.eq v = true ∧ ∀ u : Value, w.eq u = true → v.eq u = true := by
  cases Value.equal_of_eq h with
  | nil | pending | int | bool | str | path => exact ⟨h, fun _ hu => hu⟩
  | float hf =>
    refine ⟨(Value.Equal.float (LawfulFloats.eq_symm hf)).eq, fun u hu => ?_⟩
    cases Value.equal_of_eq hu with
    | float hab => exact (Value.Equal.float (LawfulFloats.eq_trans hf hab)).eq
  | list hvs =>
    obtain ⟨hsymm, htrans⟩ := eqValues_symm_trans hvs
    refine ⟨(Value.Equal.list hsymm).eq, fun u hu => ?_⟩
    cases Value.equal_of_eq hu with
    | list hws => exact (Value.Equal.list (htrans _ hws)).eq
  | fn m r s ps self hcs hg b b' =>
    obtain ⟨hcsymm, hctrans⟩ := eqCaptures_symm_trans hcs
    obtain ⟨hgsymm, hgtrans⟩ := eqRecords_symm_trans hg
    refine ⟨(Value.Equal.fn m r s ps self hcsymm hgsymm b' b).eq, fun u hu => ?_⟩
    cases Value.equal_of_eq hu with
    | fn _ _ _ _ _ hcu hgu _ b'' =>
      exact (Value.Equal.fn m r s ps self (hctrans _ hcu) (hgtrans _ hgu) b b'').eq
  | record hfs =>
    obtain ⟨hsymm, htrans⟩ := eqRecords_symm_trans hfs
    refine ⟨(Value.Equal.record hsymm).eq, fun u hu => ?_⟩
    cases Value.equal_of_eq hu with
    | record hgs => exact (Value.Equal.record (htrans _ hgs)).eq
  | dict hes =>
    obtain ⟨hsymm, htrans⟩ := eqDicts_symm_trans hes
    refine ⟨(Value.Equal.dict hsymm).eq, fun u hu => ?_⟩
    cases Value.equal_of_eq hu with
    | dict hes' => exact (Value.Equal.dict (htrans _ hes')).eq
  | exception i hp =>
  obtain ⟨hsymm, htrans⟩ := Value.eq_symm_trans hp
  refine ⟨(Value.Equal.exception i hsymm).eq, fun u hu => ?_⟩
  cases Value.equal_of_eq hu with
  | exception _ hq => exact (Value.Equal.exception i (htrans _ hq)).eq
termination_by sizeOf v

theorem eqValues_symm_trans [LawfulFloats] : ∀ {vs ws : List Value}, eqValues vs ws = true →
    eqValues ws vs = true ∧ ∀ us, eqValues ws us = true → eqValues vs us = true
  | [], [], h => ⟨h, fun _ hu => hu⟩
  | [], _ :: _, h => by simp [eqValues] at h
  | _ :: _, [], h => by simp [eqValues] at h
  | v :: vs, w :: ws, h => by
    simp only [eqValues, Bool.and_eq_true] at h
    obtain ⟨hsymm, htrans⟩ := Value.eq_symm_trans h.1
    obtain ⟨hsymm', htrans'⟩ := eqValues_symm_trans h.2
    refine ⟨by simp [eqValues, hsymm, hsymm'], fun us hu => ?_⟩
    cases us with
    | nil => simp [eqValues] at hu
    | cons u us =>
    simp only [eqValues, Bool.and_eq_true] at hu ⊢
    exact ⟨htrans _ hu.1, htrans' _ hu.2⟩
termination_by vs => sizeOf vs

theorem eqRecords_symm_trans [LawfulFloats] : ∀ {fs gs : List (String × Value)},
    eqRecords fs gs = true →
    eqRecords gs fs = true ∧ ∀ ks, eqRecords gs ks = true → eqRecords fs ks = true
  | [], [], h => ⟨h, fun _ hu => hu⟩
  | [], _ :: _, h => by simp [eqRecords] at h
  | _ :: _, [], h => by simp [eqRecords] at h
  | (n, v) :: fs, (m, w) :: gs, h => by
    simp only [eqRecords, Bool.and_eq_true, beq_iff_eq] at h
    obtain ⟨⟨rfl, hv⟩, hfs⟩ := h
    obtain ⟨hsymm, htrans⟩ := Value.eq_symm_trans hv
    obtain ⟨hsymm', htrans'⟩ := eqRecords_symm_trans hfs
    refine ⟨by simp [eqRecords, hsymm, hsymm'], fun ks hu => ?_⟩
    cases ks with
    | nil => simp [eqRecords] at hu
    | cons k ks =>
    obtain ⟨l, u⟩ := k
    simp only [eqRecords, Bool.and_eq_true] at hu ⊢
    exact ⟨⟨hu.1.1, htrans _ hu.1.2⟩, htrans' _ hu.2⟩
termination_by fs => sizeOf fs

theorem eqDicts_symm_trans [LawfulFloats] : ∀ {es es' : List (Value × Value)}, eqDicts es es' = true →
    eqDicts es' es = true ∧ ∀ es'', eqDicts es' es'' = true → eqDicts es es'' = true
  | [], [], h => ⟨h, fun _ hu => hu⟩
  | [], _ :: _, h => by simp [eqDicts] at h
  | _ :: _, [], h => by simp [eqDicts] at h
  | (k, v) :: es, (k', v') :: es', h => by
    simp only [eqDicts, Bool.and_eq_true] at h
    obtain ⟨hksymm, hktrans⟩ := Value.eq_symm_trans h.1.1
    obtain ⟨hvsymm, hvtrans⟩ := Value.eq_symm_trans h.1.2
    obtain ⟨hsymm, htrans⟩ := eqDicts_symm_trans h.2
    refine ⟨by simp [eqDicts, hksymm, hvsymm, hsymm], fun es'' hu => ?_⟩
    cases es'' with
    | nil => simp [eqDicts] at hu
    | cons e es'' =>
    obtain ⟨k'', v''⟩ := e
    simp only [eqDicts, Bool.and_eq_true] at hu ⊢
    exact ⟨⟨hktrans _ hu.1.1, hvtrans _ hu.1.2⟩, htrans _ hu.2⟩
termination_by es => sizeOf es

theorem eqCaptures_symm_trans [LawfulFloats] : ∀ {cs cs' : List (String × Tracked Value)},
    eqCaptures cs cs' = true →
    eqCaptures cs' cs = true ∧ ∀ cs'', eqCaptures cs' cs'' = true → eqCaptures cs cs'' = true
  | [], [], h => ⟨h, fun _ hu => hu⟩
  | [], _ :: _, h => by simp [eqCaptures] at h
  | _ :: _, [], h => by simp [eqCaptures] at h
  | (n, ⟨v, d⟩) :: cs, (m, ⟨w, e⟩) :: cs', h => by
    simp only [eqCaptures, Bool.and_eq_true, beq_iff_eq] at h
    obtain ⟨⟨⟨rfl, hv⟩, rfl⟩, hcs⟩ := h
    obtain ⟨hsymm, htrans⟩ := Value.eq_symm_trans hv
    obtain ⟨hsymm', htrans'⟩ := eqCaptures_symm_trans hcs
    refine ⟨by simp [eqCaptures, hsymm, hsymm'], fun cs'' hu => ?_⟩
    cases cs'' with
    | nil => simp [eqCaptures] at hu
    | cons c cs'' =>
    obtain ⟨l, u, d'⟩ := c
    simp only [eqCaptures, Bool.and_eq_true] at hu ⊢
    exact ⟨⟨⟨hu.1.1.1, htrans _ hu.1.1.2⟩, hu.1.2⟩, htrans' _ hu.2⟩
termination_by cs => sizeOf cs

end

theorem Value.isPer_eq [LawfulFloats] : IsPer Value.eq :=
  ⟨fun h => (Value.eq_symm_trans h).1, fun h h' => (Value.eq_symm_trans h).2 _ h'⟩

/-- Dictionaries are compared entry by entry. -/
theorem eqDicts_iff {es es' : List (Value × Value)} :
    eqDicts es es' = true ↔
      List.Forall₂ (fun e e' => e.1.eq e'.1 = true ∧ e.2.eq e'.2 = true) es es' := by
  induction es generalizing es' with
  | nil => cases es' <;> simp [eqDicts]
  | cons e es ih =>
  cases es' with
  | nil => simp [eqDicts]
  | cons e' es' =>
  obtain ⟨k, v⟩ := e
  obtain ⟨k', v'⟩ := e'
  simp [eqDicts, ih]

/-! ## The functions of `Std/Dict` -/

/-- The entries of a dictionary. -/
abbrev DictEntries := List (Value × Value)

def dictInsertOrReplace (dict : DictEntries) (newKey newValue : Value) : DictEntries :=
  Assoc.insertOrReplace Value.eq dict newKey newValue

namespace Dict

/-- What a function of the standard library fails with on a value it is not for. -/
def unexpected (v : Value) : Computed Value := .error (.error (.unexpectedValue v))

def size : List Value → Computed Value
  | [.dict es] => .ok (.int es.length)
  | args => unexpected (args.headD .nil)

def keys : List Value → Computed Value
  | [.dict es] => .ok (.list (es.map Prod.fst))
  | args => unexpected (args.headD .nil)

/-- An entry as a record. -/
def entryRecord (e : Value × Value) : Value :=
  .record ((Fields.insert [] "key" e.1).insert "value" e.2)

def entries : List Value → Computed Value
  | [.dict es] => .ok (.list (es.map entryRecord))
  | args => unexpected (args.headD .nil)

def get : List Value → Computed Value
  | [.dict es, key] => .ok ((dictGet es key).getD .nil)
  | args => unexpected (args.headD .nil)

def insert : List Value → Computed Value
  | [.dict es, newKey, newValue] => .ok (.dict (dictInsertOrReplace es newKey newValue))
  | args => unexpected (args.headD .nil)

def remove : List Value → Computed Value
  | [.dict es, key] => .ok (.dict (Assoc.remove Value.eq es key))
  | args => unexpected (args.headD .nil)

/-- The right dictionary is looked at first. -/
def merge : List Value → Computed Value
  | [.dict left, .dict right] => .ok (.dict (Assoc.merge Value.eq left right))
  | [other, .dict _] => unexpected other
  | [_, other] => unexpected other
  | args => unexpected (args.headD .nil)

/-- Put entries that are given as records into a dictionary, one after the other. -/
def insertItems : List Value → DictEntries → Computed DictEntries
  | [], dict => .ok dict
  | .record fields :: items, dict =>
    insertItems items (dictInsertOrReplace dict (Fields.get fields "key")
      (Fields.get fields "value"))
  | other :: _, _ => .error (.error (.unexpectedValue other))

def fromList : List Value → Computed Value
  | [.list items] => (insertItems items []).map Value.dict
  | args => unexpected (args.headD .nil)

end Dict

/-! ## How dictionaries come about -/

/-- A dictionary literal, with what its keys and values come to, or a call of a function that makes
a dictionary. -/
inductive DictBuild
  | literal (entries : DictEntries)
  | insert (dict : DictBuild) (key value : Value)
  | remove (dict : DictBuild) (key : Value)
  | merge (left right : DictBuild)
  | fromList (items : List Value)

namespace DictBuild

/-- What it comes to. -/
def run : DictBuild → Computed Value
  | literal entries => .ok (.dict entries)
  | insert d key value => do Dict.insert [← d.run, key, value]
  | remove d key => do Dict.remove [← d.run, key]
  | merge l r => do
    let left ← l.run
    let right ← r.run
    Dict.merge [left, right]
  | fromList items => Dict.fromList [.list items]

/-- No literal in it has equal keys. -/
def DistinctLiterals : DictBuild → Prop
  | literal entries => Assoc.Distinct Value.eq entries
  | insert d _ _ | remove d _ => d.DistinctLiterals
  | merge l r => l.DistinctLiterals ∧ r.DistinctLiterals
  | fromList _ => True

end DictBuild

/-! ## Keys are distinct -/

open Assoc

theorem computed_bind_ok {α β : Type} {x : Computed α} {f : α → Computed β} {b : β}
    (h : x >>= f = .ok b) : ∃ a, x = .ok a ∧ f a = .ok b := by
  cases x with
  | error e => exact nomatch h
  | ok a => exact ⟨a, rfl, h⟩

section Laws

variable [LawfulFloats]

theorem distinct_insertItems {items : List Value} {dict es : DictEntries}
    (hdict : Distinct Value.eq dict) (h : Dict.insertItems items dict = .ok es) :
    Distinct Value.eq es := by
  induction items generalizing dict with
  | nil =>
    cases h
    exact hdict
  | cons item items ih =>
  cases item with
  | record fields => exact ih (distinct_insertOrReplace Value.isPer_eq hdict _ _) h
  | _ => exact nomatch h

theorem DictBuild.run_distinct {b : DictBuild} (hb : b.DistinctLiterals) {v : Value}
    (h : b.run = .ok v) : ∃ es, v = .dict es ∧ Distinct Value.eq es := by
  induction b generalizing v with
  | literal entries =>
    cases h
    exact ⟨entries, rfl, hb⟩
  | insert d key value ih =>
    obtain ⟨u, hu, h⟩ := computed_bind_ok h
    obtain ⟨es, rfl, hes⟩ := ih hb hu
    cases h
    exact ⟨_, rfl, distinct_insertOrReplace Value.isPer_eq hes key value⟩
  | remove d key ih =>
    obtain ⟨u, hu, h⟩ := computed_bind_ok h
    obtain ⟨es, rfl, hes⟩ := ih hb hu
    cases h
    exact ⟨_, rfl, distinct_remove hes key⟩
  | merge l r ihl ihr =>
    obtain ⟨left, hleft, h⟩ := computed_bind_ok h
    obtain ⟨right, hright, h⟩ := computed_bind_ok h
    obtain ⟨es, rfl, hes⟩ := ihl hb.1 hleft
    obtain ⟨es', rfl, -⟩ := ihr hb.2 hright
    cases h
    exact ⟨_, rfl, distinct_merge Value.isPer_eq hes es'⟩
  | fromList items =>
  change (Dict.insertItems items []).map Value.dict = .ok v at h
  cases hitems : Dict.insertItems items [] with
  | error e =>
    rw [hitems] at h
    exact nomatch h
  | ok es =>
  rw [hitems] at h
  cases h
  exact ⟨es, rfl, distinct_insertItems List.Pairwise.nil hitems⟩

/-! ## The laws -/

/-- What makes a dictionary a finite map, also together with another one. -/
structure MapLaws (es es' : DictEntries) : Prop where
  /-- No two entries have equal keys. -/
  distinct : Distinct Value.eq es
  size : Dict.keys [.dict es] = .ok (.list (es.map Prod.fst)) ∧
    Dict.size [.dict es] = .ok (.int (es.map Prod.fst).length)
  /-- What is inserted is found, and nothing else changes.  A key that is not equal to itself is
  not found. -/
  insert : ∀ key value : Value, ∃ new : DictEntries,
    Dict.insert [.dict es, key, value] = .ok (.dict new) ∧
    (key.eq key = true → Dict.get [.dict new, key] = .ok value) ∧
    ∀ other : Value, key.eq other = false → Dict.get [.dict new, other] = Dict.get [.dict es, other]
  /-- The right dictionary wins. -/
  merge : ∃ new : DictEntries, Dict.merge [.dict es, .dict es'] = .ok (.dict new) ∧
    ∀ key : Value, dictGet new key = (dictGet es' key).or (dictGet es key)
  /-- With the same bindings, the dictionaries are equal exactly if their keys come in the same
  order. -/
  equality : SameBindings Value.eq Value.eq es es' →
    ((Value.dict es).eq (.dict es') = true ↔ List.Forall₂ (fun e e' => e.1.eq e'.1 = true) es es')

theorem mapLaws {es es' : DictEntries} (hes : Distinct Value.eq es)
    (hes' : Distinct Value.eq es') : MapLaws es es' where
  distinct := hes
  size := ⟨rfl, by rw [List.length_map]; rfl⟩
  insert key value := by
    refine ⟨_, rfl, fun hkey => ?_, fun other hother => ?_⟩
    · have hget := get_insertOrReplace Value.isPer_eq es key value key
      rw [if_pos hkey] at hget
      exact congrArg (fun v : Option Value => Except.ok (v.getD .nil)) hget
    have hget := get_insertOrReplace Value.isPer_eq es key value other
    rw [if_neg (by rw [hother]; exact Bool.false_ne_true)] at hget
    exact congrArg (fun v : Option Value => Except.ok (v.getD .nil)) hget
  merge := ⟨_, rfl, get_merge Value.isPer_eq hes' es⟩
  equality hsame := by
    simp only [Value.eq, eqDicts_iff]
    constructor
    · intro h
      exact h.imp fun _ _ hee => hee.1
    · exact forall₂_of_sameBindings Value.isPer_eq hes hes' hsame

/-- **Dictionaries are finite maps.**  The dictionaries built from literals without equal keys by
any chain of insertions, removals and merges, and from lists, have distinct keys, their size is the
number of keys, what is inserted under a key that is equal to itself is found and other keys are
left alone, the right side of a merge wins, and two of them with the same bindings are equal exactly
if their keys come in the same order. -/
theorem dict_laws (b b' : DictBuild) (hb : b.DistinctLiterals) (hb' : b'.DistinctLiterals)
    (v v' : Value) (hv : b.run = .ok v) (hv' : b'.run = .ok v') :
    ∃ es es', v = .dict es ∧ v' = .dict es' ∧ MapLaws es es' := by
  obtain ⟨es, rfl, hes⟩ := DictBuild.run_distinct hb hv
  obtain ⟨es', rfl, hes'⟩ := DictBuild.run_distinct hb' hv'
  exact ⟨es, es', rfl, rfl, mapLaws hes hes'⟩

omit [LawfulFloats] in
theorem insertItems_entries (dict : DictEntries) {es : DictEntries}
    (h : Distinct Value.eq (dict ++ es)) :
    Dict.insertItems (es.map Dict.entryRecord) dict = .ok (dict ++ es) := by
  induction es generalizing dict with
  | nil => exact congrArg Except.ok (List.append_nil dict).symm
  | cons e es ih =>
    have hnew : (dict.any fun e' => e'.1.eq e.1) = false := by
      refine List.any_eq_false.2 fun e' he' => ?_
      rw [(List.pairwise_append.1 h).2.2 e' he' e List.mem_cons_self]
      exact Bool.false_ne_true
    have hlast : dictInsertOrReplace dict e.1 e.2 = dict ++ [e] := by
      simp [dictInsertOrReplace, insertOrReplace, hnew]
    have hvalue : ¬"value" < "key" := by decide +kernel
    have hfields : (Fields.insert [] "key" e.1).insert "value" e.2 =
        [("key", e.1), ("value", e.2)] := by
      simp only [Fields.insert, OrdMap.insert, decide_eq_true_eq, if_neg hvalue]
      rfl
    rw [List.append_cons] at h ⊢
    rw [List.map_cons, Dict.entryRecord, hfields]
    exact (congrArg (Dict.insertItems _) hlast).trans (ih _ h)

/-- **A dictionary is read back from the list of its entries**, however it was built. -/
theorem fromList_entries (b : DictBuild) (hb : b.DistinctLiterals) (v : Value)
    (hv : b.run = .ok v) : (do Dict.fromList [← Dict.entries [v]]) = .ok v := by
  obtain ⟨es, rfl, hes⟩ := DictBuild.run_distinct hb hv
  exact congrArg (Except.map Value.dict) (insertItems_entries [] hes)

end Laws

end

/-! ## Where it matters -/

namespace Shelf

open Assoc

local instance : Floats := Floats.int

theorem float_eq_iff {a b : ℤ} : Floats.eq a b = true ↔ a = b := by
  exact decide_eq_true_iff

local instance : LawfulFloats where
  eq_symm h := float_eq_iff.2 (float_eq_iff.1 h).symm
  eq_trans h h' := float_eq_iff.2 ((float_eq_iff.1 h).trans (float_eq_iff.1 h'))

/-- Two entries, inserted one after the other. -/
def inserted : DictBuild :=
  .insert (.insert (.fromList []) (.int 1) (.str "a")) (.int 2) (.str "b")

/-- The same two entries, inserted the other way round. -/
def insertedBack : DictBuild :=
  .insert (.insert (.fromList []) (.int 2) (.str "b")) (.int 1) (.str "a")

/-- The same two entries in a literal. -/
def written : DictBuild := .literal [(.int 1, .str "a"), (.int 2, .str "b")]

theorem written_distinct : written.DistinctLiterals := by
  simp [written, DictBuild.DistinctLiterals, Distinct, Value.eq]

theorem inserted_run : inserted.run = .ok (.dict [(.int 1, .str "a"), (.int 2, .str "b")]) := by
  simp [inserted, DictBuild.run, Dict.fromList, Dict.insertItems, Dict.insert,
    dictInsertOrReplace, insertOrReplace, Value.eq, bind, Except.bind, Except.map]

theorem insertedBack_run :
    insertedBack.run = .ok (.dict [(.int 2, .str "b"), (.int 1, .str "a")]) := by
  simp [insertedBack, DictBuild.run, Dict.fromList, Dict.insertItems, Dict.insert,
    dictInsertOrReplace, insertOrReplace, Value.eq, bind, Except.bind, Except.map]

/-- The inserted entries and the literal are subject to the laws, and they are equal. -/
theorem inserted_written :
    inserted.DistinctLiterals ∧ written.DistinctLiterals ∧
    ∃ es es', inserted.run = .ok (.dict es) ∧ written.run = .ok (.dict es') ∧ MapLaws es es' ∧
      (Value.dict es).eq (.dict es') = true := by
  refine ⟨trivial, written_distinct, ?_⟩
  obtain ⟨es, es', hes, hes', hlaws⟩ :=
    dict_laws inserted written trivial written_distinct _ _ inserted_run rfl
  cases hes
  cases hes'
  exact ⟨_, _, inserted_run, rfl, hlaws, by simp [Value.eq, eqDicts]⟩

theorem inserted_read_back :
    (do Dict.fromList [← Dict.entries [.dict [(.int 1, .str "a"), (.int 2, .str "b")]]]) =
      .ok (.dict [(.int 1, .str "a"), (.int 2, .str "b")]) :=
  fromList_entries inserted trivial _ inserted_run

/-- A literal keeps two entries under one key; two dictionaries with the same bindings are not equal
when the entries came in another order; and a function of the standard library is not found under
the key it was inserted under. -/
theorem not_maps :
    (∃ es, (DictBuild.literal [(.int 1, .str "a"), (.int 1, .str "b")]).run = .ok (.dict es) ∧
      ¬Distinct Value.eq es ∧ Dict.size [.dict es] = .ok (.int 2)) ∧
    (∃ es es', inserted.run = .ok (.dict es) ∧ insertedBack.run = .ok (.dict es') ∧
      SameBindings Value.eq Value.eq es es' ∧ (Value.dict es).eq (.dict es') = false) ∧
    ∃ new, Dict.insert [.dict [], .externFn "Std/Dict.size", .int 1] = .ok (.dict new) ∧
      Dict.get [.dict new, .externFn "Std/Dict.size"] = .ok .nil := by
  refine ⟨⟨_, rfl, ?_, rfl⟩, ⟨_, _, inserted_run, insertedBack_run, fun key => ?_, ?_⟩, _, rfl, ?_⟩
  · simp [Distinct, Value.eq]
  · rw [get_cons, get_cons, get_cons, get_cons, get_nil]
    by_cases h₁ : (Value.int 1).eq key = true
    · obtain rfl : key = .int 1 := by
        cases Value.equal_of_eq h₁
        rfl
      simp [Value.eq]
    by_cases h₂ : (Value.int 2).eq key = true
    · simp [h₁, h₂, Value.eq]
    · simp [h₁, h₂]
  · simp [Value.eq, eqDicts]
  · simp [Dict.get, dictGet, dictInsertOrReplace, insertOrReplace, Value.eq]

end Shelf

end Skyr.Sclc
