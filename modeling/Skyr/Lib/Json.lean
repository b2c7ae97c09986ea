import Mathlib.Data.List.Basic
import Mathlib.Order.Lattice

/-!
# Structures as JSON

A JSON value, seen from the outside by a program that takes structures apart and has payloads it
does not look into.  `required` and `withDefault` read a field of an object the way derived readers
do: a field that is there twice is an error, unknown fields are passed over, and a missing field is
an error unless there is a default.

A payload is written as a text and read again, and what is read need not be what was written: a
fraction may come back as the one next to it.  What is read from the text of a payload is a
parameter (`asPayload`).

A text is read down to a depth of 127 brackets and not further (`read`).
-/

namespace Skyr

/-- A JSON value with payloads in `P`. -/
inductive JValue (P : Type)
  | bool (b : Bool)
  /-- A number without sign and fraction. -/
  | num (n : ℕ)
  | str (s : String)
  | arr (items : List (JValue P))
  | obj (fields : List (String × JValue P))
  /-- A value that is passed on as it is, or one that has none of the forms above. -/
  | payload (p : P)

namespace JValue

variable {P α β : Type}

mutual

/-- How deep brackets are nested, given the depth of payloads. -/
def depth (payloadDepth : P → ℕ) : JValue P → ℕ
  | bool _ | num _ | str _ => 0
  | arr items => 1 + depthAll payloadDepth items
  | obj fields => 1 + depthFields payloadDepth fields
  | payload p => payloadDepth p

def depthAll (payloadDepth : P → ℕ) : List (JValue P) → ℕ
  | [] => 0
  | v :: vs => max (depth payloadDepth v) (depthAll payloadDepth vs)

def depthFields (payloadDepth : P → ℕ) : List (String × JValue P) → ℕ
  | [] => 0
  | f :: fs => max (depth payloadDepth f.2) (depthFields payloadDepth fs)

end

/-- The deepest nesting that is read. -/
def maxDepth : ℕ := 127

/-- Reading a text, which is some value or not JSON at all. -/
def read (payloadDepth : P → ℕ) (text : Option (JValue P)) : Option (JValue P) :=
  text.filter fun v => v.depth payloadDepth ≤ maxDepth

def asBool : JValue P → Option Bool
  | bool b => some b
  | _ => none

def asNum : JValue P → Option ℕ
  | num n => some n
  | _ => none

def asStr : JValue P → Option String
  | str s => some s
  | _ => none

/-- The payload that is read; `reread p` is what the text of `p` is read as. -/
def asPayload (reread : P → Option P) : JValue P → Option P
  | payload p => reread p
  | _ => none

/-- The elements of an array, each read by `f`. -/
def asArr (f : JValue P → Option α) : JValue P → Option (List α)
  | arr items => items.mapM f
  | _ => none

def asObj : JValue P → Option (List (String × JValue P))
  | obj fields => some fields
  | _ => none

/-- A text that is parsed. -/
def asParsed {ε : Type} (parse : List Char → Except ε α) (v : JValue P) : Option α :=
  v.asStr.bind fun s => (parse s.toList).toOption

/-- A field that has to be there. -/
def required (fields : List (String × JValue P)) (name : String) (f : JValue P → Option α) :
    Option α :=
  match fields.filter (·.1 == name) with
  | [field] => f field.2
  | _ => none

/-- A field that may be missing. -/
def withDefault (fields : List (String × JValue P)) (name : String) (default : α)
    (f : JValue P → Option α) : Option α :=
  match fields.filter (·.1 == name) with
  | [] => some default
  | [field] => f field.2
  | _ => none

theorem depthFields_append (payloadDepth : P → ℕ) (fs gs : List (String × JValue P)) :
    depthFields payloadDepth (fs ++ gs) =
      max (depthFields payloadDepth fs) (depthFields payloadDepth gs) := by
  induction fs with
  | nil => exact (Nat.zero_max _).symm
  | cons f fs ih =>
    rw [List.cons_append, depthFields, depthFields, ih, max_assoc]

/-- An array of values of a depth. -/
theorem depthAll_map_le {payloadDepth : P → ℕ} {encode : α → JValue P} {n : ℕ} {xs : List α}
    (h : ∀ x ∈ xs, (encode x).depth payloadDepth ≤ n) :
    depthAll payloadDepth (xs.map encode) ≤ n := by
  induction xs with
  | nil => exact Nat.zero_le n
  | cons x xs ih =>
  obtain ⟨hx, hxs⟩ := List.forall_mem_cons.1 h
  exact max_le hx (ih hxs)

theorem depthFields_payloads_le {payloadDepth : P → ℕ} {n : ℕ} {fs : List (String × P)} :
    depthFields payloadDepth (fs.map fun f => (f.1, payload f.2)) ≤ n ↔
      ∀ f ∈ fs, payloadDepth f.2 ≤ n := by
  induction fs with
  | nil => exact iff_of_true (Nat.zero_le n) fun f hf => absurd hf List.not_mem_nil
  | cons f fs ih =>
  rw [List.forall_mem_cons, ← ih]
  exact Nat.max_le

theorem read_eq_some {payloadDepth : P → ℕ} {v w : JValue P} :
    read payloadDepth (some v) = some w ↔ v.depth payloadDepth ≤ maxDepth ∧ v = w := by
  rw [read, Option.filter]
  split
  · rename_i h
    rw [and_iff_right (of_decide_eq_true h), Option.some_inj]
  · rename_i h
    exact iff_of_false (Option.some_ne_none _).symm fun h' => h (decide_eq_true h'.1)

/-- A list is read back if and only if each of its elements is. -/
theorem mapM_map_eq_some {γ : Type} {f : γ → Option α} {encode : α → γ} {xs : List α} :
    (xs.map encode).mapM f = some xs ↔ ∀ x ∈ xs, f (encode x) = some x := by
  induction xs with
  | nil => exact iff_of_true rfl fun x hx => absurd hx List.not_mem_nil
  | cons x xs ih =>
  rw [List.map_cons, List.mapM_cons, List.forall_mem_cons, ← ih]
  cases f (encode x) with
  | none => simp
  | some y => cases (xs.map encode).mapM f <;> simp

theorem asArr_arr {f : JValue P → Option α} {encode : α → JValue P} {xs : List α} :
    asArr f (arr (xs.map encode)) = some xs ↔ ∀ x ∈ xs, f (encode x) = some x :=
  mapM_map_eq_some

theorem asParsed_str {ε : Type} {parse : List Char → Except ε α} {s : String} {a : α} :
    asParsed parse (str s : JValue P) = some a ↔ parse s.toList = .ok a := by
  rw [asParsed, asStr, Option.bind_some]
  cases parse s.toList with
  | error | ok => simp [Except.toOption]

end JValue

end Skyr
