import Skyr.Sclc.Ast

/-!
# SCL values

What expressions evaluate to.  A value that depends on the outputs of a resource that does not exist
yet is *pending*; a list or a record can have pending parts without being pending itself.  Every
value an evaluation passes on is *tracked*: it comes with the resources it was computed from.

Function values keep what their free variables stood for, tracked, at the place where they were
made.
-/

namespace Skyr.Sclc

/-! ## Dependencies -/

/-- The order of resource ids: by region, type and name. -/
def before (a b : ResourceId) : Bool :=
  a.region.str < b.region.str ||
    (a.region.str == b.region.str && (a.typ < b.typ || (a.typ == b.typ && a.name < b.name)))

/-- A set of resources. -/
abbrev Deps := List ResourceId

def Deps.union (d e : Deps) : Deps := OrdSet.union before d e

/-- Something, and the resources it was computed from. -/
@[ext] structure Tracked (V : Type) where
  value : V
  dependencies : Deps

/-! ## Values -/

/-- A path of the repository, with the package it belongs to and the hash of what is there. -/
structure PathValue where
  path : String
  package : List String
  hash : String
deriving DecidableEq

variable [Floats]

/-- A value. -/
inductive Value
  | nil
  | pending
  | int (n : ℤ)
  | float (x : Floats.F)
  | bool (b : Bool)
  | str (s : String)
  | path (p : PathValue)
  | list (values : List Value)
  /-- A function of the standard library. -/
  | externFn (name : String)
  /-- The function that makes an exception from its payload. -/
  | exceptionFn (exceptionId : ℕ)
  /-- A function.  `selfName` is the name of a function that calls itself, `group` the functions
  that are defined together with this one. -/
  | fn (module : ModuleId) (rawModule : RawModuleId) (site : ℕ) (parameters : List String)
    (captures : List (String × Tracked Value)) (selfName : Option String)
    (group : List (String × Value)) (body : Expr)
  | record (fields : List (String × Value))
  | dict (entries : List (Value × Value))
  | exception (exceptionId : ℕ) (payload : Value)

abbrev TrackedValue := Tracked Value

/-- The fields of a record. -/
abbrev Fields := List (String × Value)

namespace Fields

def insert (fs : Fields) (name : String) (v : Value) : Fields :=
  OrdMap.insert (fun a b => a < b) name v fs

/-- A field that is not there is nil. -/
def get (fs : Fields) (name : String) : Value := (fs.lookup name).getD .nil

end Fields

namespace TrackedValue

/-- A value that depends on nothing. -/
def new (v : Value) : TrackedValue := ⟨v, []⟩

/-- The same value, with more dependencies. -/
def withDependencies (t : TrackedValue) (d : Deps) : TrackedValue :=
  ⟨t.value, t.dependencies.union d⟩

def pendingWith (d : Deps) : TrackedValue := ⟨.pending, d⟩

end TrackedValue

/-! ## Pending parts -/

mutual

/-- Whether a value is pending or has a pending part.  Functions and exceptions are not looked
into. -/
def Value.hasPending : Value → Bool
  | .pending => true
  | .list vs => anyPending vs
  | .record fs => anyFieldPending fs
  | .dict es => anyEntryPending es
  | _ => false

def anyPending : List Value → Bool
  | [] => false
  | v :: vs => v.hasPending || anyPending vs

def anyFieldPending : List (String × Value) → Bool
  | [] => false
  | (_, v) :: fs => v.hasPending || anyFieldPending fs

def anyEntryPending : List (Value × Value) → Bool
  | [] => false
  | (k, v) :: es => k.hasPending || v.hasPending || anyEntryPending es

end

/-- Whether a value is pending as a whole. -/
def Value.isPending : Value → Bool
  | .pending => true
  | _ => false

def Value.isNil : Value → Bool
  | .nil => true
  | _ => false

/-! ## Equality -/

mutual

/-- The comparison of values.  Nothing equals a function of the standard library, and two functions
are equal if they come from the same place and captured equal values. -/
def Value.eq : Value → Value → Bool
  | .nil, .nil => true
  | .pending, .pending => true
  | .int a, .int b => a == b
  | .float a, .float b => Floats.eq a b
  | .bool a, .bool b => a == b
  | .str a, .str b => a == b
  | .path a, .path b => a == b
  | .list vs, .list ws => eqValues vs ws
  | .fn m r s ps cs self g _, .fn m' r' s' ps' cs' self' g' _ =>
    m == m' && r == r' && s == s' && ps == ps' && eqCaptures cs cs' && self == self' &&
      eqRecords g g'
  | .record fs, .record gs => eqRecords fs gs
  | .dict es, .dict es' => eqDicts es es'
  | .exception i p, .exception j q => i == j && p.eq q
  | _, _ => false

def eqValues : List Value → List Value → Bool
  | [], [] => true
  | v :: vs, w :: ws => v.eq w && eqValues vs ws
  | _, _ => false

def eqRecords : List (String × Value) → List (String × Value) → Bool
  | [], [] => true
  | (n, v) :: fs, (m, w) :: gs => n == m && v.eq w && eqRecords fs gs
  | _, _ => false

def eqDicts : List (Value × Value) → List (Value × Value) → Bool
  | [], [] => true
  | (k, v) :: es, (k', v') :: es' => k.eq k' && v.eq v' && eqDicts es es'
  | _, _ => false

def eqCaptures : List (String × Tracked Value) → List (String × Tracked Value) → Bool
  | [], [] => true
  | (n, ⟨v, d⟩) :: cs, (m, ⟨w, e⟩) :: cs' => n == m && v.eq w && d == e && eqCaptures cs cs'
  | _, _ => false

end

/-- The value under a key of a dictionary: that of the first entry whose key is equal. -/
def dictGet (entries : List (Value × Value)) (key : Value) : Option Value :=
  (entries.find? fun e => e.1.eq key).map Prod.snd

/-! ## Printing -/

mutual

/-- The text of a value, as it is put into an interpolated string. -/
def Value.toString : Value → String
  | .nil => "nil"
  | .pending => "<pending>"
  | .int n => ToString.toString n
  | .float x => Floats.toString x
  | .bool b => ToString.toString b
  | .str s => s.quote
  | .path p => p.path
  | .list vs => "[" ++ ", ".intercalate (textsOf vs) ++ "]"
  | .externFn _ | .exceptionFn _ => "<extern fn>"
  | .fn _ _ _ ps _ _ _ _ => "fn(" ++ ", ".intercalate ps ++ ")"
  | .record fs => "\x7b" ++ ", ".intercalate (textsOfFields fs) ++ "\x7d"
  | .dict es => "#\x7b" ++ ", ".intercalate (textsOfEntries es) ++ "\x7d"
  | .exception i _ => "<exception#" ++ ToString.toString i ++ ">"

def textsOf : List Value → List String
  | [] => []
  | v :: vs => v.toString :: textsOf vs

def textsOfFields : List (String × Value) → List String
  | [] => []
  | (n, v) :: fs => (n ++ ": " ++ v.toString) :: textsOfFields fs

def textsOfEntries : List (Value × Value) → List String
  | [] => []
  | (k, v) :: es => (k.toString ++ ": " ++ v.toString) :: textsOfEntries es

end

end Skyr.Sclc
