import Skyr.Lib.Ordered
import Skyr.Sclc.EvalCtx

/-!
# The syntax of SCL

Expressions, type expressions and modules, as the parser hands them to the checker and the
evaluator.  Source positions are for messages and are left out, with one exception: a function
literal carries the position of its body, since two function values are equal only if they come
from the same place.  What a parser can produce only from a faulty source (a function without a
body, a `let` without anything after it) is left out as well.
-/

namespace Skyr.Sclc

/-- The floating point numbers of the language: finite or infinite, never a NaN.  Arithmetic that
would produce one has no result. -/
class Floats where
  F : Type
  eq : F → F → Bool
  ofInt : ℤ → F
  isZero : F → Bool
  neg : F → Option F
  add : F → F → Option F
  sub : F → F → Option F
  mul : F → F → Option F
  div : F → F → Option F
  lt : F → F → Bool
  le : F → F → Bool
  toString : F → String

/-- The integers in the place of the floats, for examples. -/
@[reducible] def Floats.int : Floats where
  F := ℤ
  eq x y := x = y
  ofInt := id
  isZero := (· = 0)
  neg x := some (-x)
  add x y := some (x + y)
  sub x y := some (x - y)
  mul x y := some (x * y)
  div x y := some (x / y)
  lt x y := x < y
  le x y := x ≤ y
  toString := ToString.toString

/-! ## Type expressions -/

/-- A type as it is written.  A type parameter without a bound is one with the bound `Any`. -/
inductive TypeExpr
  | var (name : String)
  | optional (inner : TypeExpr)
  | list (inner : TypeExpr)
  | fn (typeParams : List (String × TypeExpr)) (params : List TypeExpr) (ret : TypeExpr)
  | record (fields : List (String × TypeExpr))
  | dict (key value : TypeExpr)
  | propertyAccess (base : TypeExpr) (property : String)
  | application (base : TypeExpr) (args : List TypeExpr)

/-! ## Expressions -/

inductive UnaryOp
  | negate
  | not
deriving DecidableEq

inductive BinaryOp
  | add
  | sub
  | mul
  | div
  | eq
  | neq
  | lt
  | lte
  | gt
  | gte
  | and
  | or
  | nilCoalesce
deriving DecidableEq

variable [Floats]

mutual

/-- An expression. -/
inductive Expr
  | int (n : ℤ)
  | float (x : Floats.F)
  | bool (b : Bool)
  | nil
  | str (s : String)
  | path (segments : List String)
  | externExpr (name : String) (ty : TypeExpr)
  /-- A conditional without an `else`. -/
  | ifThen (condition thenExpr : Expr)
  | ifElse (condition thenExpr elseExpr : Expr)
  | letIn (var : String) (ty : Option TypeExpr) (bind body : Expr)
  /-- A function literal; `site` is the position of its body in the module. -/
  | fn (site : ℕ) (typeParams : List (String × TypeExpr))
    (params : List (String × Option TypeExpr)) (body : Expr)
  | call (callee : Expr) (typeArgs : List TypeExpr) (args : List Expr)
  | unary (op : UnaryOp) (expr : Expr)
  | binary (op : BinaryOp) (lhs rhs : Expr)
  | var (name : String)
  | record (fields : List (String × Expr))
  | dict (entries : List (Expr × Expr))
  | list (items : List ListItem)
  | interp (parts : List Expr)
  /-- `expr.property`, or `expr?.property`. -/
  | propertyAccess (expr : Expr) (property : String) (optional : Bool)
  | indexedAccess (expr index : Expr)
  | typeCast (expr : Expr) (ty : TypeExpr)
  /-- An exception, of its own kind, with or without a payload. -/
  | exception (exceptionId : ℕ) (ty : Option TypeExpr)
  | raise (expr : Expr)
  /-- The clauses name a variable that holds the exception, perhaps one for its payload, and what
  to evaluate. -/
  | tryCatch (expr : Expr) (catches : List (String × Option String × Expr))

/-- An item of a list literal. -/
inductive ListItem
  | expr (e : Expr)
  | ifThen (condition : Expr) (thenItem : ListItem)
  | forEach (var : String) (iterable : Expr) (emitItem : ListItem)

end

/-! ## Free variables -/

mutual

/-- The free variables of an expression. -/
def Expr.freeVars : Expr → List String
  | .int _ | .float _ | .bool _ | .nil | .str _ | .path _ | .externExpr _ _ | .exception _ _ => []
  | .ifThen c t => c.freeVars ++ t.freeVars
  | .ifElse c t e => c.freeVars ++ t.freeVars ++ e.freeVars
  | .letIn x _ b e => b.freeVars ++ e.freeVars.filter (· ≠ x)
  | .fn _ _ ps b => b.freeVars.filter (· ∉ ps.map Prod.fst)
  | .call f _ as => f.freeVars ++ freeVarsAll as
  | .unary _ e => e.freeVars
  | .binary _ l r => l.freeVars ++ r.freeVars
  | .var x => [x]
  | .record fs => freeVarsFields fs
  | .dict es => freeVarsEntries es
  | .list is => freeVarsItems is
  | .interp ps => freeVarsAll ps
  | .propertyAccess e _ _ => e.freeVars
  | .indexedAccess e i => e.freeVars ++ i.freeVars
  | .typeCast e _ => e.freeVars
  | .raise e => e.freeVars
  | .tryCatch e cs => e.freeVars ++ freeVarsCatches cs

def freeVarsAll : List Expr → List String
  | [] => []
  | e :: es => e.freeVars ++ freeVarsAll es

def freeVarsFields : List (String × Expr) → List String
  | [] => []
  | (_, e) :: fs => e.freeVars ++ freeVarsFields fs

def freeVarsEntries : List (Expr × Expr) → List String
  | [] => []
  | (k, v) :: es => k.freeVars ++ v.freeVars ++ freeVarsEntries es

def freeVarsItems : List ListItem → List String
  | [] => []
  | i :: is => i.freeVars ++ freeVarsItems is

def ListItem.freeVars : ListItem → List String
  | .expr e => e.freeVars
  | .ifThen c i => c.freeVars ++ i.freeVars
  | .forEach x e i => e.freeVars ++ i.freeVars.filter (· ≠ x)

def freeVarsCatches : List (String × Option String × Expr) → List String
  | [] => []
  | (x, arg, e) :: cs => x :: e.freeVars.filter (some · ≠ arg) ++ freeVarsCatches cs

end

/-! ## Modules -/

/-- The path by which modules name each other. -/
abbrev RawModuleId := List String

instance : LawfulBEq RawModuleId := inferInstanceAs (LawfulBEq (List String))

/-- A global or a type declaration, or all that a module exports, as a value or as a type. -/
inductive GlobalKey
  | global (module : RawModuleId) (name : String)
  | typeDecl (module : RawModuleId) (name : String)
  | moduleValue (module : RawModuleId)
  | moduleTypeLevel (module : RawModuleId)
deriving DecidableEq

end Skyr.Sclc
