import Skyr.Lib.Prog
import Skyr.Sclc.Assign
import Skyr.Sclc.Ast
import Skyr.Sclc.Props

/-!
# Where a type is checked

The checker is written as a program over the requests `Inquiry`.  Most of what it does is
computation; what it asks for is a new origin, a verdict of one of the three procedures that need
not come to an end (assignability, the inference of type arguments, refinement), and access to the
constraints on the types of globals that are being checked.  And it reports.  What the surroundings
do with a request is said by `Checking.act`, and `drive` runs a check with some fuel for the
procedures.

The second half of the module resolves type expressions.  A type that has a name is taken over as it
is, *with its origins*: every occurrence of the name is the same type node by node.
-/

namespace Skyr.Sclc

/-! ## Messages -/

/-- What is wrong.  Types are shown without their origins. -/
inductive Issue
  | undefinedVariable (name : String)
  | undefinedMember (name : String) (ty : Shape)
  | invalidIndexTarget (ty : Shape)
  | notAFunction (ty : Shape)
  | missingArguments (expected got : ℕ)
  | extraneousArgument (index : ℕ)
  | invalidBinaryOperands (op : BinaryOp) (lhs rhs : Shape)
  | optionalChainOnNonOptional (ty : Shape)
  | nilCoalesceOnNonOptional (ty : Shape)
  | invalidUnaryOperand (op : UnaryOp) (operand : Shape)
  | missingParameterType
  | disjointEquality (lhs rhs : Shape)
  | invalidType (error : TypeError)
  | notAnException (ty : Shape)
  | invalidCatchTarget (ty : Shape)
  | unexpectedCatchArg
  | wrongTypeArgCount (expected got : ℕ)
  | unexpectedTypeArgs
  | typeArgBoundViolation (actual bound : Shape)
  | unknownType (name : String)
  | unknownField (name : String)
  | cyclicDependency (names : List String)

/-- An issue, and the module it is in. -/
structure Diag where
  module : ModuleId
  issue : Issue

/-! ## Requests -/

/-- What the checker asks for. -/
inductive Inquiry
  /-- A number that was not used before. -/
  | fresh
  | report (d : Diag)
  /-- Whether `rhs` can be assigned to `lhs`. -/
  | assign (bounds : Bounds) (lhs rhs : Shape)
  /-- The type arguments of a call; new nodes get the origin `origin`. -/
  | infer (origin : ℕ) (bounds : Bounds) (f : FnType ℕ) (args : List (Ty ℕ))
  | refine (proven : ProvenSet) (ty : Ty ℕ)
  /-- Forget all constraints. -/
  | reset
  /-- Constrain a type variable from now on. -/
  | register (x : ℕ)
  /-- Whether a type variable is one that is being constrained. -/
  | isFree (x : ℕ)
  | constrain (x : ℕ) (lower : Ty ℕ)
  /-- Solve the constraints, given the types that were found for some variables. -/
  | solve (origin : ℕ) (bindings : List (ℕ × Ty ℕ))

namespace Inquiry

@[reducible] def Resp : Inquiry → Type
  | fresh => ℕ
  | assign _ _ _ => Except TypeError Unit
  | infer _ _ _ _ => Except TypeError (List (ℕ × Ty ℕ))
  | refine _ _ => Ty ℕ
  | isFree _ => Bool
  | solve _ _ => List (ℕ × Ty ℕ)
  | _ => Unit

/-- What the surroundings decide: the verdict of a procedure that need not end. -/
@[reducible] def Verdict : Inquiry → Type
  | assign _ _ _ => Except TypeError Unit
  | infer _ _ _ _ => Except TypeError (List (ℕ × Ty ℕ))
  | refine _ _ => Ty ℕ
  | _ => Unit

end Inquiry

/-! ## Constraints

While a global is checked that refers to itself, its type is a variable.  What the body needs of the
type is collected as a lower bound for the variable. -/

/-- The variables that are being constrained, and what is known about each. -/
abbrev FreeVarConstraints := List (ℕ × Ty ℕ)

/-- The fields of a record type with one more. -/
def insertField (fields : List (String × Ty ℕ)) (name : String) (t : Ty ℕ) :
    List (String × Ty ℕ) :=
  OrdMap.insert (fun a b => a < b) name t fields

namespace FreeVarConstraints

/-- Nothing is known about a variable yet. -/
def register (c : FreeVarConstraints) (x : ℕ) : FreeVarConstraints :=
  (x, .never x) :: c.filter fun b => b.1 ≠ x

/-- Two lower bounds: `Never` gives way, record types are joined, and otherwise the first one
stays. -/
def merge (current lower : Ty ℕ) : Ty ℕ :=
  match current, lower with
  | .never _, lower => lower
  | .record i fields, .record _ more =>
    .record i (more.foldl (fun fields f =>
      if (fields.lookup f.1).isSome then fields else insertField fields f.1 f.2) fields)
  | current, _ => current

def constrain (c : FreeVarConstraints) (x : ℕ) (lower : Ty ℕ) : FreeVarConstraints :=
  c.map fun b => if b.1 = x then (x, merge b.2 lower) else b

mutual

/-- Walk through a constraint and a type side by side, and take what stands in the place of a
variable as its solution.  The first one counts. -/
def unifyConstraint : Ty ℕ → Ty ℕ → List (ℕ × Ty ℕ) → List (ℕ × Ty ℕ)
  | .var _ x, t, solutions =>
    if t.shape = .var () x ∨ (solutions.lookup x).isSome then solutions else (x, t) :: solutions
  | .record _ cs, .record _ bs, solutions => unifyFields cs bs solutions
  | .fn _ _ cps cr, .fn _ _ bps br, solutions =>
    if cps.length = bps.length then unifyConstraint cr br (unifyAll cps bps solutions)
    else solutions
  | .list _ c, .list _ b, solutions => unifyConstraint c b solutions
  | .optional _ c, .optional _ b, solutions => unifyConstraint c b solutions
  | .dict _ ck cv, .dict _ bk bv, solutions =>
    unifyConstraint cv bv (unifyConstraint ck bk solutions)
  | _, _, solutions => solutions

def unifyFields : List (String × Ty ℕ) → List (String × Ty ℕ) → List (ℕ × Ty ℕ) →
    List (ℕ × Ty ℕ)
  | [], _, solutions => solutions
  | (name, c) :: cs, bs, solutions =>
    match bs.lookup name with
    | some b => unifyFields cs bs (unifyConstraint c b solutions)
    | none => unifyFields cs bs solutions

def unifyAll : List (Ty ℕ) → List (Ty ℕ) → List (ℕ × Ty ℕ) → List (ℕ × Ty ℕ)
  | c :: cs, b :: bs, solutions => unifyAll cs bs (unifyConstraint c b solutions)
  | _, _, solutions => solutions

end

/-- A substitution for every constrained variable.  The variables of the bindings themselves, and
those nothing is known about, become `Never`. -/
def solveMulti (c : FreeVarConstraints) (origin : ℕ) (bindings : List (ℕ × Ty ℕ)) :
    List (ℕ × Ty ℕ) :=
  let solutions := bindings.foldl (fun solutions b =>
    match c.lookup b.1 with
    | some constraint => unifyConstraint constraint b.2 solutions
    | none => solutions) []
  c.map fun b =>
    (b.1,
      if (bindings.lookup b.1).isSome then .never origin
      else
        match solutions.lookup b.1 with
        | some t => t
        | none => if b.2.isNever then .never origin else b.2)

end FreeVarConstraints

/-! ## What requests do -/

/-- The state of a check. -/
structure Checking where
  /-- The next number that was not used before. -/
  next : ℕ
  constraints : FreeVarConstraints

namespace Checking

/-- Nothing is constrained, and all numbers are free. -/
def start : Checking := ⟨0, []⟩

/-- The reply to a request, and the state after it. -/
def act : (o : Inquiry) → o.Verdict → Checking → o.Resp × Checking
  | .fresh, _, s => (s.next, ⟨s.next + 1, s.constraints⟩)
  | .report _, _, s => ((), s)
  | .assign _ _ _, r, s => (r, s)
  | .infer _ _ _ _, r, s => (r, s)
  | .refine _ _, r, s => (r, s)
  | .reset, _, s => ((), ⟨s.next, []⟩)
  | .register x, _, s => ((), ⟨s.next, s.constraints.register x⟩)
  | .isFree x, _, s => ((s.constraints.lookup x).isSome, s)
  | .constrain x lower, _, s => ((), ⟨s.next, s.constraints.constrain x lower⟩)
  | .solve origin bindings, _, s => (s.constraints.solveMulti origin bindings, s)

end Checking

/-- An expression is nested more deeply than the bound allows; the program itself has none. -/
structure TooDeep

/-- A part of the checker. -/
abbrev CheckM (α : Type) := Prog Inquiry.Resp TooDeep α

/-- Collect the reports instead of making them. -/
def collect {α : Type} : CheckM α → CheckM (α × List Diag)
  | .ret a => .ret (a, [])
  | .fail e => .fail e
  | .ask (.report d) k => (fun r => (r.1, d :: r.2)) <$> collect (k ())
  | .ask o k => .ask o fun r => collect (k r)
  | .choose k => .choose fun b => collect (k b)

/-- Drop the reports. -/
def mute {α : Type} (p : CheckM α) : CheckM α := Prod.fst <$> collect p

/-- Make reports that were collected. -/
def emit (ds : List Diag) : CheckM Unit := ds.forM fun d => .ask (.report d) .ret

/-! ## Running the checker

With some fuel for the procedures a check can be run. -/

namespace Inquiry

/-- The verdict the procedures come to within some fuel. -/
def verdict (fuel : ℕ) : (o : Inquiry) → Option o.Verdict
  | assign bounds lhs rhs => (assignTypeWithBounds fuel bounds lhs rhs).run
  | infer origin bounds f args =>
    (inferTypeArgs (assignTypeWithBounds fuel) fuel origin bounds f args).run
  | refine proven ty => proven.refineType fuel ty
  | fresh => some ()
  | report _ => some ()
  | reset => some ()
  | register _ => some ()
  | isFree _ => some ()
  | constrain _ _ => some ()
  | solve _ _ => some ()

end Inquiry

/-- How a run of a check ends. -/
inductive Driven (α : Type)
  | done (r : Except TooDeep α) (s : Checking)
  /-- The fuel does not suffice for a request. -/
  | stuck (o : Inquiry) (s : Checking)

/-- Run a check, with some fuel for the procedures. -/
def drive {α : Type} (fuel : ℕ) : CheckM α → Checking → Driven α
  | .ret a, s => .done (.ok a) s
  | .fail e, s => .done (.error e) s
  | .ask o k, s =>
    match o.verdict fuel with
    | some v => drive fuel (k (Checking.act o v s).1) (Checking.act o v s).2
    | none => .stuck o s
  | .choose k, s => drive fuel (k true) s

def fresh : CheckM ℕ := .ask .fresh .ret

/-- A new node of a type. -/
def node (make : ℕ → Ty ℕ) : CheckM (Ty ℕ) := do
  let i ← fresh
  pure (make i)

/-- The type of nil. -/
def nilTy : CheckM (Ty ℕ) := do
  let never ← node .never
  node (.optional · never)

/-- A type unfolded, where the copies of a recursive type share a new origin. -/
def unfolded (t : Ty ℕ) : CheckM (Ty ℕ) := do
  let i ← fresh
  pure (t.unfold i)

/-! ## Environments -/

/-- The types of globals and of type declarations found so far, the imports of each module, and the
modules that are a single expression. -/
structure GlobalTypeEnv where
  types : List (GlobalKey × Ty ℕ)
  importMaps : List (RawModuleId × List (String × RawModuleId))
  scleModules : List RawModuleId

namespace GlobalTypeEnv

def get (g : GlobalTypeEnv) (key : GlobalKey) : Option (Ty ℕ) := g.types.lookup key

def insert (g : GlobalTypeEnv) (key : GlobalKey) (t : Ty ℕ) : GlobalTypeEnv :=
  ⟨(key, t) :: g.types, g.importMaps, g.scleModules⟩

def resolveImportAlias (g : GlobalTypeEnv) (name : String) (module : RawModuleId) :
    Option RawModuleId :=
  (g.importMaps.lookup module).bind (·.lookup name)

/-- The type of a global of the module, or else of a module it imports. -/
def resolveVariable (g : GlobalTypeEnv) (name : String) (module : RawModuleId) : Option (Ty ℕ) :=
  match g.get (.global module name) with
  | some t => some t
  | none => (g.resolveImportAlias name module).bind fun target => g.get (.moduleValue target)

/-- A type declared in the module, or else the types of a module it imports. -/
def resolveType (g : GlobalTypeEnv) (name : String) (module : RawModuleId) : Option (Ty ℕ) :=
  match g.get (.typeDecl module name) with
  | some t => some t
  | none => (g.resolveImportAlias name module).bind fun target => g.get (.moduleTypeLevel target)

end GlobalTypeEnv

/-- Where an expression is checked: its module, the variables and type variables in scope (the
innermost first), the upper bounds of type variables, and what is proven. -/
structure TypeEnv where
  module : ModuleId
  rawModule : RawModuleId
  globals : GlobalTypeEnv
  locals : List (String × Ty ℕ)
  typeVars : List (String × Ty ℕ)
  bounds : List (ℕ × Ty ℕ)
  proven : ProvenSet

namespace TypeEnv

def withLocal (env : TypeEnv) (name : String) (t : Ty ℕ) : TypeEnv :=
  { env with locals := (name, t) :: env.locals }

def withTypeVar (env : TypeEnv) (name : String) (t : Ty ℕ) : TypeEnv :=
  { env with typeVars := (name, t) :: env.typeVars }

def withTypeVarBound (env : TypeEnv) (x : ℕ) (bound : Ty ℕ) : TypeEnv :=
  { env with bounds := (x, bound) :: env.bounds }

def withPropositions (env : TypeEnv) (props : List Proposition) : TypeEnv :=
  { env with proven := env.proven.withPropositions props }

/-- The upper bound of a type variable; any other type stands for itself. -/
def resolveVarBound (env : TypeEnv) : Ty ℕ → Ty ℕ
  | .var i x => (env.bounds.lookup x).getD (.var i x)
  | t => t

end TypeEnv

def report (env : TypeEnv) (issue : Issue) : CheckM Unit := .ask (.report ⟨env.module, issue⟩) .ret

/-- Report an issue, and go on with a type that fits everywhere. -/
def reportNever (env : TypeEnv) (issue : Issue) : CheckM (Ty ℕ) := do
  report env issue
  node .never

/-- Whether a type is assignable to another one, without bounds for type variables. -/
def isAssignableFrom (lhs rhs : Ty ℕ) : CheckM (Except TypeError Unit) :=
  .ask (.assign [] lhs.shape rhs.shape) .ret

/-- The same under the bounds in scope. -/
def assignTypeIn (env : TypeEnv) (lhs rhs : Ty ℕ) : CheckM (Except TypeError Unit) :=
  .ask (.assign (Ty.shapeBounds env.bounds) lhs.shape rhs.shape) .ret

def isFreeVar (x : ℕ) : CheckM Bool := .ask (.isFree x) .ret

/-- The variable a type is, if it is one that is being constrained. -/
def freeVarOf : Ty ℕ → CheckM (Option ℕ)
  | .var _ x => do if ← isFreeVar x then pure (some x) else pure none
  | _ => pure none

def constrain (x : ℕ) (lower : Ty ℕ) : CheckM Unit := .ask (.constrain x lower) .ret

def register (x : ℕ) : CheckM Unit := .ask (.register x) .ret

/-! ## Type expressions -/

/-- The types that have a name everywhere. -/
def builtinType : String → Option (ℕ → Ty ℕ)
  | "Any" => some .any
  | "Never" => some .never
  | "Int" => some (.prim · .int)
  | "Float" => some (.prim · .float)
  | "Bool" => some (.prim · .bool)
  | "Str" => some (.prim · .str)
  | "Path" => some (.prim · .path)
  | _ => none

/-- What a name stands for.  A declared type is taken over with its origins. -/
def resolveTypeName (env : TypeEnv) (name : String) : CheckM (Ty ℕ) :=
  match builtinType name with
  | some make => node make
  | none =>
    match env.typeVars.lookup name with
    | some t => pure t
    | none =>
      match env.globals.resolveType name env.rawModule with
      | some t => pure t
      | none => reportNever env (.unknownType name)

/-- A member of the types of a module. -/
def resolveMember (env : TypeEnv) (property : String) : Ty ℕ → CheckM (Ty ℕ)
  | .never _ => node .never
  | .record i fields =>
    match fields.lookup property with
    | some t => pure t
    | none => reportNever env (.undefinedMember property (Ty.record i fields).shape)
  | t => reportNever env (.undefinedMember property t.shape)

/-- Check the arguments of a generic type against the bounds of its parameters. -/
def checkTypeArgs (env : TypeEnv) (σ : List (ℕ × Ty ℕ)) :
    List ((ℕ × Ty ℕ) × Ty ℕ) → CheckM Unit
  | [] => pure ()
  | ((_, bound), arg) :: rest => do
    let bound := bound.substitute σ
    match ← isAssignableFrom bound arg with
    | .ok _ => pure ()
    | .error _ => report env (.typeArgBoundViolation arg.shape bound.shape)
    checkTypeArgs env σ rest

mutual

def resolveTypeExpr (env : TypeEnv) : TypeExpr → CheckM (Ty ℕ)
  | .var name => resolveTypeName env name
  | .optional e => do
    let t ← resolveTypeExpr env e
    node (.optional · t)
  | .list e => do
    let t ← resolveTypeExpr env e
    node (.list · t)
  | .fn tps ps r => do
    let (env, tps) ← resolveTypeParams false env tps
    let ps ← resolveAll env ps
    let r ← resolveTypeExpr env r
    node (.fn · tps ps r)
  | .record fields => do
    let fields ← resolveFields env fields []
    node (.record · fields)
  | .dict k v => do
    let k ← resolveTypeExpr env k
    let v ← resolveTypeExpr env v
    node (.dict · k v)
  | .propertyAccess e property => do
    let t ← resolveTypeExpr env e
    resolveMember env property t
  | .application e args => do
    match ← resolveTypeExpr env e with
    | .fn _ (tp :: tps) [] body =>
      if tps.length + 1 ≠ args.length then
        reportNever env (.wrongTypeArgCount (tps.length + 1) args.length)
      else do
        let args ← resolveAll env args
        let σ := ((tp :: tps).map Prod.fst).zip args
        checkTypeArgs env σ ((tp :: tps).zip args)
        pure (body.substitute σ)
    | _ => reportNever env .unexpectedTypeArgs

/-- Type parameters, each in scope from its own bound on.  Where values are checked below them,
their bounds are made known. -/
def resolveTypeParams (bounded : Bool) (env : TypeEnv) :
    List (String × TypeExpr) → CheckM (TypeEnv × List (ℕ × Ty ℕ))
  | [] => pure (env, [])
  | (name, bound) :: rest => do
    let x ← fresh
    let v ← node (.var · x)
    let env := env.withTypeVar name v
    let bound ← resolveTypeExpr env bound
    let env := if bounded then env.withTypeVarBound x bound else env
    let (env, rest) ← resolveTypeParams bounded env rest
    pure (env, (x, bound) :: rest)

def resolveAll (env : TypeEnv) : List TypeExpr → CheckM (List (Ty ℕ))
  | [] => pure []
  | e :: es => do
    let t ← resolveTypeExpr env e
    let ts ← resolveAll env es
    pure (t :: ts)

def resolveFields (env : TypeEnv) :
    List (String × TypeExpr) → List (String × Ty ℕ) → CheckM (List (String × Ty ℕ))
  | [], fields => pure fields
  | (name, e) :: rest, fields => do
    let t ← resolveTypeExpr env e
    resolveFields env rest (insertField fields name t)

end

/-- A type that may be written. -/
def resolveOption (env : TypeEnv) : Option TypeExpr → CheckM (Option (Ty ℕ))
  | none => pure none
  | some e => do
    let t ← resolveTypeExpr env e
    pure (some t)

end Skyr.Sclc
