import Skyr.Lib.Oracle
import Skyr.Sclc.EvalCtx
import Skyr.Sclc.Value

/-!
# The evaluator

Evaluation is written as a program that asks: each resource call is a request, answered by the
outputs of the resource or by nothing.  Which answers are given is up to the context the program
is run in (`EvalCtx.answer`), so one text serves every resource state.

Besides resource calls an evaluation makes *notes*.  They are answered by `()` and bear on nothing;
they record what the evaluation looked at, for statements that compare two runs:

* `opened`: a value was taken apart, one level of it;
* `examined`: a value was looked at in full, by a comparison, by printing, by a function of the
  standard library;
* `silent`: a value has a bearing on what follows, and its dependencies are not among those of the
  result;
* `caught`: an exception was caught.

The recursion is bounded by fuel.  `step` evaluates one node of an expression, given how its parts
are evaluated, and `eval (n + 1)` is `step` around `eval n`.

A program is a list of `Item`s: the globals and recursive groups of all modules in the order in
which they are evaluated, the assembly of the modules' values, and the expression statements.
-/

namespace Skyr.Sclc

variable [Floats]

/-! ## Errors -/

/-- What an evaluation can fail with. -/
inductive EvalErrorKind
  | missingExtern (name : String)
  | unexpectedValue (v : Value)
  | invalidNumericResult (msg : String)
  | divisionByZero
  | integerOverflow (op : String)
  | invalidComparison (op : BinaryOp) (lhs rhs : Value)
  | custom (msg : String)
  | exception (exceptionId : ℕ) (payload : Value) (name : String)
  | stackOverflow

/-- Why an evaluation ends without a value. -/
inductive Stop
  | error (kind : EvalErrorKind)
  /-- The division of the smallest integer by `-1` brings the process down. -/
  | panicked
  | exhausted

/-- Something computed without asking. -/
abbrev Computed (α : Type) := Except Stop α

/-! ## Numbers -/

def checkedInt (op : String) (n : ℤ) : Computed Value :=
  if -2 ^ 63 ≤ n ∧ n < 2 ^ 63 then .ok (.int n) else .error (.error (.integerOverflow op))

def notNan (desc : String) : Option Floats.F → Computed Value
  | some x => .ok (.float x)
  | none => .error (.error (.invalidNumericResult (desc ++ " produced NaN")))

/-- The arithmetic operators other than division. -/
def evalNumericArithmetic (op : String) (intOp : ℤ → ℤ → ℤ)
    (floatOp : Floats.F → Floats.F → Option Floats.F) : Value → Value → Computed Value
  | .int a, .int b => checkedInt op (intOp a b)
  | .float a, .float b => notNan op (floatOp a b)
  | .int a, .float b => notNan op (floatOp (Floats.ofInt a) b)
  | .float a, .int b => notNan op (floatOp a (Floats.ofInt b))
  | lhs, _ => .error (.error (.unexpectedValue lhs))

/-- Division.  Integers are divided towards zero. -/
def evalNumericDivision : Value → Value → Computed Value
  | .int a, .int b =>
    if b = 0 then .error (.error .divisionByZero)
    else if a = -2 ^ 63 ∧ b = -1 then .error .panicked
    else .ok (.int (a.tdiv b))
  | .float a, .float b =>
    if Floats.isZero b then .error (.error .divisionByZero)
    else notNan "/" (Floats.div a b)
  | .int a, .float b =>
    if Floats.isZero b then .error (.error .divisionByZero)
    else notNan "/" (Floats.div (Floats.ofInt a) b)
  | .float a, .int b =>
    if b = 0 then .error (.error .divisionByZero)
    else notNan "/" (Floats.div a (Floats.ofInt b))
  | lhs, _ => .error (.error (.unexpectedValue lhs))

def evalNumericComparison (op : BinaryOp) (intCmp : ℤ → ℤ → Bool)
    (floatCmp : Floats.F → Floats.F → Bool) : Value → Value → Computed Value
  | .int a, .int b => .ok (.bool (intCmp a b))
  | .float a, .float b => .ok (.bool (floatCmp a b))
  | .int a, .float b => .ok (.bool (floatCmp (Floats.ofInt a) b))
  | .float a, .int b => .ok (.bool (floatCmp a (Floats.ofInt b)))
  | lhs, rhs => .error (.error (.invalidComparison op lhs rhs))

/-- The operators that evaluate both operands, on values that are not pending.  The last case is
never reached. -/
def evalBinaryValues : BinaryOp → Value → Value → Computed Value
  | .add, .str a, .str b => .ok (.str (a ++ b))
  | .add, a, b => evalNumericArithmetic "+" (· + ·) Floats.add a b
  | .sub, a, b => evalNumericArithmetic "-" (· - ·) Floats.sub a b
  | .mul, a, b => evalNumericArithmetic "*" (· * ·) Floats.mul a b
  | .div, a, b => evalNumericDivision a b
  | .eq, a, b => .ok (.bool (a.eq b))
  | .neq, a, b => .ok (.bool (!a.eq b))
  | .lt, a, b => evalNumericComparison .lt (· < ·) Floats.lt a b
  | .lte, a, b => evalNumericComparison .lte (· ≤ ·) Floats.le a b
  | .gt, a, b => evalNumericComparison .gt (· > ·) (fun x y => Floats.lt y x) a b
  | .gte, a, b => evalNumericComparison .gte (· ≥ ·) (fun x y => Floats.le y x) a b
  | .and, _, _ | .or, _, _ | .nilCoalesce, _, _ => .error .panicked

/-- The unary operators.  The smallest integer is its own negative. -/
def evalUnaryValue : UnaryOp → Value → Computed Value
  | .negate, .int n => .ok (.int (if n = -2 ^ 63 then n else -n))
  | .negate, .float x =>
    match Floats.neg x with
    | some y => .ok (.float y)
    | none => .error (.error (.invalidNumericResult "unary - produced NaN"))
  | .not, .bool b => .ok (.bool !b)
  | _, v => .error (.error (.unexpectedValue v))

/-- Whether an operator compares its operands in full. -/
def BinaryOp.isEquality : BinaryOp → Bool
  | .eq | .neq => true
  | _ => false

variable {v u a : Value}

/-! ## Functions of the standard library -/

/-- A resource, as a function of the standard library asks for it. -/
structure ResourceRequest where
  region : Option RegionId
  typ : String
  name : String
  inputs : Fields

/-- The functions of the standard library are of three kinds. -/
inductive Extern
  /-- Computes with its first `arity` arguments, and is pending if one of them has a pending
  part. -/
  | strict (arity : ℕ) (f : List Value → Computed Value)
  | first
  /-- Asks for a resource, with its argument as the configuration, and makes a record of the
  outputs. -/
  | resource (prepare : Fields → Computed (ResourceRequest × (Fields → Computed Fields)))

/-- What an evaluation is given: the region of resources that name none, the functions of the
standard library, and what is known about the paths of the repository. -/
structure Evaluator where
  region : RegionId
  externs : String → Option Extern
  path : ModuleId → List String → PathValue

/-! ## Environments -/

/-- The globals evaluated so far, the imports of each module, and the modules that are a single
expression. -/
structure GlobalEvalEnv where
  values : List (GlobalKey × TrackedValue)
  importMaps : List (RawModuleId × List (String × RawModuleId))
  scleModules : List RawModuleId

namespace GlobalEvalEnv

def get (g : GlobalEvalEnv) (key : GlobalKey) : Option TrackedValue := g.values.lookup key

def insert (g : GlobalEvalEnv) (key : GlobalKey) (t : TrackedValue) : GlobalEvalEnv :=
  ⟨(key, t) :: g.values, g.importMaps, g.scleModules⟩

def resolveImportAlias (g : GlobalEvalEnv) (name : String) (module : RawModuleId) :
    Option RawModuleId :=
  (g.importMaps.lookup module).bind (·.lookup name)

/-- A global of the module, or else the value of a module it imports. -/
def resolveVariable (g : GlobalEvalEnv) (name : String) (module : RawModuleId) :
    Option TrackedValue :=
  match g.get (.global module name) with
  | some t => some t
  | none => (g.resolveImportAlias name module).bind fun target => g.get (.moduleValue target)

end GlobalEvalEnv

/-- Where an expression is evaluated: its module, the locals (the innermost first), the globals, and
the package on whose behalf resources are asked for. -/
structure EvalEnv where
  module : ModuleId
  rawModule : RawModuleId
  scope : PackageId
  locals : List (String × TrackedValue)
  globals : GlobalEvalEnv

namespace EvalEnv

def withLocal (env : EvalEnv) (name : String) (t : TrackedValue) : EvalEnv :=
  ⟨env.module, env.rawModule, env.scope, (name, t) :: env.locals, env.globals⟩

/-- The value of a variable.  One that means nothing is nil. -/
def evalVarName (env : EvalEnv) (name : String) : TrackedValue :=
  match env.locals.lookup name with
  | some t => t
  | none => (env.globals.resolveVariable name env.rawModule).getD (.new .nil)

def captures (env : EvalEnv) (names : List String) : List (String × TrackedValue) :=
  names.map fun x => (x, env.evalVarName x)

end EvalEnv

/-- A member of a recursive group, with the group known to it. -/
def Value.wired (group : List (String × Value)) : Value → Value
  | .fn m r s ps cs self _ body => .fn m r s ps cs self group body
  | v => v

/-! ## Requests -/

/-- What an evaluation looked at. -/
inductive Note
  | opened (t : TrackedValue)
  | examined (t : TrackedValue)
  | silent (t : TrackedValue)
  | caught

/-- What an evaluation asks.  A resource is asked for on behalf of the package whose global is being
evaluated, with what was computed from the configuration `config`. -/
inductive Ask
  | resource (package : PackageId) (config : TrackedValue) (r : ResourceRequest)
  | note (n : Note)

/-- The resource that is asked for, where `region` is the region of those that name none. -/
def ResourceRequest.id (r : ResourceRequest) (region : RegionId) : ResourceId :=
  ⟨r.region.getD region, r.typ, r.name⟩

@[reducible] def Ask.Resp : Ask → Type
  | .resource _ _ _ => Option Fields
  | .note _ => Unit

abbrev EvalM (α : Type) := Prog Ask.Resp Stop α

def note (n : Note) : EvalM Unit := .ask (.note n) fun _ => .ret ()

def failing {α : Type} (kind : EvalErrorKind) : EvalM α := .fail (.error kind)

def ofComputed {α : Type} : Computed α → EvalM α
  | .ok a => pure a
  | .error stop => .fail stop

/-- Go on with `h` where an exception was raised; other errors are passed on. -/
def recover {α : Type} (body : EvalM α) (h : ℕ → Value → String → EvalM α) : EvalM α := do
  match ← body.attempt with
  | .ok a => pure a
  | .error (.error (.exception i payload name)) =>
    note .caught
    h i payload name
  | .error stop => .fail stop

/-! ## One node of an expression

`rec` evaluates the parts. -/

section Step

variable (ev : Evaluator) (rec : EvalEnv → Expr → EvalM TrackedValue)

/-- All dependencies of some values. -/
def allDependencies (ts : List TrackedValue) : Deps :=
  ts.foldl (fun d t => d.union t.dependencies) []

/-- The list of some values. -/
def listOf (ts : List TrackedValue) : TrackedValue :=
  ⟨.list (ts.map Tracked.value), allDependencies ts⟩

/-- The first `n` arguments; those that are missing are nil. -/
def firstArgs (n : ℕ) (args : List TrackedValue) : List TrackedValue :=
  (args ++ List.replicate n (TrackedValue.new .nil)).take n

/-- What becomes of the answer to a resource call. -/
def answered (id : ResourceId) (result : Fields → Computed Fields) :
    Option Fields → EvalM TrackedValue
  | none => pure (.pendingWith [id])
  | some outputs => do
    let fields ← ofComputed (result outputs)
    pure ⟨.record fields, [id]⟩

/-- A call of a function of the standard library. -/
def callExtern (env : EvalEnv) (args : List TrackedValue) : Extern → EvalM TrackedValue
  | .strict arity f => do
    let args := firstArgs arity args
    if args.any fun t => t.value.hasPending then pure (.pendingWith (allDependencies args))
    else do
      args.forM fun t => note (.examined t)
      let v ← ofComputed (f (args.map Tracked.value))
      pure ⟨v, allDependencies args⟩
  | .first => pure (args.headD (.new .nil))
  | .resource prepare => do
    let config := args.headD (.new .nil)
    if config.value.hasPending then pure (.pendingWith config.dependencies)
    else
      match config.value with
      | .record fields => do
        let (r, result) ← ofComputed (prepare fields)
        .ask (.resource env.scope config r) (answered (r.id ev.region) result)
      | other => failing (.unexpectedValue other)

/-- The environment of a function's body: what it captured, itself, the group it belongs to, and its
arguments, each hiding those before. -/
def fnEnv (env : EvalEnv) (self : Value) (module : ModuleId) (rawModule : RawModuleId)
    (parameters : List String) (captures : List (String × TrackedValue))
    (selfName : Option String) (group : List (String × Value)) (args : List TrackedValue) :
    EvalEnv :=
  ⟨module, rawModule, env.scope,
    (parameters.zip args).reverse ++
      ((group.map fun m => (m.1, .new (m.2.wired group))).reverse ++
        ((selfName.toList.map fun x => (x, .new self)) ++ captures.reverse)),
    env.globals⟩

/-- A call of something that is not pending, without the dependencies of the function itself. -/
def callValue (env : EvalEnv) (callee : Value) (args : List TrackedValue) : EvalM TrackedValue :=
  match callee with
  | .fn m r _ ps cs self group body => rec (fnEnv env callee m r ps cs self group args) body
  | .externFn name =>
    match ev.externs name with
    | some f => callExtern ev env args f
    | none => failing (.missingExtern name)
  | .exceptionFn i => do
    let payload := args.headD (.new .nil)
    note (.silent payload)
    pure (.new (.exception i payload.value))
  | other => failing (.unexpectedValue other)

def evalCall (env : EvalEnv) (callee : Expr) (args : List Expr) : EvalM TrackedValue := do
  let f ← rec env callee
  let ts ← args.mapM (rec env)
  if f.value.isPending then pure (.pendingWith f.dependencies)
  else do
    let t ← callValue ev rec env f.value ts
    pure (t.withDependencies f.dependencies)

/-- The second operand of `and` and `or`, when the first one leaves the matter open. -/
def evalSecond (env : EvalEnv) (rhs : Expr) (d : Deps) : EvalM TrackedValue := do
  let r ← rec env rhs
  match r.value with
  | .pending => pure (r.withDependencies d)
  | .bool _ => pure (r.withDependencies d)
  | other => failing (.unexpectedValue other)

/-- `and` and `or`: an operand equal to `short` decides. -/
def evalLogic (env : EvalEnv) (short : Bool) (l : TrackedValue) (rhs : Expr) :
    EvalM TrackedValue :=
  match l.value with
  | .bool b => if b = short then pure l else evalSecond rec env rhs l.dependencies
  | other => failing (.unexpectedValue other)

/-- The operators that evaluate both operands. -/
def evalBoth (env : EvalEnv) (op : BinaryOp) (l : TrackedValue) (rhs : Expr) :
    EvalM TrackedValue := do
  let r ← rec env rhs
  if r.value.isPending then do
    note (.silent l)
    pure (.pendingWith r.dependencies)
  else do
    if op.isEquality then do
      note (.examined l)
      note (.examined r)
    let v ← ofComputed (evalBinaryValues op l.value r.value)
    pure ⟨v, r.dependencies.union l.dependencies⟩

def evalBinary (env : EvalEnv) (op : BinaryOp) (lhs rhs : Expr) : EvalM TrackedValue := do
  let l ← rec env lhs
  if l.value.isPending then pure (.pendingWith l.dependencies)
  else
    match op with
    | .nilCoalesce =>
      if l.value.isNil then do
        note (.silent l)
        rec env rhs
      else pure l
    | .and => evalLogic rec env false l rhs
    | .or => evalLogic rec env true l rhs
    | op => evalBoth rec env op l rhs

def evalUnary (env : EvalEnv) (op : UnaryOp) (e : Expr) : EvalM TrackedValue := do
  let t ← rec env e
  if t.value.isPending then pure (.pendingWith t.dependencies)
  else do
    let v ← ofComputed (evalUnaryValue op t.value)
    pure ⟨v, t.dependencies⟩

/-- A conditional; `none` stands for a missing `else`. -/
def evalIf (env : EvalEnv) (condition thenExpr : Expr) (elseExpr : Option Expr) :
    EvalM TrackedValue := do
  let c ← rec env condition
  match c.value with
  | .pending => pure c
  | .bool true => do
    note (.silent c)
    rec env thenExpr
  | .bool false => do
    note (.silent c)
    match elseExpr with
    | some e => rec env e
    | none => pure (.new .nil)
  | other => failing (.unexpectedValue other)

def evalInterp (env : EvalEnv) : List Expr → String → Deps → EvalM TrackedValue
  | [], out, d => pure ⟨.str out, d⟩
  | e :: es, out, d => do
    let t ← rec env e
    let d := d.union t.dependencies
    if t.value.isPending then pure (.pendingWith d)
    else do
      note (.examined t)
      match t.value with
      | .str s => evalInterp env es (out ++ s) d
      | v => evalInterp env es (out ++ v.toString) d

def evalRecord (env : EvalEnv) : List (String × Expr) → Fields → Deps → EvalM TrackedValue
  | [], fields, d => pure ⟨.record fields, d⟩
  | (name, e) :: rest, fields, d => do
    let t ← rec env e
    -- A field that is there already is overwritten.
    if (fields.lookup name).isSome then note (.opened ⟨.record fields, d⟩)
    evalRecord env rest (fields.insert name t.value) (d.union t.dependencies)

def evalDict (env : EvalEnv) : List (Expr × Expr) → List (Value × Value) → Deps → EvalM TrackedValue
  | [], entries, d => pure ⟨.dict entries, d⟩
  | (k, e) :: rest, entries, d => do
    let key ← rec env k
    let t ← rec env e
    let d := (d.union key.dependencies).union t.dependencies
    if key.value.isPending || t.value.isPending then pure (.pendingWith d)
    else do
      note (.opened key)
      note (.opened t)
      evalDict env rest (entries ++ [(key.value, t.value)]) d

/-- What an item of a list comes to: more elements, or the list is pending. -/
inductive ListItemOutcome
  | complete (out : List TrackedValue)
  | pending (dependencies : Deps)

namespace ListItemOutcome

/-- The same, with more dependencies if it is pending. -/
def withDependencies (d : Deps) : ListItemOutcome → ListItemOutcome
  | complete out => complete out
  | pending e => pending (e.union d)

end ListItemOutcome

/-- An emission for each of some values, until one is pending. -/
def forEachValue (emit : TrackedValue → List TrackedValue → EvalM ListItemOutcome) (d : Deps) :
    List Value → List TrackedValue → EvalM ListItemOutcome
  | [], out => pure (.complete out)
  | v :: vs, out => do
    match ← emit ⟨v, d⟩ out with
    | .complete out => forEachValue emit d vs out
    | .pending e => pure (.pending (e.union d))

/-- An item of a list literal, behind the elements in `out`. -/
def evalListItem (env : EvalEnv) : ListItem → List TrackedValue → EvalM ListItemOutcome
  | .expr e, out => do
    let t ← rec env e
    pure (.complete (out ++ [t]))
  | .ifThen condition item, out => do
    let c ← rec env condition
    match c.value with
    | .bool true => do
      note (.silent c)
      let o ← evalListItem env item out
      pure (o.withDependencies c.dependencies)
    | .bool false => do
      note (.silent c)
      pure (.complete out)
    | .pending => pure (.pending c.dependencies)
    | other => failing (.unexpectedValue other)
  | .forEach x iterable item, out => do
    let t ← rec env iterable
    match t.value with
    | .list vs => do
      note (.silent t)
      forEachValue (fun v out => evalListItem (env.withLocal x v) item out) t.dependencies vs out
    | .pending => pure (.pending t.dependencies)
    | other => failing (.unexpectedValue other)

def evalList (env : EvalEnv) : List ListItem → List TrackedValue → EvalM TrackedValue
  | [], out => pure (listOf out)
  | item :: items, out => do
    match ← evalListItem rec env item out with
    | .complete out => evalList env items out
    | .pending d => pure (.pendingWith d)

/-- The global an import name and a property name together stand for. -/
def importedGlobal (env : EvalEnv) (x property : String) : Option TrackedValue :=
  match env.globals.resolveImportAlias x env.rawModule with
  | some target =>
    if target ∈ env.globals.scleModules then none else env.globals.get (.global target property)
  | none => none

/-- The same for any expression in front of the property. -/
def directGlobal (env : EvalEnv) (property : String) : Expr → Option TrackedValue
  | .var x => importedGlobal env x property
  | _ => none

def evalPropertyAccess (env : EvalEnv) (e : Expr) (property : String) (optional : Bool) :
    EvalM TrackedValue :=
  match directGlobal env property e with
  | some t => pure t
  | none => do
    let t ← rec env e
    match t.value with
    | .pending => pure (.pendingWith t.dependencies)
    | .nil => if optional then pure ⟨.nil, t.dependencies⟩ else failing (.unexpectedValue .nil)
    | .record fields => do
      note (.opened t)
      pure ⟨Fields.get fields property, t.dependencies⟩
    | other => failing (.unexpectedValue other)

def evalIndexedAccess (env : EvalEnv) (e index : Expr) : EvalM TrackedValue := do
  let t ← rec env e
  match t.value with
  | .pending => pure (.pendingWith t.dependencies)
  | .dict entries => do
    note (.opened t)
    let i ← rec env index
    let d := t.dependencies.union i.dependencies
    if i.value.isPending then pure (.pendingWith d)
    else do
      note (.examined t)
      note (.examined i)
      pure ⟨(dictGet entries i.value).getD .nil, d⟩
  | .list vs => do
    note (.opened t)
    let i ← rec env index
    let d := t.dependencies.union i.dependencies
    match i.value with
    | .pending => pure (.pendingWith d)
    | .int n => pure ⟨if 0 ≤ n then vs.getD n.toNat .nil else .nil, d⟩
    | other => failing (.unexpectedValue other)
  | other => failing (.unexpectedValue other)

/-- The name an exception is reported under. -/
def raisedName : Expr → String
  | .var x => x
  | .call (.var x) _ _ => x
  | _ => "exception"

def evalRaise (env : EvalEnv) (e : Expr) : EvalM TrackedValue := do
  let t ← rec env e
  match t.value with
  | .pending => pure (.pendingWith t.dependencies)
  | .exception i payload => failing (.exception i payload (raisedName e))
  | other => failing (.unexpectedValue other)

/-- The exception a catch clause is for.  One that takes a payload is asked with the payload that
was raised. -/
def catchTarget (env : EvalEnv) (payload : Value) (target : Value) : EvalM ℕ :=
  match target with
  | .exception i _ => pure i
  | .fn .. | .externFn _ | .exceptionFn _ => do
    let t ← callValue ev rec env target [.new payload]
    match t.value with
    | .exception i _ => pure i
    | other => failing (.unexpectedValue other)
  | other => failing (.unexpectedValue other)

/-- The environment of a catch clause's body.  Only a clause whose exception takes a payload binds
it. -/
def catchEnv (env : EvalEnv) (payload target : Value) (arg : Option String) : EvalEnv :=
  match target, arg with
  | .exception _ _, _ => env
  | _, some x => env.withLocal x (.new payload)
  | _, none => env

/-- The catch clauses in turn; without a match the exception is raised again. -/
def evalCatches (env : EvalEnv) (i : ℕ) (payload : Value) (name : String) :
    List (String × Option String × Expr) → EvalM TrackedValue
  | [] => failing (.exception i payload name)
  | (x, arg, body) :: rest => do
    let target := (env.evalVarName x).value
    let j ← catchTarget ev rec env payload target
    if j = i then rec (catchEnv env payload target arg) body
    else evalCatches env i payload name rest

/-- Evaluate one node of an expression. -/
def step (env : EvalEnv) : Expr → EvalM TrackedValue
  | .int n => pure (.new (.int n))
  | .float x => pure (.new (.float x))
  | .bool b => pure (.new (.bool b))
  | .nil => pure (.new .nil)
  | .str s => pure (.new (.str s))
  | .path segments => pure (.new (.path (ev.path env.module segments)))
  | .externExpr name _ =>
    match ev.externs name with
    | some _ => pure (.new (.externFn name))
    | none => failing (.missingExtern name)
  | .ifThen c t => evalIf rec env c t none
  | .ifElse c t e => evalIf rec env c t (some e)
  | .letIn x _ b e => do
    let t ← rec env b
    rec (env.withLocal x t) e
  | .fn site tps ps body =>
    pure (.new (.fn env.module env.rawModule site (ps.map Prod.fst)
      (env.captures (Expr.fn site tps ps body).freeVars) none [] body))
  | .call f _ args => evalCall ev rec env f args
  | .unary op e => evalUnary rec env op e
  | .binary op l r => evalBinary rec env op l r
  | .var x => pure (env.evalVarName x)
  | .record fields => evalRecord rec env fields [] []
  | .dict entries => evalDict rec env entries [] []
  | .list items => evalList rec env items []
  | .interp parts => evalInterp rec env parts "" []
  | .propertyAccess e p o => evalPropertyAccess rec env e p o
  | .indexedAccess e i => evalIndexedAccess rec env e i
  | .typeCast e _ => rec env e
  | .exception i ty =>
    match ty with
    | some _ => pure (.new (.exceptionFn i))
    | none => pure (.new (.exception i .nil))
  | .raise e => evalRaise rec env e
  | .tryCatch e cs =>
    recover (rec env e) fun i payload name => evalCatches ev rec env i payload name cs

end Step

/-- Evaluate an expression, to a depth of at most `n` nodes. -/
def eval (ev : Evaluator) : ℕ → EvalEnv → Expr → EvalM TrackedValue
  | 0, _, _ => .fail .exhausted
  | n + 1, env, e => step ev (eval ev n) env e

/-! ## Programs -/

/-- A module, under the names it goes by. -/
structure ModuleNode where
  id : ModuleId
  raw : RawModuleId
  package : PackageId

/-- A step of a program's evaluation. -/
inductive Item
  /-- A global.  `selfEdge` is set if it refers to itself. -/
  | global (m : ModuleNode) (name : String) (e : Expr) (selfEdge : Bool)
  /-- Globals that refer to each other. -/
  | group (members : List (ModuleNode × String × Expr))
  | exports (m : ModuleNode) (names : List String)
  | scle (m : ModuleNode) (body : Expr)
  | statement (m : ModuleNode) (e : Expr)

/-- Where the globals of a module are evaluated. -/
def EvalEnv.top (g : GlobalEvalEnv) (m : ModuleNode) : EvalEnv := ⟨m.id, m.raw, m.package, [], g⟩

/-- The function a global's literal stands for, without capturing the names in `skip`. -/
def globalFn (env : EvalEnv) (skip : List String) (selfName : Option String) : Expr → Option Value
  | .fn site tps ps body =>
    some (.fn env.module env.rawModule site (ps.map Prod.fst)
      (env.captures ((Expr.fn site tps ps body).freeVars.filter (· ∉ skip))) selfName [] body)
  | _ => none

/-- A global that refers to itself is a function, or nil. -/
def buildSelfRecursiveFn (env : EvalEnv) (name : String) (e : Expr) : TrackedValue :=
  .new ((globalFn env [name] (some name) e).getD .nil)

section Program

variable (ev : Evaluator) (fuel : ℕ)

def evalSingletonGlobal (g : GlobalEvalEnv) (m : ModuleNode) (name : String) (e : Expr)
    (selfEdge : Bool) : EvalM GlobalEvalEnv :=
  match g.get (.global m.raw name) with
  | some _ => pure g
  | none => do
    let t ← if selfEdge then pure (buildSelfRecursiveFn (.top g m) name e)
      else eval ev fuel (.top g m) e
    pure (g.insert (.global m.raw name) t)

/-- The first pass over a recursive group: the functions, not yet aware of each other.  What is not
a function becomes nil at once. -/
def preliminary (names : List String) :
    List (ModuleNode × String × Expr) → GlobalEvalEnv → List (String × Value) →
      GlobalEvalEnv × List (String × Value)
  | [], g, fns => (g, fns)
  | (m, name, e) :: rest, g, fns =>
    match globalFn (.top g m) names none e with
    | some f => preliminary names rest g (fns ++ [(name, f)])
    | none => preliminary names rest (g.insert (.global m.raw name) (.new .nil)) fns

/-- The second pass: each function is stored with the group. -/
def storeGroup (fns : List (String × Value)) :
    List (ModuleNode × String × Expr) → GlobalEvalEnv → GlobalEvalEnv
  | [], g => g
  | (m, name, _) :: rest, g =>
    match fns.lookup name with
    | some f => storeGroup fns rest (g.insert (.global m.raw name) (.new (f.wired fns)))
    | none => storeGroup fns rest g

def evalRecursiveGroup (g : GlobalEvalEnv) (members : List (ModuleNode × String × Expr)) :
    GlobalEvalEnv :=
  if members.all fun p => (g.get (.global p.1.raw p.2.1)).isSome then g
  else
    let (g, fns) := preliminary (members.map fun p => p.2.1) members g []
    storeGroup fns members g

/-- The exports of a module that have a value, as a record. -/
def exportRecord (g : GlobalEvalEnv) (m : ModuleNode) :
    List String → Fields → Deps → TrackedValue
  | [], fields, d => ⟨.record fields, d⟩
  | name :: names, fields, d =>
    match g.get (.global m.raw name) with
    | some t => exportRecord g m names (fields.insert name t.value) (d.union t.dependencies)
    | none => exportRecord g m names fields d

def evalItem (g : GlobalEvalEnv) : Item → EvalM GlobalEvalEnv
  | .global m name e selfEdge => evalSingletonGlobal ev fuel g m name e selfEdge
  | .group members => pure (evalRecursiveGroup g members)
  | .exports m names => pure (g.insert (.moduleValue m.raw) (exportRecord g m names [] []))
  | .scle m body => do
    let t ← eval ev fuel (.top g m) body
    pure (g.insert (.moduleValue m.raw) t)
  | .statement m e => do
    let _ ← eval ev fuel (.top g m) e
    pure g

/-- Evaluate a program. -/
def evalProgram (items : List Item) (g : GlobalEvalEnv) : EvalM GlobalEvalEnv :=
  items.foldlM (evalItem ev fuel) g

/-- Evaluate a program, and after it an expression in one of its modules. -/
def evalAfter (items : List Item) (g : GlobalEvalEnv) (m : ModuleNode) (e : Expr) :
    EvalM TrackedValue := do
  let g ← evalProgram ev fuel items g
  eval ev fuel (.top g m) e

end Program

end Skyr.Sclc
