import Skyr.Sclc.TypeEnv

/-!
# Checking expressions

An expression is checked in one of two modes: its type is synthesized, or it is checked against a
type that is expected.  Most forms know only the first and compare afterwards
(`synthThenSubsume`).  Besides a type, a check yields propositions for the scopes that the value
will be tested in.

`rec` checks the parts of an expression.  As in the evaluator, the recursion is bounded by a number
(`infer`), which does not stand for anything in the program.

Three places deserve attention.  Looking up a variable refines its type (`synthVar`).  A call of a
global that is still being checked only records what the call needs (`synthCallFreeVar`), and what
was reported about its parts is lost.  And where a generic function is called without type
arguments, they are inferred from arguments that are checked once more afterwards (`inferCall`).
-/

namespace Skyr.Sclc

/-- What checking an expression yields. -/
structure TypeSynth where
  ty : Ty ℕ
  props : List Proposition

/-- A type without propositions. -/
def TypeSynth.new (t : Ty ℕ) : TypeSynth := ⟨t, []⟩

/-! ## Operators -/

/-- The result of an arithmetic operator. -/
def arithmeticResult (op : BinaryOp) : Ty ℕ → Ty ℕ → Option Prim
  | .prim _ .int, .prim _ .int => some .int
  | .prim _ .float, .prim _ .float => some .float
  | .prim _ .int, .prim _ .float => some .float
  | .prim _ .float, .prim _ .int => some .float
  | .prim _ .str, .prim _ .str => if op = .add then some .str else none
  | _, _ => none

/-- The result of an ordering. -/
def comparisonResult : Ty ℕ → Ty ℕ → Option Prim
  | .prim _ .int, .prim _ .int => some .bool
  | .prim _ .float, .prim _ .float => some .bool
  | .prim _ .int, .prim _ .float => some .bool
  | .prim _ .float, .prim _ .int => some .bool
  | _, _ => none

/-- The result of `and` and `or`. -/
def logicalResult : Ty ℕ → Ty ℕ → Option Prim
  | .prim _ .bool, .prim _ .bool => some .bool
  | _, _ => none

/-- Whether this is the type of nil. -/
def isNilType : Ty ℕ → Bool
  | .optional _ (.never _) => true
  | _ => false

/-- What a comparison with nil says about the other operand: its origin, and its type if it is not
nil. -/
def comparedWithNil (lhs rhs : Ty ℕ) : Option (ℕ × Ty ℕ) :=
  let operand := if isNilType rhs then some lhs else if isNilType lhs then some rhs else none
  match operand with
  | some (.optional i inner) => some (i, inner)
  | _ => none

def nilComparisonProps (op : BinaryOp) (result : ℕ) (lhs rhs : Ty ℕ) :
    CheckM (List Proposition) :=
  match comparedWithNil lhs rhs with
  | none => pure []
  | some (i, inner) => do
    let nil ← nilTy
    match op with
    | .neq => pure [.implies (.isTrue result) (.refinesTo i inner),
        .implies (.not (.isTrue result)) (.refinesTo i nil)]
    | .eq => pure [.implies (.not (.isTrue result)) (.refinesTo i inner),
        .implies (.isTrue result) (.refinesTo i nil)]
    | _ => pure []

variable [Floats]

def asBoolLiteral : Expr → Option Bool
  | .bool b => some b
  | _ => none

/-- What a comparison with a boolean literal says about the other operand. -/
def boolLiteralComparisonProps (op : BinaryOp) (result : ℕ) (lhs rhs : Expr) (lhsTy rhsTy : Ty ℕ) :
    List Proposition :=
  let operand :=
    match asBoolLiteral lhs, asBoolLiteral rhs with
    | some b, none => some (rhsTy.id, b)
    | none, some b => some (lhsTy.id, b)
    | _, _ => none
  match operand with
  | none => []
  | some (i, b) =>
    if op = .eq ∧ b = true ∨ op = .neq ∧ b = false then
      [.implies (.isTrue result) (.isTrue i), .implies (.not (.isTrue result)) (.not (.isTrue i))]
    else if op = .eq ∨ op = .neq then
      [.implies (.isTrue result) (.not (.isTrue i)), .implies (.not (.isTrue result)) (.isTrue i)]
    else []

/-! ## One node of an expression -/

/-- Check that a type fits where another one is expected.  A type that is being constrained is not
compared but constrained further. -/
def subsumptionCheck (env : TypeEnv) (actual expected : Ty ℕ) : CheckM Unit := do
  match ← freeVarOf actual with
  | some x => constrain x expected
  | none =>
    match ← freeVarOf expected with
    | some x => constrain x actual
    | none =>
      match ← assignTypeIn env expected actual with
      | .ok _ => pure ()
      | .error e => report env (.invalidType e)

/-- The same where a type may be expected. -/
def subsumeInto (env : TypeEnv) (actual : Ty ℕ) : Option (Ty ℕ) → CheckM Unit
  | none => pure ()
  | some expected => subsumptionCheck env actual expected

/-- The type of a variable is refined where it is looked up. -/
def refineIn (env : TypeEnv) (t : Ty ℕ) : CheckM TypeSynth := do
  let t ← .ask (.refine env.proven t) .ret
  pure (.new t)

def synthVar (env : TypeEnv) (x : String) : CheckM TypeSynth :=
  match env.locals.lookup x with
  | some t => refineIn env t
  | none =>
    match env.globals.resolveVariable x env.rawModule with
    | some t => refineIn env t
    | none => do
      let never ← reportNever env (.undefinedVariable x)
      pure (.new never)

section Step

variable (rec : TypeEnv → Expr → Option (Ty ℕ) → CheckM TypeSynth)

/-- Synthesize a type and compare. -/
def synthThenSubsume (env : TypeEnv) (e : Expr) (expected : Ty ℕ) : CheckM TypeSynth := do
  let r ← rec env e none
  subsumptionCheck env r.ty expected
  pure r

/-- The propositions of a conditional: those of a branch hold if the branch is taken. -/
def wrapBranchProps (i : ℕ) (thenProps elseProps condProps : List Proposition) :
    List Proposition :=
  condProps ++ thenProps.map (.implies (.isTrue i)) ++
    elseProps.map (.implies (.not (.isTrue i)))

/-- A conditional; `none` stands for a missing `else`. -/
def checkIf (env : TypeEnv) (c t : Expr) (e : Option Expr) (expected : Option (Ty ℕ)) :
    CheckM TypeSynth := do
  let cond ← rec env c none
  let bool ← node (.prim · .bool)
  subsumptionCheck env cond.ty bool
  let thenEnv := env.withPropositions (cond.props ++ [.isTrue cond.ty.id])
  let elseEnv := env.withPropositions (cond.props ++ [.not (.isTrue cond.ty.id)])
  let thenSynth ← rec thenEnv t none
  let thenTy ← unfolded thenSynth.ty
  match e with
  | some e => do
    let elseSynth ← rec elseEnv e (some thenTy)
    subsumeInto env thenTy expected
    pure ⟨thenTy, wrapBranchProps cond.ty.id thenSynth.props elseSynth.props cond.props⟩
  | none => do
    let ty ← if thenTy.isOptional then pure thenTy else node (.optional · thenTy)
    subsumeInto env ty expected
    pure ⟨ty, cond.props⟩

def checkLet (env : TypeEnv) (x : String) (ty : Option TypeExpr) (b e : Expr)
    (expected : Option (Ty ℕ)) : CheckM TypeSynth := do
  let annotated ← resolveOption env ty
  let bind ← rec env b annotated
  rec ((env.withLocal x (annotated.getD bind.ty)).withPropositions bind.props) e expected

/-! ### Functions -/

/-- The parameters of a function literal.  One without a type is `Never` in the body and `Any` from
outside. -/
def synthParams (env : TypeEnv) :
    List (String × Option TypeExpr) → CheckM (TypeEnv × List (Ty ℕ))
  | [] => pure (env, [])
  | (x, some e) :: ps => do
    let t ← resolveTypeExpr env e
    let (env, ts) ← synthParams (env.withLocal x t) ps
    pure (env, t :: ts)
  | (x, none) :: ps => do
    report env .missingParameterType
    let never ← node .never
    let any ← node .any
    let (env, ts) ← synthParams (env.withLocal x never) ps
    pure (env, any :: ts)

def synthFn (env : TypeEnv) (tps : List (String × TypeExpr)) (ps : List (String × Option TypeExpr))
    (body : Expr) : CheckM TypeSynth := do
  let (env, tps) ← resolveTypeParams true env tps
  let (env, ps) ← synthParams env ps
  let r ← rec env body none
  let f ← node (.fn · tps ps r.ty)
  pure (.new f)

/-- The parameters of a function literal where a function type is expected, which supplies the types
that are missing. -/
def checkParams (env : TypeEnv) :
    List (String × Option TypeExpr) → List (Ty ℕ) → CheckM (TypeEnv × List (Ty ℕ))
  | [], _ => pure (env, [])
  | (x, some e) :: ps, expected => do
    let t ← resolveTypeExpr env e
    match expected with
    | [] => pure ()
    | u :: _ => subsumptionCheck env u t
    let (env, ts) ← checkParams (env.withLocal x t) ps expected.tail
    pure (env, t :: ts)
  | (x, none) :: ps, u :: expected => do
    let (env, ts) ← checkParams (env.withLocal x u) ps expected
    pure (env, u :: ts)
  | (x, none) :: ps, [] => do
    report env .missingParameterType
    let any ← node .any
    let (env, ts) ← checkParams (env.withLocal x any) ps []
    pure (env, any :: ts)

def checkFn (env : TypeEnv) (site : ℕ) (tps : List (String × TypeExpr))
    (ps : List (String × Option TypeExpr)) (body : Expr) (expected : Ty ℕ) :
    CheckM TypeSynth := do
  match ← unfolded expected with
  | .fn _ _ expectedParams expectedRet => do
    let (fnEnv, tps) ← resolveTypeParams true env tps
    let (fnEnv, ps) ← checkParams fnEnv ps expectedParams
    let r ← rec fnEnv body (some expectedRet)
    let f ← node (.fn · tps ps r.ty)
    subsumptionCheck env f expected
    pure (.new f)
  | _ => synthThenSubsume rec env (.fn site tps ps body) expected

/-! ### Calls -/

/-- The function type with all type parameters forgotten: anything is accepted, nothing returned. -/
def fallbackFnTy (f : FnType ℕ) : CheckM (FnType ℕ) := do
  let anys ← f.typeParams.mapM fun b => (b.1, ·) <$> node .any
  let nevers ← f.typeParams.mapM fun b => (b.1, ·) <$> node .never
  pure ⟨[], f.params.map (Ty.substitute anys), f.ret.substitute nevers⟩

/-- The type arguments of a call, each checked against its bound. -/
def resolveTypeArgs (env : TypeEnv) :
    List ((ℕ × Ty ℕ) × TypeExpr) → CheckM (List (ℕ × Ty ℕ))
  | [] => pure []
  | ((x, bound), e) :: rest => do
    let t ← resolveTypeExpr env e
    match ← assignTypeIn env bound t with
    | .ok _ => pure ()
    | .error _ => report env (.typeArgBoundViolation t.shape bound.shape)
    let rest ← resolveTypeArgs env rest
    pure ((x, t) :: rest)

def instantiateCallTypeArgs (env : TypeEnv) (typeArgs : List TypeExpr) (f : FnType ℕ) :
    CheckM (FnType ℕ) :=
  if typeArgs.isEmpty then pure f
  else if f.typeParams.isEmpty then do
    report env .unexpectedTypeArgs
    pure f
  else if typeArgs.length ≠ f.typeParams.length then do
    report env (.wrongTypeArgCount f.typeParams.length typeArgs.length)
    fallbackFnTy f
  else do
    let σ ← resolveTypeArgs env (f.typeParams.zip typeArgs)
    pure (f.instantiate σ)

/-- The arguments of a call against the types of the parameters.  The result holds the types of
those that have a parameter. -/
def checkArgs (env : TypeEnv) : List (Ty ℕ) → List Expr → ℕ → CheckM (List (Ty ℕ))
  | p :: ps, e :: es, i => do
    let r ← rec env e (some p)
    let ts ← checkArgs env ps es (i + 1)
    pure (r.ty :: ts)
  | [], _ :: es, i => do
    report env (.extraneousArgument i)
    checkArgs env [] es (i + 1)
  | _, [], _ => pure []

/-- The arguments of a call, with a report if there are not enough. -/
def checkAllArgs (env : TypeEnv) (ps : List (Ty ℕ)) (es : List Expr) : CheckM (List (Ty ℕ)) := do
  if es.length < ps.length then report env (.missingArguments ps.length es.length)
  checkArgs rec env ps es 0

def checkArgsAndReturn (env : TypeEnv) (f : FnType ℕ) (es : List Expr) : CheckM TypeSynth := do
  let _ ← checkAllArgs rec env f.params es
  pure (.new f.ret)

/-- Infer the type arguments of a call. -/
def inferTypeArgsIn (env : TypeEnv) (f : FnType ℕ) (args : List (Ty ℕ)) :
    CheckM (Except TypeError (List (ℕ × Ty ℕ))) := do
  let i ← fresh
  .ask (.infer i (Ty.shapeBounds env.bounds) f args) .ret

/-- What the parameters are checked against while some type arguments are not known: their
bounds. -/
def provisional (f : FnType ℕ) (solved : List (ℕ × Ty ℕ)) : List (ℕ × Ty ℕ) :=
  f.typeParams.map fun b =>
    match solved.lookup b.1 with
    | some t => (b.1, if t.isNever then b.2 else t)
    | none => b

/-- A call whose type arguments are left open. -/
def inferCall (env : TypeEnv) (f : FnType ℕ) (es : List Expr) : CheckM TypeSynth := do
  let args ← es.mapM fun e => TypeSynth.ty <$> mute (rec env e none)
  match ← inferTypeArgsIn env f args with
  | .error _ => do
    let f ← fallbackFnTy f
    checkArgsAndReturn rec env f es
  | .ok solved =>
    if solved.any fun b => b.2.isNever then do
      let actual ← checkAllArgs rec env (f.params.map (Ty.substitute (provisional f solved))) es
      match ← inferTypeArgsIn env f actual with
      | .ok σ => pure (.new (f.ret.substitute σ))
      | .error _ => pure (.new (f.ret.substitute solved))
    else checkArgsAndReturn rec env (f.instantiate solved) es

/-- A call of a global that is being checked.  Nothing that was found in the arguments is
reported. -/
def synthCallFreeVar (env : TypeEnv) (x : ℕ) (es : List Expr) : CheckM TypeSynth := do
  let args ← es.mapM fun e => TypeSynth.ty <$> mute (rec env e none)
  let y ← fresh
  let ret ← node (.var · y)
  register y
  let f ← node (.fn · [] args ret)
  constrain x f
  pure (.new ret)

def synthCall (env : TypeEnv) (callee : Expr) (typeArgs : List TypeExpr) (es : List Expr) :
    CheckM TypeSynth := do
  let (f, ds) ← collect (rec env callee none)
  let raw ← unfolded f.ty
  let calleeTy ← unfolded (env.resolveVarBound raw)
  match calleeTy with
  | .never _ => do
    emit ds
    let never ← node .never
    pure (.new never)
  | calleeTy =>
    match ← freeVarOf raw with
    -- what was found in the callee is dropped as well
    | some x => synthCallFreeVar rec env x es
    | none => do
      emit ds
      match calleeTy with
      | .fn _ tps ps r => do
        let f ← instantiateCallTypeArgs env typeArgs ⟨tps, ps, r⟩
        if f.typeParams.isEmpty then checkArgsAndReturn rec env f es else inferCall rec env f es
      | t => do
        let never ← reportNever env (.notAFunction t.shape)
        pure (.new never)

/-! ### Operators -/

def synthUnary (env : TypeEnv) (op : UnaryOp) (e : Expr) : CheckM TypeSynth := do
  let r ← rec env e none
  let t ← unfolded r.ty
  match op, t with
  | _, .never _ => do
    let never ← node .never
    pure ⟨never, r.props⟩
  | .negate, .prim _ .int => do
    let int ← node (.prim · .int)
    pure ⟨int, r.props⟩
  | .negate, .prim _ .float => do
    let float ← node (.prim · .float)
    pure ⟨float, r.props⟩
  | .not, .prim i .bool => do
    let bool ← node (.prim · .bool)
    pure ⟨bool, r.props ++ [.implies (.isTrue bool.id) (.not (.isTrue i)),
      .implies (.not (.isTrue bool.id)) (.isTrue i)]⟩
  | op, t => do
    let never ← reportNever env (.invalidUnaryOperand op t.shape)
    pure ⟨never, r.props⟩

/-- The type of a result, or a report that there is none. -/
def resultOr (env : TypeEnv) (issue : Issue) : Option Prim → CheckM (Ty ℕ)
  | some p => node (.prim · p)
  | none => reportNever env issue

/-- `and` and `or`: the second operand is checked under what the first one must have been. -/
def synthLogical (env : TypeEnv) (op : BinaryOp) (l : TypeSynth) (rhs : Expr) :
    CheckM TypeSynth := do
  let assumption : Proposition :=
    if op = .and then .isTrue l.ty.id else .not (.isTrue l.ty.id)
  let r ← rec (env.withPropositions [assumption]) rhs none
  let rTy ← unfolded r.ty
  let ty ← resultOr env (.invalidBinaryOperands op l.ty.shape rTy.shape) (logicalResult l.ty rTy)
  let props := l.props ++ r.props.map (.implies assumption)
  if op = .and then
    pure ⟨ty, props ++ [.implies (.isTrue ty.id) (.isTrue l.ty.id),
      .implies (.isTrue ty.id) (.isTrue rTy.id)]⟩
  else
    pure ⟨ty, props ++ [.implies (.not (.isTrue ty.id)) (.not (.isTrue l.ty.id)),
      .implies (.not (.isTrue ty.id)) (.not (.isTrue rTy.id))]⟩

/-- A comparison of types neither of which can hold a value of the other. -/
def isDisjointFrom (lhs rhs : Ty ℕ) : CheckM Bool := do
  match ← isAssignableFrom lhs rhs with
  | .ok _ => pure false
  | .error _ =>
    match ← isAssignableFrom rhs lhs with
    | .ok _ => pure false
    | .error _ => pure true

def synthEquality (env : TypeEnv) (op : BinaryOp) (lhs rhs : Expr) (l r : Ty ℕ) :
    CheckM TypeSynth := do
  if ← isDisjointFrom l r then report env (.disjointEquality l.shape r.shape)
  let bool ← node (.prim · .bool)
  let props ← nilComparisonProps op bool.id l r
  pure ⟨bool, props ++ boolLiteralComparisonProps op bool.id lhs rhs l r⟩

/-- The operators that check both operands alike; `props` are those of the operands. -/
def synthBoth (env : TypeEnv) (op : BinaryOp) (lhs rhs : Expr) (l r : Ty ℕ)
    (props : List Proposition) : CheckM TypeSynth :=
  if l.isNever || r.isNever then do
    let never ← node .never
    pure ⟨never, props⟩
  else
    match op with
    | .eq | .neq => do
      let s ← synthEquality env op lhs rhs l r
      pure ⟨s.ty, props ++ s.props⟩
    | .lt | .lte | .gt | .gte => do
      let ty ← resultOr env (.invalidBinaryOperands op l.shape r.shape) (comparisonResult l r)
      pure ⟨ty, props⟩
    | op => do
      let ty ← resultOr env (.invalidBinaryOperands op l.shape r.shape) (arithmeticResult op l r)
      pure ⟨ty, props⟩

def synthNilCoalesce (env : TypeEnv) (l : TypeSynth) (rhs : Expr) : CheckM TypeSynth :=
  match l.ty with
  | .never _ => do
    let never ← node .never
    pure ⟨never, l.props⟩
  | .optional _ inner => do
    let r ← rec env rhs (some inner)
    pure ⟨inner, l.props ++ r.props⟩
  | t => do
    let never ← reportNever env (.nilCoalesceOnNonOptional t.shape)
    pure ⟨never, l.props⟩

def synthBinary (env : TypeEnv) (op : BinaryOp) (lhs rhs : Expr) : CheckM TypeSynth := do
  let l ← rec env lhs none
  let lTy ← unfolded l.ty
  match op with
  | .nilCoalesce => synthNilCoalesce rec env ⟨lTy, l.props⟩ rhs
  | .and | .or => synthLogical rec env op ⟨lTy, l.props⟩ rhs
  | op => do
    let r ← rec env rhs none
    let rTy ← unfolded r.ty
    synthBoth env op lhs rhs lTy rTy (l.props ++ r.props)

/-! ### Collections -/

/-- The fields of a record literal, each checked against the type `expected` has for it, if any. -/
def checkFields (env : TypeEnv) (expected : List (String × Ty ℕ)) :
    List (String × Expr) → List (String × Ty ℕ) → List Proposition →
      CheckM (List (String × Ty ℕ) × List Proposition)
  | [], fields, props => pure (fields, props)
  | (name, e) :: rest, fields, props => do
    let r ← rec env e (expected.lookup name)
    checkFields env expected rest (insertField fields name r.ty) (props ++ r.props)

def synthRecord (env : TypeEnv) (fields : List (String × Expr)) : CheckM TypeSynth := do
  let (fields, props) ← checkFields rec env [] fields [] []
  let ty ← node (.record · fields)
  pure ⟨ty, props⟩

/-- The type of the literal is that of its own fields; of the expected ones only optional ones may
be missing. -/
def checkRecordAgainst (env : TypeEnv) (fields : List (String × Expr))
    (expected : List (String × Ty ℕ)) : CheckM TypeSynth := do
  let (found, props) ← checkFields rec env expected fields [] []
  let ty ← node (.record · found)
  if expected.any fun f => (found.lookup f.1).isNone && !f.2.isOptional then
    report env (.invalidType ⟨.mismatch (Ty.record () (Ty.shapeFields expected)) ty.shape, none⟩)
  fields.forM fun f =>
    if (expected.lookup f.1).isNone then report env (.unknownField f.1) else pure ()
  pure ⟨ty, props⟩

def checkRecord (env : TypeEnv) (fields : List (String × Expr)) (expected : Ty ℕ) :
    CheckM TypeSynth := do
  match ← unfolded expected with
  | .record _ expectedFields => checkRecordAgainst rec env fields expectedFields
  | _ => synthThenSubsume rec env (.record fields) expected

/-- Entries of a dictionary against the types of keys and values. -/
def checkEntries (env : TypeEnv) (k v : Ty ℕ) :
    List (Expr × Expr) → List Proposition → CheckM (List Proposition)
  | [], props => pure props
  | (ke, ve) :: rest, props => do
    let key ← rec env ke (some k)
    let value ← rec env ve (some v)
    checkEntries env k v rest (props ++ key.props ++ value.props)

def synthDict (env : TypeEnv) : List (Expr × Expr) → CheckM TypeSynth
  | [] => do
    let k ← node .never
    let v ← node .never
    let ty ← node (.dict · k v)
    pure (.new ty)
  | (ke, ve) :: rest => do
    let key ← rec env ke none
    let k ← unfolded key.ty
    let value ← rec env ve none
    let v ← unfolded value.ty
    let props ← checkEntries rec env k v rest (key.props ++ value.props)
    let ty ← node (.dict · k v)
    pure ⟨ty, props⟩

def checkDict (env : TypeEnv) (entries : List (Expr × Expr)) : Ty ℕ → CheckM TypeSynth
  | .dict _ k v => do
    let k ← unfolded k
    let v ← unfolded v
    let props ← checkEntries rec env k v entries []
    let ty ← node (.dict · k v)
    pure ⟨ty, props⟩
  | expected => synthThenSubsume rec env (.dict entries) expected

/-- What an iteration goes through. -/
def elementType (env : TypeEnv) : Ty ℕ → CheckM (Ty ℕ)
  | .list _ t => pure t
  | t => do
    let any ← node .any
    let list ← node (.list · any)
    reportNever env (.invalidType ⟨.mismatch list.shape t.shape, none⟩)

/-- An item of a list literal.  Its condition narrows nothing. -/
def checkListItem (env : TypeEnv) : ListItem → Option (Ty ℕ) → CheckM TypeSynth
  | .expr e, expected => rec env e expected
  | .ifThen c item, expected => do
    let bool ← node (.prim · .bool)
    let cond ← rec env c (some bool)
    let r ← checkListItem env item expected
    pure ⟨r.ty, cond.props ++ r.props⟩
  | .forEach x iterable item, expected => do
    let i ← rec env iterable none
    let iTy ← unfolded i.ty
    let element ← elementType env iTy
    let r ← checkListItem (env.withLocal x element) item expected
    pure ⟨r.ty, i.props ++ r.props⟩

def checkItems (env : TypeEnv) (t : Ty ℕ) :
    List ListItem → List Proposition → CheckM (List Proposition)
  | [], props => pure props
  | item :: items, props => do
    let r ← checkListItem rec env item (some t)
    checkItems env t items (props ++ r.props)

def synthList (env : TypeEnv) : List ListItem → CheckM TypeSynth
  | [] => do
    let never ← node .never
    let ty ← node (.list · never)
    pure (.new ty)
  | item :: items => do
    let first ← checkListItem rec env item none
    let t ← unfolded first.ty
    let props ← checkItems rec env t items first.props
    let ty ← node (.list · t)
    pure ⟨ty, props⟩

def checkList (env : TypeEnv) (items : List ListItem) : Ty ℕ → CheckM TypeSynth
  | .list _ t => do
    let t ← unfolded t
    let props ← checkItems rec env t items []
    let ty ← node (.list · t)
    pure ⟨ty, props⟩
  | expected => synthThenSubsume rec env (.list items) expected

def synthInterp (env : TypeEnv) (parts : List Expr) : CheckM TypeSynth := do
  parts.forM fun e => do
    let _ ← rec env e none
  let str ← node (.prim · .str)
  pure (.new str)

/-! ### Access -/

/-- The type of the global that an import name and a property name together stand for. -/
def importedType (env : TypeEnv) (property : String) : Expr → Option (Ty ℕ)
  | .var x =>
    match env.globals.resolveImportAlias x env.rawModule with
    | some target =>
      if target ∈ env.globals.scleModules then none else env.globals.get (.global target property)
    | none => none
  | _ => none

/-- The type of a member of a record. -/
def memberType (property : String) : Ty ℕ → Option (Ty ℕ)
  | .record _ fields => fields.lookup property
  | _ => none

/-- `?.`, on a value of the optional type with origin `source` around `inner`.  The result is
optional itself, so an optional member is not wrapped again. -/
def synthOptionalMember (env : TypeEnv) (source : ℕ) (inner : Ty ℕ) (property : String)
    (props : List Proposition) : CheckM TypeSynth := do
  let resolved ← unfolded inner
  match memberType property resolved with
  | some (.optional field fieldInner) => do
    let ty ← node (.optional · fieldInner)
    pure ⟨ty, props ++ [.implies (.refinesTo ty.id fieldInner) (.refinesTo source inner),
      .implies (.refinesTo ty.id fieldInner) (.refinesTo field fieldInner)]⟩
  | some member => do
    let ty ← node (.optional · member)
    pure ⟨ty, props ++ [.implies (.refinesTo ty.id member) (.refinesTo source inner)]⟩
  | none => do
    let never ← reportNever env (.undefinedMember property inner.shape)
    pure ⟨never, props⟩

/-- A member of a global that is being checked. -/
def synthMemberFreeVar (x : ℕ) (property : String) : CheckM TypeSynth := do
  let y ← fresh
  let member ← node (.var · y)
  register y
  let record ← node (.record · [(property, member)])
  constrain x record
  pure (.new member)

def synthMember (env : TypeEnv) (raw t : Ty ℕ) (property : String) (props : List Proposition) :
    CheckM TypeSynth := do
  match ← freeVarOf raw with
  | some x => synthMemberFreeVar x property
  | none =>
    match memberType property t with
    | some member => pure ⟨member, props⟩
    | none => do
      let never ← reportNever env (.undefinedMember property t.shape)
      pure ⟨never, props⟩

def synthPropertyAccess (env : TypeEnv) (e : Expr) (property : String) (optional : Bool) :
    CheckM TypeSynth :=
  match importedType env property e with
  | some t => pure (.new t)
  | none => do
    let r ← rec env e none
    let raw ← unfolded r.ty
    let t ← unfolded (env.resolveVarBound raw)
    match t, optional with
    | .never _, _ => do
      let never ← node .never
      pure ⟨never, r.props⟩
    | .optional source inner, true => synthOptionalMember env source inner property r.props
    | t, true => do
      let never ← reportNever env (.optionalChainOnNonOptional t.shape)
      pure ⟨never, r.props⟩
    | t, false => synthMember env raw t property r.props

def synthIndexedAccess (env : TypeEnv) (e index : Expr) : CheckM TypeSynth := do
  let r ← rec env e none
  let raw ← unfolded r.ty
  match ← unfolded (env.resolveVarBound raw) with
  | .never _ => do
    let never ← node .never
    pure (.new never)
  | .dict _ k v => do
    let _ ← rec env index (some k)
    let ty ← node (.optional · v)
    pure (.new ty)
  | .list _ t => do
    let int ← node (.prim · .int)
    let _ ← rec env index (some int)
    let ty ← node (.optional · t)
    pure (.new ty)
  | t => do
    let never ← reportNever env (.invalidIndexTarget t.shape)
    pure (.new never)

/-! ### Casts and exceptions -/

def checkCast (env : TypeEnv) (e : Expr) (ty : TypeExpr) (expected : Option (Ty ℕ)) :
    CheckM TypeSynth := do
  let target ← resolveTypeExpr env ty
  let _ ← rec env e (some target)
  subsumeInto env target expected
  pure (.new target)

def synthException (env : TypeEnv) (tag : ℕ) : Option TypeExpr → CheckM TypeSynth
  | none => do
    let ty ← node (.exception · tag)
    pure (.new ty)
  | some e => do
    let exception ← node (.exception · tag)
    let param ← resolveTypeExpr env e
    let ty ← node (.fn · [] [param] exception)
    pure (.new ty)

def synthRaise (env : TypeEnv) (e : Expr) : CheckM TypeSynth := do
  let r ← rec env e none
  match ← unfolded r.ty with
  | .exception _ _ | .never _ => pure ()
  | t => report env (.notAnException t.shape)
  let never ← node .never
  pure (.new never)

/-- Whether a type is that of an exception. -/
def isException : Ty ℕ → Bool
  | .exception _ _ => true
  | _ => false

/-- A catch clause, given the type of the exception it names: the environment of its body. -/
def catchTypeEnv (env : TypeEnv) : Ty ℕ → Option String → CheckM TypeEnv
  | .exception _ _, none => pure env
  | .exception _ _, some _ => do
    report env .unexpectedCatchArg
    pure env
  | .fn i tps ps r, some x => do
    let ret ← unfolded r
    if ¬ (isException ret ∧ ps.length = 1) then
      report env (.invalidCatchTarget (Ty.fn i tps ps r).shape)
    let param ← match ps with
      | [] => node .never
      | p :: _ => pure p
    pure (env.withLocal x param)
  | .never _, _ => pure env
  | t, _ => do
    report env (.invalidCatchTarget t.shape)
    pure env

def checkCatchClauses (env : TypeEnv) (t : Ty ℕ) :
    List (String × Option String × Expr) → CheckM Unit
  | [] => pure ()
  | (x, arg, body) :: rest => do
    let target ← rec env (.var x) none
    let target ← unfolded target.ty
    let bodyEnv ← catchTypeEnv env target arg
    let _ ← rec bodyEnv body (some t)
    checkCatchClauses env t rest

def checkTry (env : TypeEnv) (e : Expr) (catches : List (String × Option String × Expr))
    (expected : Option (Ty ℕ)) : CheckM TypeSynth := do
  let r ← rec env e expected
  let t ← unfolded r.ty
  checkCatchClauses rec env t catches
  subsumeInto env t expected
  pure (.new t)

/-! ### All forms -/

/-- Synthesize the type of one node. -/
def synthStep (env : TypeEnv) : Expr → CheckM TypeSynth
  | .int _ => .new <$> node (.prim · .int)
  | .float _ => .new <$> node (.prim · .float)
  | .bool _ => .new <$> node (.prim · .bool)
  | .nil => .new <$> nilTy
  | .str _ => .new <$> node (.prim · .str)
  | .path _ => .new <$> node (.prim · .path)
  | .externExpr _ ty => .new <$> resolveTypeExpr env ty
  | .ifThen c t => checkIf rec env c t none none
  | .ifElse c t e => checkIf rec env c t (some e) none
  | .letIn x ty b e => checkLet rec env x ty b e none
  | .fn _ tps ps body => synthFn rec env tps ps body
  | .call f targs es => synthCall rec env f targs es
  | .unary op e => synthUnary rec env op e
  | .binary op l r => synthBinary rec env op l r
  | .var x => synthVar env x
  | .record fields => synthRecord rec env fields
  | .dict entries => synthDict rec env entries
  | .list items => synthList rec env items
  | .interp parts => synthInterp rec env parts
  | .propertyAccess e p o => synthPropertyAccess rec env e p o
  | .indexedAccess e i => synthIndexedAccess rec env e i
  | .typeCast e ty => checkCast rec env e ty none
  | .exception tag ty => synthException env tag ty
  | .raise e => synthRaise rec env e
  | .tryCatch e catches => checkTry rec env e catches none

/-- Check one node against an expected type. -/
def checkStep (env : TypeEnv) (expected : Ty ℕ) : Expr → CheckM TypeSynth
  | .nil => if expected.isOptional then pure (.new expected)
    else synthThenSubsume rec env .nil expected
  | .fn site tps ps body => checkFn rec env site tps ps body expected
  | .record fields => checkRecord rec env fields expected
  | .list items => checkList rec env items expected
  | .dict entries => checkDict rec env entries expected
  | .ifThen c t => checkIf rec env c t none (some expected)
  | .ifElse c t e => checkIf rec env c t (some e) (some expected)
  | .letIn x ty b e => checkLet rec env x ty b e (some expected)
  | .typeCast e ty => checkCast rec env e ty (some expected)
  | .call f targs es => do
    let r ← synthCall rec env f targs es
    subsumptionCheck env r.ty expected
    pure (.new r.ty)
  | .tryCatch e catches => checkTry rec env e catches (some expected)
  | e => synthThenSubsume rec env e expected

/-- Check one node, in the mode that `expected` says. -/
def checkNode (env : TypeEnv) (e : Expr) : Option (Ty ℕ) → CheckM TypeSynth
  | none => synthStep rec env e
  | some expected => checkStep rec env expected e

end Step

/-- Check an expression, to a depth of at most `n` nodes. -/
def checkExpr : ℕ → TypeEnv → Expr → Option (Ty ℕ) → CheckM TypeSynth
  | 0, _, _, _ => .fail ⟨⟩
  | n + 1, env, e, expected => checkNode (checkExpr n) env e expected

end Skyr.Sclc
