import Skyr.Sclc.Coincidence

/-!
# Stack frames and the depth limit

Every call of a function makes a stack frame: a call expression does, and so does a catch clause
whose exception is a function.  The frame is put on top of those of the caller, and the body is
evaluated under it.  There is a limit to the number of frames, and `withStackFrame` checks it; but
neither of the two ways to call a function does.

`evalFramed` is the evaluator with its frames.  What is done when a frame is entered is left open:
nothing, which is the code (and then the frames have no effect, `evalFramed_unchecked`), or the
check of the depth, which is what the limit is for.  An evaluation comes to a chain of calls that
is longer than the limit if the evaluator with the check refuses it.
-/

namespace Skyr.Sclc

open Prog

section General

variable [Floats]

/-! ## Frames -/

/-- A call that is going on: the module it is made in, and what is called. -/
structure StackFrame where
  module : ModuleId
  name : String

/-- The name of a function in a frame. -/
def frameName : Expr → String
  | .var x => x
  | _ => "[fn]"

/-- The check of the depth.  The frame that is entered is the first. -/
def withStackFrame (stack : List StackFrame) : EvalM Unit :=
  if stack.length > 50 then failing .stackOverflow else pure ()

/-- No check. -/
def unchecked (_ : List StackFrame) : EvalM Unit := pure ()

section Step

variable (ev : Evaluator) (enter : List StackFrame → EvalM Unit)
  (rec : List StackFrame → EvalEnv → Expr → EvalM TrackedValue)

/-- The body of a function, under the frame of its call. -/
def entering (stack : List StackFrame) (env : EvalEnv) (body : Expr) : EvalM TrackedValue := do
  enter stack
  rec stack env body

def evalCallFramed (stack : List StackFrame) (env : EvalEnv) (callee : Expr) (args : List Expr) :
    EvalM TrackedValue := do
  let f ← rec stack env callee
  let ts ← args.mapM (rec stack env)
  if f.value.isPending then pure (.pendingWith f.dependencies)
  else do
    let frame := ⟨env.module, frameName callee⟩
    let t ← callValue ev (entering enter rec (frame :: stack)) env f.value ts
    pure (t.withDependencies f.dependencies)

def evalCatchesFramed (stack : List StackFrame) (env : EvalEnv) (i : ℕ) (payload : Value)
    (name : String) : List (String × Option String × Expr) → EvalM TrackedValue
  | [] => failing (.exception i payload name)
  | (x, arg, body) :: rest => do
    let target := (env.evalVarName x).value
    let frame := ⟨env.module, "[fn]"⟩
    let j ← catchTarget ev (entering enter rec (frame :: stack)) env payload target
    if j = i then rec stack (catchEnv env payload target arg) body
    else evalCatchesFramed stack env i payload name rest

/-- One node of an expression.  All nodes but calls and catch clauses evaluate their parts under the
same frames. -/
def stepFramed (stack : List StackFrame) (env : EvalEnv) : Expr → EvalM TrackedValue
  | .call f _ args => evalCallFramed ev enter rec stack env f args
  | .tryCatch e cs =>
    recover (rec stack env e) fun i payload name =>
      evalCatchesFramed ev enter rec stack env i payload name cs
  | e => step ev (rec stack) env e

end Step

/-- Evaluate an expression under some frames, to a depth of at most `n` nodes. -/
def evalFramed (ev : Evaluator) (enter : List StackFrame → EvalM Unit) :
    ℕ → List StackFrame → EvalEnv → Expr → EvalM TrackedValue
  | 0, _, _, _ => .fail .exhausted
  | n + 1, stack, env, e => stepFramed ev enter (evalFramed ev enter n) stack env e

/-! ## Without the check -/

theorem evalCatchesFramed_unchecked (ev : Evaluator) (rec : EvalEnv → Expr → EvalM TrackedValue)
    (stack : List StackFrame) (env : EvalEnv) (i : ℕ) (payload : Value) (name : String)
    (cs : List (String × Option String × Expr)) :
    evalCatchesFramed ev unchecked (fun _ => rec) stack env i payload name cs =
      evalCatches ev rec env i payload name cs := by
  induction cs with
  | nil => rfl
  | cons c cs ih =>
  obtain ⟨x, arg, body⟩ := c
  rw [evalCatchesFramed, evalCatches, ih]
  rfl

/-- Frames that are not checked have no effect. -/
theorem evalFramed_unchecked (ev : Evaluator) (n : ℕ) (stack : List StackFrame) (env : EvalEnv)
    (e : Expr) : evalFramed ev unchecked n stack env e = eval ev n env e := by
  induction n generalizing stack env e with
  | zero => rfl
  | succ n ih =>
  have hrec : evalFramed ev unchecked n = fun _ => eval ev n := by
    funext stack env e
    exact ih stack env e
  rw [evalFramed, eval, hrec]
  cases e with
  | tryCatch e cs =>
    rw [stepFramed, step]
    congr 1
    funext i payload name
    exact evalCatchesFramed_unchecked ev (eval ev n) stack env i payload name cs
  | _ => rfl

/-! ## With the check -/

section Checked

variable {answer : (o : Ask) → o.Resp} {ev : Evaluator} {stack : List StackFrame}

/-- The end of an evaluation that comes to a frame beyond the limit. -/
def overflow : Stop := .error .stackOverflow

variable {rec : EvalEnv → Expr → EvalM TrackedValue}
  {rec' : List StackFrame → EvalEnv → Expr → EvalM TrackedValue}
  (hrec : ∀ stack env e, UpTo answer overflow (rec env e) (rec' stack env e))

include hrec

theorem entering_upTo (stack : List StackFrame) (env : EvalEnv) (e : Expr) :
    UpTo answer overflow (rec env e) (entering withStackFrame rec' stack env e) := by
  unfold entering withStackFrame
  split
  · exact .refused
  · exact hrec stack env e

theorem evalCallFramed_upTo (env : EvalEnv) (f : Expr) (args : List Expr) :
    UpTo answer overflow (evalCall ev rec env f args)
      (evalCallFramed ev withStackFrame rec' stack env f args) := by
  refine (hrec stack env f).bind fun callee => ?_
  refine (UpTo.mapM fun e _ => hrec stack env e).bind fun ts => ?_
  cases callee.value.isPending with
  | true => exact .rfl
  | false =>
    exact (callValue_upTo ev (entering_upTo hrec _) rfl rfl callee.value ts).bind fun _ => .rfl

theorem evalCatchesFramed_upTo (env : EvalEnv) (i : ℕ) (payload : Value) (name : String)
    (cs : List (String × Option String × Expr)) :
    UpTo answer overflow (evalCatches ev rec env i payload name cs)
      (evalCatchesFramed ev withStackFrame rec' stack env i payload name cs) := by
  induction cs with
  | nil => exact .rfl
  | cons c cs ih =>
  obtain ⟨x, arg, body⟩ := c
  refine (catchTarget_upTo ev (entering_upTo hrec _) rfl rfl payload _).bind fun j => ?_
  split
  · exact hrec stack _ body
  · exact ih

end Checked

/-- An evaluation that stays within the limit is the evaluation without it. -/
theorem eval_upTo_checked (answer : (o : Ask) → o.Resp) (ev : Evaluator) (n : ℕ)
    (stack : List StackFrame) (env : EvalEnv) (e : Expr) :
    UpTo answer overflow (eval ev n env e) (evalFramed ev withStackFrame n stack env e) := by
  induction n generalizing stack env e with
  | zero => exact .rfl
  | succ n ih =>
  have hrec {env env' : EvalEnv} (e : Expr) (h : env = env') :
      UpTo answer overflow (eval ev n env e) (evalFramed ev withStackFrame n stack env' e) :=
    h ▸ ih stack env e
  cases e with
  | call f targs args => exact evalCallFramed_upTo ih env f args
  | tryCatch e cs =>
    refine recover_upTo nofun (ih stack env e) fun i payload name => ?_
    exact evalCatchesFramed_upTo ih env i payload name cs
  | _ => exact step_upTo .of_eq hrec _ nofun rfl

/-! ## The error is never reported

No node of an expression ends with a stack overflow of its own, and neither does any function of the
standard library. -/

/-- The function does not report a stack overflow. -/
def Extern.NeverOverflows : Extern → Prop
  | .strict _ f => ∀ args, f args ≠ .error overflow
  | .first => True
  | .resource prepare => ∀ fields, prepare fields ≠ .error overflow ∧
      ∀ r, prepare fields = .ok r → ∀ outputs, r.2 outputs ≠ .error overflow

/-- None of the functions of the standard library reports a stack overflow. -/
def Evaluator.NeverOverflows (ev : Evaluator) : Prop :=
  ∀ name f, ev.externs name = some f → f.NeverOverflows

theorem evalBinaryValues_ne_overflow (op : BinaryOp) (a b : Value) :
    evalBinaryValues op a b ≠ .error overflow := by
  have hint (op : String) (n : ℤ) : checkedInt op n ≠ .error overflow := by
    unfold checkedInt
    split <;> exact nofun
  have hnan (desc : String) (x : Option Floats.F) : notNan desc x ≠ .error overflow := by
    cases x <;> exact nofun
  have harith (op : String) (i : ℤ → ℤ → ℤ) (f : Floats.F → Floats.F → Option Floats.F) :
      evalNumericArithmetic op i f a b ≠ .error overflow := by
    unfold evalNumericArithmetic
    split <;> first | exact hint _ _ | exact hnan _ _ | exact nofun
  have hdiv : evalNumericDivision a b ≠ .error overflow := by
    unfold evalNumericDivision
    have hite {c : Prop} [Decidable c] {x : Computed Value} (h : x ≠ .error overflow) :
        (if c then .error (.error .divisionByZero) else x) ≠ .error overflow := by
      split
      · exact nofun
      · exact h
    split
    · refine hite ?_
      split <;> exact nofun
    · exact hite (hnan _ _)
    · exact hite (hnan _ _)
    · exact hite (hnan _ _)
    · exact nofun
  have hcmp (op : BinaryOp) (i : ℤ → ℤ → Bool) (f : Floats.F → Floats.F → Bool) :
      evalNumericComparison op i f a b ≠ .error overflow := by
    unfold evalNumericComparison
    split <;> exact nofun
  unfold evalBinaryValues
  split <;> first | exact harith _ _ _ | exact hdiv | exact hcmp _ _ _ | exact nofun

theorem evalUnaryValue_ne_overflow (op : UnaryOp) (v : Value) :
    evalUnaryValue op v ≠ .error overflow := by
  unfold evalUnaryValue
  split
  · exact nofun
  · split <;> exact nofun
  · exact nofun
  · exact nofun

section Avoids

variable {answer : (o : Ask) → o.Resp} {ev : Evaluator}

theorem ofComputed_avoids {α : Type} {x : Computed α} (h : x ≠ .error overflow) :
    Avoids answer overflow (ofComputed x) := by
  cases x with
  | ok a => exact .ret
  | error stop => exact .fail fun he => h (congrArg _ he)

theorem notes_avoid (ts : List TrackedValue) :
    Avoids answer overflow (ts.forM fun t => note (.examined t)) := by
  induction ts with
  | nil => exact .ret
  | cons t ts ih => exact .ask ih

theorem recover_avoids {p : EvalM TrackedValue} {h : ℕ → Value → String → EvalM TrackedValue}
    (hp : Avoids answer overflow p)
    (hh : ∀ i payload name, Avoids answer overflow (h i payload name)) :
    Avoids answer overflow (recover p h) := by
  refine hp.attempt fun x hx => ?_
  cases x with
  | ok a => exact .ret
  | error stop =>
  cases stop with
  | error kind =>
    cases kind with
    | exception i payload name => exact .ask (hh i payload name)
    | stackOverflow => exact absurd rfl hx
    | _ => exact .fail nofun
  | _ => exact .fail nofun

theorem callExtern_avoids (env : EvalEnv) (args : List TrackedValue) {f : Extern}
    (hf : f.NeverOverflows) : Avoids answer overflow (callExtern ev env args f) := by
  cases f with
  | strict arity f =>
    unfold callExtern
    dsimp only
    split
    · exact .ret
    · exact (notes_avoid _).bind fun _ => (ofComputed_avoids (hf _)).bind fun _ => .ret
  | first => exact .ret
  | resource prepare =>
  unfold callExtern
  dsimp only
  split
  · exact .ret
  split
  · next fields _ =>
    obtain ⟨hprepare, hresult⟩ := hf fields
    cases hr : prepare fields with
    | error stop => exact .fail fun he => hprepare (hr.trans (congrArg _ he))
    | ok r =>
    refine .ask ?_
    cases answer (.resource env.scope (args.headD (.new .nil)) r.1) with
    | none => exact .ret
    | some outputs => exact (ofComputed_avoids (hresult r hr outputs)).bind fun _ => .ret
  · exact .fail nofun

variable (hev : ev.NeverOverflows) {rec : EvalEnv → Expr → EvalM TrackedValue}
  (hrec : ∀ env e, Avoids answer overflow (rec env e)) (env : EvalEnv)

include hev hrec in
theorem callValue_avoids (callee : Value) (args : List TrackedValue) :
    Avoids answer overflow (callValue ev rec env callee args) := by
  cases callee with
  | fn m r site ps cs self group body => exact hrec _ body
  | externFn name =>
    rw [callValue]
    cases hf : ev.externs name with
    | none => exact .fail fun h => by cases h
    | some f => exact callExtern_avoids env args (hev name f hf)
  | exceptionFn i => exact .ask .ret
  | _ => exact .fail fun h => by cases h

include hev hrec in
theorem catchTarget_avoids (payload target : Value) :
    Avoids answer overflow (catchTarget ev rec env payload target) := by
  have hcall : Avoids answer overflow (callValue ev rec env target [.new payload]) :=
    callValue_avoids hev hrec env target [.new payload]
  cases target with
  | exception i v => exact .ret
  | fn | externFn | exceptionFn =>
    refine hcall.bind fun t => ?_
    split
    · exact .ret
    · exact .fail fun h => by cases h
  | _ => exact .fail fun h => by cases h

include hev hrec in
theorem evalCatches_avoids (i : ℕ) (payload : Value) (name : String)
    (cs : List (String × Option String × Expr)) :
    Avoids answer overflow (evalCatches ev rec env i payload name cs) := by
  induction cs with
  | nil => exact .fail nofun
  | cons c cs ih =>
  obtain ⟨x, arg, body⟩ := c
  refine (catchTarget_avoids hev hrec env payload _).bind fun j => ?_
  split
  · exact hrec _ body
  · exact ih

include hrec

theorem evalInterp_avoids (es : List Expr) (out : String) (d : Deps) :
    Avoids answer overflow (evalInterp rec env es out d) := by
  induction es generalizing out d with
  | nil => exact .ret
  | cons e es ih =>
  refine (hrec env e).bind fun t => ?_
  split
  · exact .ret
  · refine .ask ?_
    split <;> exact ih _ _

theorem evalRecord_avoids (es : List (String × Expr)) (fields : Fields)
    (d : Deps) : Avoids answer overflow (evalRecord rec env es fields d) := by
  induction es generalizing fields d with
  | nil => exact .ret
  | cons f es ih =>
  refine (hrec env f.2).bind fun t => ?_
  split
  · exact .ask (ih _ _)
  · exact ih _ _

theorem evalDict_avoids (es : List (Expr × Expr)) (entries : List (Value × Value))
    (d : Deps) : Avoids answer overflow (evalDict rec env es entries d) := by
  induction es generalizing entries d with
  | nil => exact .ret
  | cons kv es ih =>
  refine (hrec env kv.1).bind fun key => (hrec env kv.2).bind fun t => ?_
  split
  · exact .ret
  · exact .ask (.ask (ih _ _))

theorem evalListItem_avoids (env : EvalEnv) (item : ListItem) (out : List TrackedValue) :
    Avoids answer overflow (evalListItem rec env item out) := by
  match item with
  | .expr e => exact (hrec env e).bind fun _ => .ret
  | .ifThen c item =>
    refine (hrec env c).bind fun t => ?_
    split
    · exact .ask ((evalListItem_avoids env item out).bind fun _ => .ret)
    · exact .ask .ret
    · exact .ret
    · exact .fail nofun
  | .forEach x e item =>
    refine (hrec env e).bind fun t => ?_
    split
    · next vs _ =>
      have hvs (vs : List Value) (out : List TrackedValue) : Avoids answer overflow
          (forEachValue (fun v out => evalListItem rec (env.withLocal x v) item out)
            t.dependencies vs out) := by
        induction vs generalizing out with
        | nil => exact .ret
        | cons v vs ih =>
        refine (evalListItem_avoids _ item out).bind fun o => ?_
        cases o with
        | complete out => exact ih out
        | pending e => exact .ret
      exact .ask (hvs vs out)
    · exact .ret
    · exact .fail nofun

theorem evalList_avoids (items : List ListItem) (out : List TrackedValue) :
    Avoids answer overflow (evalList rec env items out) := by
  induction items generalizing out with
  | nil => exact .ret
  | cons item items ih =>
  refine (evalListItem_avoids hrec env item out).bind fun o => ?_
  cases o with
  | complete out => exact ih out
  | pending d => exact .ret

theorem evalBinary_avoids (op : BinaryOp) (l r : Expr) :
    Avoids answer overflow (evalBinary rec env op l r) := by
  have hlogic (short : Bool) (t : TrackedValue) :
      Avoids answer overflow (evalLogic rec env short t r) := by
    unfold evalLogic
    split
    · split
      · exact .ret
      refine (hrec env r).bind fun u => ?_
      split
      · exact .ret
      · exact .ret
      · exact .fail nofun
    · exact .fail nofun
  have hboth (op : BinaryOp) (t : TrackedValue) :
      Avoids answer overflow (evalBoth rec env op t r) := by
    refine (hrec env r).bind fun u => ?_
    have hvalues : Avoids answer overflow (ofComputed (evalBinaryValues op t.value u.value)) :=
      ofComputed_avoids (evalBinaryValues_ne_overflow op t.value u.value)
    dsimp only
    split
    · exact .ask .ret
    split
    · exact .ask (.ask (hvalues.bind fun _ => .ret))
    · exact hvalues.bind fun _ => .ret
  refine (hrec env l).bind fun t => ?_
  split
  · exact .ret
  cases op with
  | nilCoalesce =>
    dsimp only
    split
    · exact .ask (hrec env r)
    · exact .ret
  | and => exact hlogic false t
  | or => exact hlogic true t
  | _ => exact hboth _ t

theorem evalIf_avoids (c t : Expr) (e : Option Expr) :
    Avoids answer overflow (evalIf rec env c t e) := by
  refine (hrec env c).bind fun v => ?_
  split
  · exact .ret
  · exact .ask (hrec env t)
  · refine .ask ?_
    cases e with
    | none => exact .ret
    | some e => exact hrec env e
  · exact .fail nofun

theorem evalPropertyAccess_avoids (e : Expr) (p : String) (optional : Bool) :
    Avoids answer overflow (evalPropertyAccess rec env e p optional) := by
  unfold evalPropertyAccess
  split
  · exact .ret
  refine (hrec env e).bind fun t => ?_
  split
  · exact .ret
  · cases optional with
    | true => exact .ret
    | false => exact .fail nofun
  · exact .ask .ret
  · exact .fail nofun

theorem evalIndexedAccess_avoids (e index : Expr) :
    Avoids answer overflow (evalIndexedAccess rec env e index) := by
  refine (hrec env e).bind fun t => ?_
  split
  · exact .ret
  · refine .ask ((hrec env index).bind fun i => ?_)
    split
    · exact .ret
    · exact .ask (.ask .ret)
  · refine .ask ((hrec env index).bind fun i => ?_)
    split
    · exact .ret
    · exact .ret
    · exact .fail nofun
  · exact .fail nofun

include hev

theorem step_avoids (e : Expr) : Avoids answer overflow (step ev rec env e) := by
  cases e with
  | int | float | bool | nil | str | path | fn | var => exact .ret
  | externExpr name ty =>
    rw [step]
    split
    · exact .ret
    · exact .fail fun h => by cases h
  | exception i ty => cases ty <;> exact .ret
  | ifThen c t => exact evalIf_avoids hrec env c t none
  | ifElse c t e => exact evalIf_avoids hrec env c t (some e)
  | letIn x ty b e => exact (hrec env b).bind fun t => hrec _ e
  | call f targs args =>
    refine (hrec env f).bind fun callee => (Avoids.mapM fun e _ => hrec env e).bind fun ts => ?_
    split
    · exact .ret
    · exact (callValue_avoids hev hrec env callee.value ts).bind fun _ => .ret
  | unary op e =>
    refine (hrec env e).bind fun t => ?_
    split
    · exact .ret
    · exact (ofComputed_avoids (evalUnaryValue_ne_overflow op t.value)).bind fun _ => .ret
  | binary op l r => exact evalBinary_avoids hrec env op l r
  | record fs => exact evalRecord_avoids hrec env fs [] []
  | dict es => exact evalDict_avoids hrec env es [] []
  | list items => exact evalList_avoids hrec env items []
  | interp ps => exact evalInterp_avoids hrec env ps "" []
  | propertyAccess e p o => exact evalPropertyAccess_avoids hrec env e p o
  | indexedAccess e i => exact evalIndexedAccess_avoids hrec env e i
  | typeCast e ty => exact hrec env e
  | raise e =>
    refine (hrec env e).bind fun t => ?_
    split
    · exact .ret
    · exact .fail fun h => by cases h
    · exact .fail fun h => by cases h
  | tryCatch e cs =>
  refine recover_avoids (hrec env e) fun i payload name => ?_
  exact evalCatches_avoids hev hrec env i payload name cs

end Avoids

theorem eval_avoids (answer : (o : Ask) → o.Resp) {ev : Evaluator} (hev : ev.NeverOverflows)
    (n : ℕ) (env : EvalEnv) (e : Expr) : Avoids answer overflow (eval ev n env e) := by
  induction n generalizing env e with
  | zero => exact .fail nofun
  | succ n ih => exact step_avoids hev ih env e

/-! ## The limit -/

/-- The evaluation comes to a chain of nested calls that is longer than the limit. -/
def ExceedsLimit (ev : Evaluator) (n : ℕ) (stack : List StackFrame) (env : EvalEnv) (e : Expr)
    (answer : (o : Ask) → o.Resp) : Prop :=
  (evalFramed ev withStackFrame n stack env e).Refused answer overflow

/-- **The limit is not in force.**  Frames have no effect.  So with whatever fuel, and over all fuel
at once, a chain of calls longer than the limit ends with the stack overflow error only where there
is no such chain: a recursion without end has one.  Without one, the evaluation is the one with the
check. -/
theorem depth_limit_iff (ev : Evaluator) (hev : ev.NeverOverflows) (stack : List StackFrame)
    (env : EvalEnv) (e : Expr) (answer : (o : Ask) → o.Resp) :
    (∀ n, evalFramed ev unchecked n stack env e = eval ev n env e) ∧
    (((∃ n, ExceedsLimit ev n stack env e answer) →
        ∃ n, ((evalFramed ev unchecked n stack env e).against answer).1 = .error overflow) ↔
      ∀ n, ¬ExceedsLimit ev n stack env e answer) ∧
    ∀ n, ((ExceedsLimit ev n stack env e answer →
          ((evalFramed ev unchecked n stack env e).against answer).1 = .error overflow) ↔
        ¬ExceedsLimit ev n stack env e answer) ∧
      (¬ExceedsLimit ev n stack env e answer →
        (evalFramed ev unchecked n stack env e).against answer =
          (evalFramed ev withStackFrame n stack env e).against answer) := by
  have hframes n := evalFramed_unchecked ev n stack env e
  have hnever n : ((evalFramed ev unchecked n stack env e).against answer).1 ≠ .error overflow := by
    rw [hframes n]
    exact eval_avoids answer hev n env e
  refine ⟨hframes, ⟨fun h n hexceeds => ?_, fun h hexceeds => ?_⟩, fun n =>
    ⟨⟨fun h hexceeds => hnever n (h hexceeds), fun h hexceeds => absurd hexceeds h⟩, fun h => ?_⟩⟩
  · obtain ⟨m, hm⟩ := h ⟨n, hexceeds⟩
    exact hnever m hm
  · obtain ⟨n, hn⟩ := hexceeds
    exact absurd hn (h n)
  · rw [hframes n]
    exact (eval_upTo_checked answer ev n stack env e).resolve_left h

end General

/-! ## Without end -/

namespace Depth

local instance : Floats := Floats.int

open Payloads (evaluator noAnswer resultOf)

/-- `fn() f()`, under the name `f`. -/
def loop : Value := .fn ⟨[], []⟩ [] 0 [] [] (some "f") [] (.call (.var "f") [] [])

/-- `fn(n) if (n < 1) 7 else down(n - 1)`, under the name `down`. -/
def countdown : Value :=
  .fn ⟨[], []⟩ [] 1 ["n"] [] (some "down") []
    (.ifElse (.binary .lt (.var "n") (.int 1)) (.int 7)
      (.call (.var "down") [] [.binary .sub (.var "n") (.int 1)]))

def env : EvalEnv :=
  ⟨⟨[], []⟩, [], [], [("f", .new loop), ("down", .new countdown)], ⟨[], [], []⟩⟩

theorem evaluator_neverOverflows : evaluator.NeverOverflows := nofun

/-- The recursion never ends, however much fuel there is. -/
theorem loop_exhausted (n : ℕ) (env : EvalEnv) (h : env.evalVarName "f" = .new loop) :
    eval evaluator n env (.call (.var "f") [] []) = .fail .exhausted := by
  induction n generalizing env with
  | zero => rfl
  | succ n ih =>
  cases n with
  | zero => rfl
  | succ n =>
  -- The callee is looked up, and its body is the same call under the function's own name.
  have hbody := ih (fnEnv env loop ⟨[], []⟩ [] [] [] (some "f") [] []) rfl
  change evalCall evaluator (eval evaluator (n + 1)) env (.var "f") [] = .fail .exhausted
  have hcallee : eval evaluator (n + 1) env (.var "f") = pure (.new loop) := congrArg pure h
  rw [evalCall, hcallee]
  change (eval evaluator (n + 1) (fnEnv env loop ⟨[], []⟩ [] [] [] (some "f") [] [])
    (.call (.var "f") [] []) >>= _) = _
  rw [hbody]
  rfl

def overflows (p : EvalM TrackedValue) : Bool :=
  match (p.against noAnswer).1 with
  | .error (.error .stackOverflow) => true
  | _ => false

theorem refused_of_overflows {p : EvalM TrackedValue} (h : overflows p = true) :
    p.Refused noAnswer overflow := by
  unfold overflows at h
  split at h
  · assumption
  · exact absurd h Bool.false_ne_true

/-- A chain of sixty calls goes through, and a recursion without end is not stopped. -/
theorem limit_not_in_force :
    ExceedsLimit evaluator 160 [] env (.call (.var "down") [] [.int 60]) noAnswer ∧
    resultOf (evalFramed evaluator unchecked 160 [] env (.call (.var "down") [] [.int 60])) =
      some 7 ∧
    ExceedsLimit evaluator 60 [] env (.call (.var "f") [] []) noAnswer ∧
    ∀ n, evalFramed evaluator unchecked n [] env (.call (.var "f") [] []) = .fail .exhausted := by
  refine ⟨refused_of_overflows (by decide +kernel), by decide +kernel,
    refused_of_overflows (by decide +kernel), fun n => ?_⟩
  rw [evalFramed_unchecked]
  exact loop_exhausted n env rfl

/-- Within the limit, the two evaluations are the same. -/
theorem down_within_limit :
    evaluator.NeverOverflows ∧
    ¬ExceedsLimit evaluator 20 [] env (.call (.var "down") [] [.int 3]) noAnswer ∧
    (evalFramed evaluator unchecked 20 [] env (.call (.var "down") [] [.int 3])).against noAnswer =
      (evalFramed evaluator withStackFrame 20 [] env
        (.call (.var "down") [] [.int 3])).against noAnswer := by
  have h := depth_limit_iff evaluator evaluator_neverOverflows [] env
    (.call (.var "down") [] [.int 3]) noAnswer
  have hwithin : ¬ExceedsLimit evaluator 20 [] env (.call (.var "down") [] [.int 3]) noAnswer :=
    nofun
  exact ⟨evaluator_neverOverflows, hwithin, (h.2.2 20).2 hwithin⟩

end Depth

end Skyr.Sclc
