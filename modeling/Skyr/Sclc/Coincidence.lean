import Skyr.Lib.UpTo
import Skyr.Sclc.Eval

/-!
# Free variables are all that matters

What an expression evaluates to depends on the module it stands in, on the globals, and on the
values of its free variables, and a function literal relies on it: it captures its free variables
and nothing else.

There is one exception.  The free variables of a catch clause never include the name it gives to the
payload, but the evaluator binds that name only where the exception takes a payload.  Where it does
not, the body of the clause reads the name from outside.  The checker reports such a clause
(`UnexpectedCatchArg`), so the statements here are about evaluations that come to none: those that
go through in an evaluator that refuses such a clause (`evalNamed`).

The walk through the nodes (`step_upTo`) compares two evaluators in environments that agree on the
free variables of the expression, with any error in the place of the refusal.
-/

namespace Skyr.Sclc

open List Prog

section General

variable [Floats]

/-! ## Environments that agree -/

namespace EvalEnv

variable {env : EvalEnv} {x : String} {t : TrackedValue}

theorem evalVarName_withLocal_self : (env.withLocal x t).evalVarName x = t := by
  rw [evalVarName, withLocal, lookup_cons_self]

theorem evalVarName_withLocal_ne {y : String} (hy : y ≠ x) :
    (env.withLocal x t).evalVarName y = env.evalVarName y := by
  rw [evalVarName, withLocal, lookup_cons, beq_false_of_ne hy]
  rfl

end EvalEnv

/-- Two environments stand in the same module, with the same globals and on behalf of the same
package, and give the same values to some names. -/
structure Agree (names : List String) (env env' : EvalEnv) : Prop where
  module : env.module = env'.module
  rawModule : env.rawModule = env'.rawModule
  scope : env.scope = env'.scope
  globals : env.globals = env'.globals
  values : ∀ x ∈ names, env.evalVarName x = env'.evalVarName x

namespace Agree

variable {xs ys : List String} {env env' : EvalEnv}

theorem refl (xs : List String) (env : EvalEnv) : Agree xs env env :=
  ⟨rfl, rfl, rfl, rfl, fun _ _ => rfl⟩

theorem symm (h : Agree xs env env') : Agree xs env' env :=
  ⟨h.module.symm, h.rawModule.symm, h.scope.symm, h.globals.symm, fun x hx => (h.values x hx).symm⟩

theorem mono (h : Agree ys env env') (hxs : xs ⊆ ys) : Agree xs env env' :=
  ⟨h.module, h.rawModule, h.scope, h.globals, fun x hx => h.values x (hxs hx)⟩

theorem left (h : Agree (xs ++ ys) env env') : Agree xs env env' :=
  h.mono (subset_append_left xs ys)

theorem right (h : Agree (xs ++ ys) env env') : Agree ys env env' :=
  h.mono (subset_append_right xs ys)

/-- A name that is bound alike in both need not be agreed upon. -/
theorem withLocal {x : String} {t : TrackedValue} (h : Agree (xs.filter (· ≠ x)) env env') :
    Agree xs (env.withLocal x t) (env'.withLocal x t) := by
  refine ⟨h.module, h.rawModule, h.scope, h.globals, fun y hy => ?_⟩
  by_cases hyx : y = x
  · rw [hyx, EvalEnv.evalVarName_withLocal_self, EvalEnv.evalVarName_withLocal_self]
  · rw [EvalEnv.evalVarName_withLocal_ne hyx, EvalEnv.evalVarName_withLocal_ne hyx]
    exact h.values y (mem_filter.2 ⟨hy, decide_eq_true hyx⟩)

theorem captures (h : Agree xs env env') : env.captures xs = env'.captures xs :=
  map_congr_left fun x hx => by rw [h.values x hx]

end Agree

/-- A way in which two environments can be alike on some names, up to agreement on them, that is
kept when a name is bound alike in both. -/
structure Likeness (Like : List String → EvalEnv → EvalEnv → Prop) : Prop where
  refl : ∀ xs env, Like xs env env
  agree : ∀ {xs env env'}, Like xs env env' → Agree xs env env'
  mono : ∀ {xs ys env env'}, Like ys env env' → xs ⊆ ys → Like xs env env'
  withLocal : ∀ {xs env env' x t}, Like (xs.filter (· ≠ x)) env env' →
    Like xs (env.withLocal x t) (env'.withLocal x t)

namespace Likeness

variable {Like : List String → EvalEnv → EvalEnv → Prop} {xs ys : List String}
  {env env' : EvalEnv}

theorem left (like : Likeness Like) (h : Like (xs ++ ys) env env') : Like xs env env' :=
  like.mono h (subset_append_left xs ys)

theorem right (like : Likeness Like) (h : Like (xs ++ ys) env env') : Like ys env env' :=
  like.mono h (subset_append_right xs ys)

theorem of_agree : Likeness Agree := ⟨Agree.refl, id, Agree.mono, Agree.withLocal⟩

theorem of_eq : Likeness fun _ env env' => env = env' where
  refl _ _ := rfl
  agree := by
    rintro xs env _ rfl
    exact .refl xs env
  mono h _ := h
  withLocal h := by rw [h]

end Likeness

theorem freeVars_subset_all {e : Expr} :
    ∀ {es : List Expr}, e ∈ es → e.freeVars ⊆ freeVarsAll es
  | e' :: es, h => by
    rcases mem_cons.1 h with rfl | h
    · exact subset_append_left _ _
    · exact fun x hx => mem_append_right _ (freeVars_subset_all h hx)

/-! ## One node

One lemma for each construct whose evaluation looks at the environment; the parts are evaluated by
`rec`, for which the statement is assumed. -/

section Step

variable {answer : (o : Ask) → o.Resp} {refusal : Stop} {ev : Evaluator}
  {rec rec' : EvalEnv → Expr → EvalM TrackedValue} {env env' : EvalEnv}

section

variable (ev) (hrec : ∀ env e, UpTo answer refusal (rec env e) (rec' env e))
  (hs : env.scope = env'.scope) (hg : env.globals = env'.globals)

include hrec hs hg

/-- A call reads nothing of the caller's environment but the globals and the package. -/
theorem callValue_upTo (callee : Value) (args : List TrackedValue) :
    UpTo answer refusal (callValue ev rec env callee args)
      (callValue ev rec' env' callee args) := by
  cases callee with
  | fn m r site ps cs self group body =>
    rw [callValue, callValue, fnEnv, fnEnv, hs, hg]
    exact hrec _ body
  | externFn name =>
    rw [callValue, callValue]
    cases ev.externs name with
    | none => exact .rfl
    | some f =>
    have hf : callExtern ev env args f = callExtern ev env' args f := by
      unfold callExtern
      rw [hs]
    dsimp only
    rw [hf]
    exact .rfl
  | _ => exact .rfl

theorem catchTarget_upTo (payload target : Value) :
    UpTo answer refusal (catchTarget ev rec env payload target)
      (catchTarget ev rec' env' payload target) := by
  cases target with
  | fn | externFn | exceptionFn =>
    exact (callValue_upTo ev hrec hs hg _ [.new payload]).bind fun _ => .rfl
  | _ => exact .rfl

end

/-- The import names belong to the module. -/
theorem directGlobal_congr (hr : env.rawModule = env'.rawModule)
    (hg : env.globals = env'.globals) (property : String) (e : Expr) :
    directGlobal env property e = directGlobal env' property e := by
  unfold directGlobal importedGlobal
  rw [hr, hg]

theorem recover_upTo {p q : EvalM TrackedValue} {h h' : ℕ → Value → String → EvalM TrackedValue}
    (hrefusal : ∀ i payload name, refusal ≠ .error (.exception i payload name))
    (hp : UpTo answer refusal p q)
    (hh : ∀ i payload name, UpTo answer refusal (h i payload name) (h' i payload name)) :
    UpTo answer refusal (recover p h) (recover q h') := by
  refine hp.attempt (fun x => ?_) ?_
  · cases x with
    | ok a => exact .rfl
    | error stop =>
    cases stop with
    | error kind =>
      cases kind with
      | exception i payload name => exact UpTo.rfl.bind fun _ => hh i payload name
      | _ => exact .rfl
    | _ => exact .rfl
  split
  · exact nomatch ‹Except.error refusal = .ok _›
  · next i payload name he => exact absurd (Except.error.inj he) (hrefusal i payload name)
  · next stop _ he => rw [Except.error.inj he]

variable {Like : List String → EvalEnv → EvalEnv → Prop} (like : Likeness Like)
  (hrec : ∀ {env env' : EvalEnv} (e : Expr), Like e.freeVars env env' →
    UpTo answer refusal (rec env e) (rec' env' e))

include like hrec

theorem evalInterp_upTo (es : List Expr) (out : String) (d : Deps)
    (h : Like (freeVarsAll es) env env') :
    UpTo answer refusal (evalInterp rec env es out d) (evalInterp rec' env' es out d) := by
  induction es generalizing out d with
  | nil => exact .rfl
  | cons e es ih =>
  refine (hrec e (like.left h)).bind fun t => ?_
  cases t.value.isPending with
  | true => exact .rfl
  | false =>
  refine UpTo.rfl.bind fun _ => ?_
  cases t.value <;> exact ih _ _ (like.right h)

theorem evalRecord_upTo (es : List (String × Expr)) (fields : Fields) (d : Deps)
    (h : Like (freeVarsFields es) env env') :
    UpTo answer refusal (evalRecord rec env es fields d) (evalRecord rec' env' es fields d) := by
  induction es generalizing fields d with
  | nil => exact .rfl
  | cons f es ih =>
  refine (hrec f.2 (like.left h)).bind fun t => ?_
  cases (fields.lookup f.1).isSome with
  | true => exact UpTo.rfl.bind fun _ => ih _ _ (like.right h)
  | false => exact ih _ _ (like.right h)

theorem evalDict_upTo (es : List (Expr × Expr)) (entries : List (Value × Value)) (d : Deps)
    (h : Like (freeVarsEntries es) env env') :
    UpTo answer refusal (evalDict rec env es entries d) (evalDict rec' env' es entries d) := by
  induction es generalizing entries d with
  | nil => exact .rfl
  | cons kv es ih =>
  have hkv := like.left h
  refine (hrec kv.1 (like.left hkv)).bind fun key => ?_
  refine (hrec kv.2 (like.right hkv)).bind fun t => ?_
  cases key.value.isPending || t.value.isPending with
  | true => exact .rfl
  | false => exact UpTo.rfl.bind fun _ => UpTo.rfl.bind fun _ => ih _ _ (like.right h)

omit like hrec in
theorem forEachValue_upTo {emit emit' : TrackedValue → List TrackedValue → EvalM ListItemOutcome}
    (hemit : ∀ t out, UpTo answer refusal (emit t out) (emit' t out)) (d : Deps) (vs : List Value)
    (out : List TrackedValue) :
    UpTo answer refusal (forEachValue emit d vs out) (forEachValue emit' d vs out) := by
  induction vs generalizing out with
  | nil => exact .rfl
  | cons v vs ih =>
  refine (hemit _ _).bind fun o => ?_
  cases o with
  | complete out => exact ih out
  | pending e => exact .rfl

/-- The emissions of an item are evaluated with the same element in both environments. -/
theorem evalListItem_upTo : ∀ {env env' : EvalEnv} (item : ListItem) (out : List TrackedValue),
    Like item.freeVars env env' →
      UpTo answer refusal (evalListItem rec env item out) (evalListItem rec' env' item out)
  | _, _, .expr e, out, h => by
    exact (hrec e h).bind fun _ => .rfl
  | _, _, .ifThen c item, out, h => by
    refine (hrec c (like.left h)).bind fun t => ?_
    obtain ⟨v, d⟩ := t
    match v with
    | .bool true =>
      exact UpTo.rfl.bind fun _ => (evalListItem_upTo item out (like.right h)).bind fun _ => .rfl
    | .bool false | .nil | .pending | .int _ | .float _ | .str _ | .path _ | .list _ => exact .rfl
    | .externFn _ | .exceptionFn _ | .fn .. | .record _ | .dict _ | .exception _ _ => exact .rfl
  | env, env', .forEach x e item, out, h => by
    refine (hrec e (like.left h)).bind fun t => ?_
    obtain ⟨v, d⟩ := t
    cases v with
    | list vs =>
      refine UpTo.rfl.bind fun _ => forEachValue_upTo (fun t out => ?_) d vs out
      exact evalListItem_upTo item out (like.withLocal (like.right h))
    | _ => exact .rfl

theorem evalList_upTo (items : List ListItem) (out : List TrackedValue)
    (h : Like (freeVarsItems items) env env') :
    UpTo answer refusal (evalList rec env items out) (evalList rec' env' items out) := by
  induction items generalizing out with
  | nil => exact .rfl
  | cons item items ih =>
  refine (evalListItem_upTo like hrec item out (like.left h)).bind fun o => ?_
  cases o with
  | complete out => exact ih out (like.right h)
  | pending d => exact .rfl

theorem evalCall_upTo (f : Expr) (args : List Expr)
    (h : Like (f.freeVars ++ freeVarsAll args) env env') :
    UpTo answer refusal (evalCall ev rec env f args) (evalCall ev rec' env' f args) := by
  refine (hrec f (like.left h)).bind fun callee => ?_
  have hargs (e : Expr) (he : e ∈ args) : UpTo answer refusal (rec env e) (rec' env' e) :=
    hrec e (like.mono (like.right h) (freeVars_subset_all he))
  refine (UpTo.mapM hargs).bind fun ts => ?_
  cases callee.value.isPending with
  | true => exact .rfl
  | false =>
  have hagree := like.agree h
  have hcall := callValue_upTo ev (fun env e => hrec e (like.refl _ env)) hagree.scope
    hagree.globals callee.value ts
  exact hcall.bind fun _ => .rfl

omit like in
theorem evalSecond_upTo (r : Expr) (d : Deps) (h : Like r.freeVars env env') :
    UpTo answer refusal (evalSecond rec env r d) (evalSecond rec' env' r d) :=
  (hrec r h).bind fun _ => .rfl

omit like in
theorem evalBoth_upTo (op : BinaryOp) (l : TrackedValue) (r : Expr)
    (h : Like r.freeVars env env') :
    UpTo answer refusal (evalBoth rec env op l r) (evalBoth rec' env' op l r) :=
  (hrec r h).bind fun _ => .rfl

omit like in
theorem evalLogic_upTo (short : Bool) (l : TrackedValue) (r : Expr)
    (h : Like r.freeVars env env') :
    UpTo answer refusal (evalLogic rec env short l r) (evalLogic rec' env' short l r) := by
  unfold evalLogic
  cases l.value with
  | bool b =>
    dsimp only
    split
    · exact .rfl
    · exact evalSecond_upTo hrec r _ h
  | _ => exact .rfl

theorem evalBinary_upTo (op : BinaryOp) (l r : Expr)
    (h : Like (l.freeVars ++ r.freeVars) env env') :
    UpTo answer refusal (evalBinary rec env op l r) (evalBinary rec' env' op l r) := by
  refine (hrec l (like.left h)).bind fun t => ?_
  cases t.value.isPending with
  | true => exact .rfl
  | false =>
  cases op with
  | nilCoalesce =>
    cases t.value.isNil with
    | true => exact UpTo.rfl.bind fun _ => hrec r (like.right h)
    | false => exact .rfl
  | and => exact evalLogic_upTo hrec false t r (like.right h)
  | or => exact evalLogic_upTo hrec true t r (like.right h)
  | _ => exact evalBoth_upTo hrec _ t r (like.right h)

theorem evalIf_upTo (c t : Expr) (e : Option Expr) (h : Like (c.freeVars ++ t.freeVars) env env')
    (he : ∀ e' ∈ e, Like e'.freeVars env env') :
    UpTo answer refusal (evalIf rec env c t e) (evalIf rec' env' c t e) := by
  refine (hrec c (like.left h)).bind fun v => ?_
  obtain ⟨v, d⟩ := v
  cases v with
  | bool b =>
    cases b with
    | true => exact UpTo.rfl.bind fun _ => hrec t (like.right h)
    | false =>
    refine UpTo.rfl.bind fun _ => ?_
    cases e with
    | none => exact .rfl
    | some e => exact hrec e (he e rfl)
  | _ => exact .rfl

theorem evalPropertyAccess_upTo (e : Expr) (property : String) (optional : Bool)
    (h : Like e.freeVars env env') :
    UpTo answer refusal (evalPropertyAccess rec env e property optional)
      (evalPropertyAccess rec' env' e property optional) := by
  have hagree := like.agree h
  rw [evalPropertyAccess, evalPropertyAccess, directGlobal_congr hagree.rawModule hagree.globals]
  cases directGlobal env' property e with
  | some t => exact .rfl
  | none => exact (hrec e h).bind fun _ => .rfl

theorem evalIndexedAccess_upTo (e index : Expr)
    (h : Like (e.freeVars ++ index.freeVars) env env') :
    UpTo answer refusal (evalIndexedAccess rec env e index)
      (evalIndexedAccess rec' env' e index) := by
  refine (hrec e (like.left h)).bind fun t => ?_
  obtain ⟨v, d⟩ := t
  cases v with
  | dict | list => exact UpTo.rfl.bind fun _ => (hrec index (like.right h)).bind fun _ => .rfl
  | _ => exact .rfl

/-- **One node**, if it holds for its parts.  Catch clauses are left to `evalCatches`. -/
theorem step_upTo (e : Expr) (hcatch : ∀ e' cs, e ≠ .tryCatch e' cs)
    (h : Like e.freeVars env env') :
    UpTo answer refusal (step ev rec env e) (step ev rec' env' e) := by
  cases e with
  | int | float | bool | nil | str | externExpr | exception => exact .rfl
  | path segments =>
    rw [step, step, (like.agree h).module]
    exact .rfl
  | ifThen c t => exact evalIf_upTo like hrec c t none h nofun
  | ifElse c t e =>
    refine evalIf_upTo like hrec c t (some e) (like.left h) ?_
    rintro e' ⟨⟩
    exact like.right h
  | letIn x ty b e =>
    exact (hrec b (like.left h)).bind fun t => hrec e (like.withLocal (like.right h))
  | fn site tps ps body =>
    rw [step, step, (like.agree h).module, (like.agree h).rawModule, (like.agree h).captures]
    exact .rfl
  | call f targs args => exact evalCall_upTo like hrec f args h
  | unary op e | raise e => exact (hrec e h).bind fun _ => .rfl
  | binary op l r => exact evalBinary_upTo like hrec op l r h
  | var x =>
    rw [step, step, (like.agree h).values x mem_cons_self]
    exact .rfl
  | record fs => exact evalRecord_upTo like hrec fs [] [] h
  | dict es => exact evalDict_upTo like hrec es [] [] h
  | list items => exact evalList_upTo like hrec items [] h
  | interp ps => exact evalInterp_upTo like hrec ps "" [] h
  | propertyAccess e p o => exact evalPropertyAccess_upTo like hrec e p o h
  | indexedAccess e i => exact evalIndexedAccess_upTo like hrec e i h
  | typeCast e ty => exact hrec e h
  | tryCatch e cs => exact absurd rfl (hcatch e cs)

end Step

/-! ## Catch clauses -/

section Catches

variable (ev : Evaluator) (rec : EvalEnv → Expr → EvalM TrackedValue)

/-- The end of an evaluation that comes to a clause with a name for a payload that is not there. -/
def unexpectedCatchArg : Stop := .error (.custom "the exception does not take a payload")

/-- Whether a clause gives a name to the payload of an exception without one. -/
def namesNothing (target : Value) (arg : Option String) : Bool :=
  match target, arg with
  | .exception _ _, some _ => true
  | _, _ => false

/-- The catch clauses in turn, with a refusal of those that name a payload that is not there. -/
def evalCatchesNamed (env : EvalEnv) (i : ℕ) (payload : Value) (name : String) :
    List (String × Option String × Expr) → EvalM TrackedValue
  | [] => failing (.exception i payload name)
  | (x, arg, body) :: rest => do
    let target := (env.evalVarName x).value
    let j ← catchTarget ev rec env payload target
    if j = i then
      if namesNothing target arg then .fail unexpectedCatchArg
      else rec (catchEnv env payload target arg) body
    else evalCatchesNamed env i payload name rest

variable {ev rec} {answer : (o : Ask) → o.Resp} {rec' : EvalEnv → Expr → EvalM TrackedValue}
  {env env' : EvalEnv}

/-- A clause that is not refused binds the payload, if it has a name for it. -/
theorem Agree.catchEnv {body : Expr} {target : Value} {arg : Option String}
    (h : Agree (body.freeVars.filter (some · ≠ arg)) env env')
    (hnames : namesNothing target arg = false) (payload : Value) :
    Agree body.freeVars (catchEnv env payload target arg) (catchEnv env' payload target arg) := by
  cases arg with
  | none =>
    have hcatch (env : EvalEnv) : Sclc.catchEnv env payload target none = env := by
      cases target <;> rfl
    rw [hcatch, hcatch]
    exact h.mono fun x hx => mem_filter.2 ⟨hx, rfl⟩
  | some x =>
  have hcatch (env : EvalEnv) :
      Sclc.catchEnv env payload target (some x) = env.withLocal x (.new payload) := by
    cases target with
    | exception i v => exact nomatch hnames
    | _ => rfl
  rw [hcatch, hcatch]
  refine .withLocal (h.mono fun y hy => ?_)
  simpa using hy

variable (hrec : ∀ {env env' : EvalEnv} (e : Expr), Agree e.freeVars env env' →
  UpTo answer unexpectedCatchArg (rec env e) (rec' env' e))

include hrec

theorem evalCatches_upTo (i : ℕ) (payload : Value) (name : String)
    (cs : List (String × Option String × Expr)) (h : Agree (freeVarsCatches cs) env env') :
    UpTo answer unexpectedCatchArg (evalCatches ev rec env i payload name cs)
      (evalCatchesNamed ev rec' env' i payload name cs) := by
  induction cs with
  | nil => exact .rfl
  | cons c cs ih =>
  obtain ⟨x, arg, body⟩ := c
  rw [evalCatches, evalCatchesNamed, h.values x mem_cons_self]
  have htarget := catchTarget_upTo ev (fun env e => hrec e (.refl _ env)) h.scope h.globals payload
    (env'.evalVarName x).value
  refine htarget.bind fun j => ?_
  split
  · cases hnames : namesNothing (env'.evalVarName x).value arg with
    | true => exact .refused
    | false =>
    have hbody := h.left.mono (subset_cons_self x _)
    exact hrec body (hbody.catchEnv hnames payload)
  · exact ih h.right

end Catches

/-- Evaluation with a refusal of catch clauses that name a payload that is not there. -/
def evalNamed (ev : Evaluator) : ℕ → EvalEnv → Expr → EvalM TrackedValue
  | 0, _, _ => .fail .exhausted
  | n + 1, env, .tryCatch e cs =>
    recover (evalNamed ev n env e) fun i payload name =>
      evalCatchesNamed ev (evalNamed ev n) env i payload name cs
  | n + 1, env, e => step ev (evalNamed ev n) env e

/-- An evaluation that is not refused is the evaluation in any environment that agrees on the free
variables. -/
theorem eval_upTo_named (answer : (o : Ask) → o.Resp) (ev : Evaluator) (n : ℕ)
    {env env' : EvalEnv} (e : Expr) (h : Agree e.freeVars env env') :
    UpTo answer unexpectedCatchArg (eval ev n env e) (evalNamed ev n env' e) := by
  induction n generalizing env env' e with
  | zero => exact .rfl
  | succ n ih =>
  cases e with
  | tryCatch e cs =>
    refine recover_upTo nofun (ih e h.left) fun i payload name => ?_
    exact evalCatches_upTo (fun e => ih e) i payload name cs h.right
  | _ => exact step_upTo .of_agree (fun e => ih e) _ nofun h

/-! ## Functions -/

/-- The value of a function literal that captures some names. -/
def capturing (env : EvalEnv) (names : List String) (site : ℕ)
    (ps : List (String × Option TypeExpr)) (body : Expr) : Value :=
  .fn env.module env.rawModule site (ps.map Prod.fst) (env.captures names) none [] body

variable {names : List String} {x : String}

theorem lookup_captures (env : EvalEnv) (hx : x ∈ names) :
    (env.captures names).reverse.lookup x = some (env.evalVarName x) := by
  rw [EvalEnv.captures, ← map_reverse]
  generalize hl : names.reverse = l
  replace hx : x ∈ l := hl ▸ mem_reverse.2 hx
  clear hl
  induction l with
  | nil => exact absurd hx not_mem_nil
  | cons y l ih =>
  rw [map_cons, lookup_cons]
  by_cases hxy : x = y
  · rw [hxy, beq_self_eq_true]
  · rw [beq_false_of_ne hxy]
    exact ih ((mem_cons.1 hx).resolve_left hxy)

variable {args : List TrackedValue}

/-- With an argument for each of them, all parameters are bound. -/
theorem lookup_parameters {ps : List String}
    (hargs : ps.length ≤ args.length) (hx : x ∈ ps) :
    ∃ t, (ps.zip args).reverse.lookup x = some t := by
  refine Option.ne_none_iff_exists'.1 fun hnone => ?_
  rw [← map_fst_zip hargs] at hx
  obtain ⟨p, hp, rfl⟩ := mem_map.1 hx
  simpa using lookup_eq_none_iff.1 hnone p (mem_reverse.2 hp)

/-- The body of a function finds its parameters and what was captured. -/
theorem evalVarName_fnEnv (caller env : EvalEnv) (self : Value) {ps : List String}
    (hargs : ps.length ≤ args.length)
    (hx : x ∈ ps ∨ x ∈ names) :
    (fnEnv caller self env.module env.rawModule ps (env.captures names) none [] args).evalVarName x
      = ((ps.zip args).reverse.lookup x).getD (env.evalVarName x) := by
  have hlocals : (fnEnv caller self env.module env.rawModule ps (env.captures names) none []
      args).locals = (ps.zip args).reverse ++ (env.captures names).reverse := rfl
  rw [EvalEnv.evalVarName, hlocals, lookup_append]
  rcases hx with hx | hx
  · obtain ⟨t, ht⟩ := lookup_parameters hargs hx
    rw [ht]
    rfl
  rw [lookup_captures env hx]
  cases (ps.zip args).reverse.lookup x with
  | none | some => rfl

/-- The body finds its free variables, whichever further names were captured. -/
theorem fnEnv_agree (caller env : EvalEnv) (self self' : Value) {site : ℕ}
    {tps : List (String × TypeExpr)} {ps : List (String × Option TypeExpr)} {body : Expr}
    (hnames : (Expr.fn site tps ps body).freeVars ⊆ names)
    (hargs : ps.length ≤ args.length) :
    Agree body.freeVars
      (fnEnv caller self env.module env.rawModule (ps.map Prod.fst) (env.captures names) none []
        args)
      (fnEnv caller self' env.module env.rawModule (ps.map Prod.fst)
        (env.captures (Expr.fn site tps ps body).freeVars) none [] args) := by
  replace hargs : (ps.map Prod.fst).length ≤ args.length := by rwa [length_map]
  refine ⟨rfl, rfl, rfl, rfl, fun x hx => ?_⟩
  have hfound : x ∈ ps.map Prod.fst ∨ x ∈ (Expr.fn site tps ps body).freeVars := by
    by_cases hps : x ∈ ps.map Prod.fst
    · exact .inl hps
    · exact .inr (mem_filter.2 ⟨hx, decide_eq_true hps⟩)
  rw [evalVarName_fnEnv caller env _ hargs hfound,
    evalVarName_fnEnv caller env _ hargs (hfound.imp_right (@hnames x))]

/-- **Coincidence.**  Environments that agree on the free variables of an expression evaluate it to
the same result and with the same requests, unless the evaluation comes to a catch clause that gives
a name to the payload of an exception without one.  So a function that captured its free variables,
called with an argument for each parameter, does what it would do had it captured any larger part of
the environment. -/
theorem coincidence (ev : Evaluator) (n : ℕ) (env : EvalEnv) (answer : (o : Ask) → o.Resp) :
    (∀ (env' : EvalEnv) (e : Expr), Agree e.freeVars env env' →
      ¬(evalNamed ev n env e).Refused answer unexpectedCatchArg →
      (eval ev n env e).against answer = (eval ev n env' e).against answer) ∧
    ∀ (caller : EvalEnv) (names : List String) (site : ℕ) (tps : List (String × TypeExpr))
      (ps : List (String × Option TypeExpr)) (body : Expr) (args : List TrackedValue),
      (Expr.fn site tps ps body).freeVars ⊆ names → ps.length ≤ args.length →
      ∃ f, eval ev (n + 1) env (.fn site tps ps body) = pure (.new f) ∧
        (¬(callValue ev (evalNamed ev n) caller f args).Refused answer unexpectedCatchArg →
        (callValue ev (eval ev n) caller f args).against answer =
          (callValue ev (eval ev n) caller (capturing env names site ps body) args).against
            answer) := by
  constructor
  · intro env' e h hnamed
    exact (eval_upTo_named answer ev n e (.refl _ env)).eq_of_eq
      (eval_upTo_named answer ev n e h.symm) hnamed
  intro caller names site tps ps body args hnames hargs
  refine ⟨capturing env (Expr.fn site tps ps body).freeVars site ps body, rfl, fun hnamed => ?_⟩
  exact (eval_upTo_named answer ev n body (.refl _ _)).eq_of_eq
    (eval_upTo_named answer ev n body (fnEnv_agree caller env _ _ hnames hargs)) hnamed

end General

/-! ## Payloads that are not there -/

namespace Payloads

local instance : Floats := Floats.int

def evaluator : Evaluator := ⟨⟨"local"⟩, fun _ => none, fun _ _ => ⟨"", [], ""⟩⟩

/-- An environment in which `E` is an exception without a payload, `F` one with a payload, and `x`
is a number. -/
def envWith (x : ℤ) : EvalEnv :=
  ⟨⟨[], []⟩, [], [],
    [("E", .new (.exception 0 .nil)), ("F", .new (.exceptionFn 1)), ("x", .new (.int x))],
    ⟨[], [], []⟩⟩

/-- `try raise E catch E(x): x` -/
def bare : Expr := .tryCatch (.raise (.var "E")) [("E", some "x", .var "x")]

/-- `try raise F(1) catch F(p): p + x` -/
def carried : Expr :=
  .tryCatch (.raise (.call (.var "F") [] [.int 1]))
    [("F", some "p", .binary .add (.var "p") (.var "x"))]

/-- No resources, and nothing to say about notes. -/
def noAnswer : (o : Ask) → o.Resp
  | .resource _ _ _ => none
  | .note _ => ()

/-- What an evaluation comes to. -/
def resultOf (p : EvalM TrackedValue) : Option ℤ :=
  match (p.against noAnswer).1 with
  | .ok ⟨.int n, _⟩ => some n
  | _ => none

/-- A name that is not used may be added, and a function may capture more than it uses. -/
theorem carried_coincides :
    (eval evaluator 5 (envWith 1) carried).against noAnswer =
      (eval evaluator 5 ((envWith 1).withLocal "p" (.new .nil)) carried).against noAnswer ∧
    resultOf (eval evaluator 5 (envWith 1) carried) = some 2 ∧
    ∃ f, eval evaluator 6 (envWith 1) (.fn 0 [] [("a", none)] carried) = pure (.new f) ∧
      (callValue evaluator (eval evaluator 5) (envWith 3) f [.new .nil]).against noAnswer =
        (callValue evaluator (eval evaluator 5) (envWith 3)
          (capturing (envWith 1) ["F", "x", "E"] 0 [("a", none)] carried)
          [.new .nil]).against noAnswer := by
  obtain ⟨heval, hcall⟩ := coincidence evaluator 5 (envWith 1) noAnswer
  have hagree : Agree carried.freeVars (envWith 1) ((envWith 1).withLocal "p" (.new .nil)) := by
    refine ⟨rfl, rfl, rfl, rfl, fun x hx => (EvalEnv.evalVarName_withLocal_ne ?_).symm⟩
    rintro rfl
    exact absurd hx (by decide)
  refine ⟨heval _ _ hagree nofun, rfl, ?_⟩
  obtain ⟨f, hf, h⟩ := hcall (envWith 3) ["F", "x", "E"] 0 [] [("a", none)] carried [.new .nil]
    (by decide) (by decide)
  cases hf
  exact ⟨_, rfl, h nofun⟩

/-- A clause that gives a name to the payload of an exception without one reads that name from
outside, though it is not free; and a parameter without an argument is read from outside. -/
theorem payload_from_outside :
    (Agree bare.freeVars (envWith 1) (envWith 2) ∧
      resultOf (eval evaluator 3 (envWith 1) bare) = some 1 ∧
      resultOf (eval evaluator 3 (envWith 2) bare) = some 2) ∧
    (¬∀ (ev : Evaluator) (n : ℕ) (env env' : EvalEnv) (e : Expr), Agree e.freeVars env env' →
      eval ev n env e = eval ev n env' e) ∧
    resultOf (callValue evaluator (eval evaluator 3) (envWith 3)
      (capturing (envWith 1) bare.freeVars 0 [] bare) []) = none ∧
    resultOf (callValue evaluator (eval evaluator 3) (envWith 3)
      (capturing (envWith 1) ["E", "F", "x"] 0 [] bare) []) = some 1 ∧
    (Expr.fn 0 [] [("x", none)] (.var "x")).freeVars = [] ∧
    resultOf (callValue evaluator (eval evaluator 3) (envWith 3)
      (capturing (envWith 1) [] 0 [("x", none)] (.var "x")) []) = none ∧
    resultOf (callValue evaluator (eval evaluator 3) (envWith 3)
      (capturing (envWith 1) ["E", "F", "x"] 0 [("x", none)] (.var "x")) []) = some 1 := by
  have hagree : Agree bare.freeVars (envWith 1) (envWith 2) := by
    refine ⟨rfl, rfl, rfl, rfl, fun x hx => ?_⟩
    obtain rfl : x = "E" := by simpa [bare, Expr.freeVars, freeVarsCatches] using hx
    rfl
  refine ⟨⟨hagree, rfl, rfl⟩, fun h => ?_, rfl, rfl, rfl, rfl, rfl⟩
  exact nomatch congrArg resultOf (h evaluator 3 _ _ bare hagree)

end Payloads

end Skyr.Sclc
