import Skyr.Sclc.Coincidence
import Skyr.Sclc.Known

/-!
# What stands before a dot

In `x.p` the variable `x` may be the name of an import, and then `x.p` is the global `p` of the
module that is imported.  Both the checker and the evaluator look for such a global first, before
they look at what `x` stands for.  So there are two readings of a property access, through the
variable and through the import, and which of them applies should follow from the scopes: a variable
that is bound where the access stands is not the name of an import, and a module is left through its
exports only.

Neither is looked at.  The global is taken whenever it is there, so a binding of the same name is
passed over, and a global that is not exported is reached; and since the checker looks into the
types that are known at its time and the evaluator into the values that are known at its own, the
two may read the same access differently.

The locals of the evaluator hold captured globals and imports besides what is bound by the program
text, and nothing in an environment tells them apart.  So an environment comes with its scope, the
variables that the text binds (`InScope`).
-/

namespace Skyr.Sclc

open Option

section General

variable [Floats]

/-! ## Scopes -/

/-- The variables that are bound by the text where an environment is used, with their values, the
innermost first.  A function literal keeps those of the place where it was made, as far as it
captures them; what it captures of globals and imports is not bound. -/
inductive InScope : List (String × TrackedValue) → EvalEnv → Prop
  | top (g : GlobalEvalEnv) (m : ModuleNode) : InScope [] (.top g m)
  /-- A `let`, a `for` or a catch clause. -/
  | bind {scope : List (String × TrackedValue)} {env : EvalEnv} (x : String) (t : TrackedValue)
      (h : InScope scope env) : InScope ((x, t) :: scope) (env.withLocal x t)
  /-- The body of a function literal. -/
  | call {scope : List (String × TrackedValue)} {env : EvalEnv} (caller : EvalEnv) (self : Value)
      (ps names : List String) (args : List TrackedValue) (h : InScope scope env) :
      InScope ((ps.zip args).reverse ++ scope.filter (·.1 ∈ names))
        (fnEnv caller self env.module env.rawModule ps (env.captures names) none [] args)
  /-- The body of a global function, which may refer to itself and to others of its group. -/
  | callGlobal (g : GlobalEvalEnv) (m : ModuleNode) (caller : EvalEnv) (self : Value)
      (ps names : List String) (selfName : Option String) (group : List (String × Value))
      (args : List TrackedValue) :
      InScope (ps.zip args).reverse (fnEnv caller self m.id m.raw ps
        ((EvalEnv.top g m).captures names) selfName group args)

variable {env : EvalEnv} {t : TrackedValue} {x : String}

theorem EvalEnv.evalVarName_of_lookup
    (h : env.locals.lookup x = some t) : env.evalVarName x = t := by
  rw [evalVarName, h]

omit [Floats] in
theorem lookup_filter_names {α : Type} {l : List (String × α)} {names : List String} {a : α}
    (h : (l.filter (·.1 ∈ names)).lookup x = some a) : x ∈ names ∧ l.lookup x = some a := by
  induction l with
  | nil => cases h
  | cons p l ih =>
  by_cases hp : p.1 ∈ names
  · rw [List.filter_cons_of_pos (by simpa using hp), List.lookup_cons] at h
    rw [List.lookup_cons]
    by_cases hx : x = p.1
    · subst hx
      exact ⟨hp, by simpa using h⟩
    · rw [beq_false_of_ne hx] at h ⊢
      exact ih h
  · rw [List.filter_cons_of_neg (by simpa using hp)] at h
    obtain ⟨hmem, hlookup⟩ := ih h
    have hx : x ≠ p.1 := fun heq => hp (heq ▸ hmem)
    exact ⟨hmem, by rw [List.lookup_cons, beq_false_of_ne hx, hlookup]⟩

/-- A bound variable is found among the locals. -/
theorem InScope.lookup {scope : List (String × TrackedValue)} (h : InScope scope env) :
    ∀ {x t}, scope.lookup x = some t → env.locals.lookup x = some t := by
  induction h with
  | top => exact fun hx => by cases hx
  | bind y u h ih =>
    intro x t hx
    rw [List.lookup_cons] at hx
    rw [EvalEnv.withLocal, List.lookup_cons]
    split
    · next heq => rwa [heq] at hx
    · next heq =>
      rw [heq] at hx
      exact ih hx
  | @call scope env _ _ ps names args h ih =>
    intro x t hx
    rw [List.lookup_append] at hx
    rw [fnEnv, List.lookup_append]
    cases hps : (ps.zip args).reverse.lookup x with
    | some u => rwa [hps] at hx
    | none =>
    rw [hps, none_or] at hx
    obtain ⟨hmem, hlookup⟩ := lookup_filter_names hx
    have hcs := lookup_captures env hmem
    rw [EvalEnv.evalVarName_of_lookup (ih hlookup)] at hcs
    rw [none_or]
    simpa using hcs
  | callGlobal =>
    intro x t hx
    rw [fnEnv, List.lookup_append, hx, some_or]

/-! ## The two readings -/

/-- The module a name is imported from, if it is not a single expression. -/
def sclTarget (importMaps : List (RawModuleId × List (String × RawModuleId)))
    (scleModules : List RawModuleId) (module : RawModuleId) (x : String) : Option RawModuleId :=
  ((importMaps.lookup module).bind (·.lookup x)).filter (· ∉ scleModules)

def EvalEnv.sclTarget (env : EvalEnv) (x : String) : Option RawModuleId :=
  Sclc.sclTarget env.globals.importMaps env.globals.scleModules env.rawModule x

def TypeEnv.sclTarget (env : TypeEnv) (x : String) : Option RawModuleId :=
  Sclc.sclTarget env.globals.importMaps env.globals.scleModules env.rawModule x

/-- The member of a value. -/
def memberOf (property : String) (optional : Bool) (t : TrackedValue) : EvalM TrackedValue :=
  match t.value with
  | .pending => pure (.pendingWith t.dependencies)
  | .nil => if optional then pure ⟨.nil, t.dependencies⟩ else failing (.unexpectedValue .nil)
  | .record fields => do
    note (.opened t)
    pure ⟨Fields.get fields property, t.dependencies⟩
  | other => failing (.unexpectedValue other)

theorem importedGlobal_eq (env : EvalEnv) (x property : String) :
    importedGlobal env x property =
      (env.sclTarget x).bind fun target => env.globals.get (.global target property) := by
  unfold importedGlobal EvalEnv.sclTarget sclTarget GlobalEvalEnv.resolveImportAlias
  cases (env.globals.importMaps.lookup env.rawModule).bind (·.lookup x) with
  | none => rfl
  | some target => by_cases h : target ∈ env.globals.scleModules <;> simp [h, Option.filter]

theorem evalPropertyAccess_eq (rec : EvalEnv → Expr → EvalM TrackedValue) (env : EvalEnv)
    (x property : String) (optional : Bool) :
    evalPropertyAccess rec env (.var x) property optional =
      match (env.sclTarget x).bind fun target => env.globals.get (.global target property) with
      | some t => pure t
      | none => rec env (.var x) >>= memberOf property optional := by
  rw [← importedGlobal_eq]
  rfl

/-- The member of something with a type. -/
def synthMemberOf (env : TypeEnv) (property : String) (optional : Bool) (r : TypeSynth) :
    CheckM TypeSynth := do
  let raw ← unfolded r.ty
  let t ← unfolded (env.resolveVarBound raw)
  match t, optional with
  | .never _, _ => do
    let never ← node .never
    pure ⟨never, r.props⟩
  | .optional source inner, true => synthOptionalMember env source inner property r.props
  | t, true => do
    let never ← reportNever env (.optionalChainOnNonOptional t.shape)
    pure ⟨never, r.props⟩
  | t, false => synthMember env raw t property r.props

theorem importedType_eq (env : TypeEnv) (x property : String) :
    importedType env property (.var x) =
      (env.sclTarget x).bind fun target => env.globals.get (.global target property) := by
  unfold importedType TypeEnv.sclTarget sclTarget GlobalTypeEnv.resolveImportAlias
  dsimp only
  cases (env.globals.importMaps.lookup env.rawModule).bind (·.lookup x) with
  | none => rfl
  | some target => by_cases h : target ∈ env.globals.scleModules <;> simp [h, Option.filter]

theorem synthPropertyAccess_eq (rec : TypeEnv → Expr → Option (Ty ℕ) → CheckM TypeSynth)
    (env : TypeEnv) (x property : String) (optional : Bool) :
    synthPropertyAccess rec env (.var x) property optional =
      match (env.sclTarget x).bind fun target => env.globals.get (.global target property) with
      | some t => pure (.new t)
      | none => rec env (.var x) none >>= synthMemberOf env property optional := by
  rw [← importedType_eq]
  rfl

/-- The evaluator reads the access through the variable: however it evaluates variables, the result
is the member of that value. -/
def ReadsVariable (env : EvalEnv) (x property : String) : Prop :=
  ∀ rec optional, evalPropertyAccess rec env (.var x) property optional =
    rec env (.var x) >>= memberOf property optional

/-- The evaluator reads the access through the import of a module: the result is the global of that
module, whatever the variable stands for. -/
def ReadsGlobal (env : EvalEnv) (x property : String) (target : RawModuleId) : Prop :=
  env.sclTarget x = some target ∧ ∃ t, env.globals.get (.global target property) = some t ∧
    ∀ rec optional, evalPropertyAccess rec env (.var x) property optional = pure t

/-- The checker reads the access through the variable. -/
def ChecksVariable (env : TypeEnv) (x property : String) : Prop :=
  ∀ rec optional, synthPropertyAccess rec env (.var x) property optional =
    rec env (.var x) none >>= synthMemberOf env property optional

/-- The checker reads the access through the import of a module. -/
def ChecksGlobal (env : TypeEnv) (x property : String) (target : RawModuleId) : Prop :=
  env.sclTarget x = some target ∧ ∃ t, env.globals.get (.global target property) = some t ∧
    ∀ rec optional, synthPropertyAccess rec env (.var x) property optional = pure (.new t)

/-! ### Which one applies -/

/-- The module that `x` is imported from has a value for the global. -/
def EvalEnv.Stores (env : EvalEnv) (x property : String) (target : RawModuleId) : Prop :=
  env.sclTarget x = some target ∧ env.globals.Has target property

/-- The module that `x` is imported from has a type for the global. -/
def TypeEnv.Stores (env : TypeEnv) (x property : String) (target : RawModuleId) : Prop :=
  env.sclTarget x = some target ∧ env.globals.Has target property

variable {x property : String}

theorem readsGlobal_iff {target : RawModuleId} :
    ReadsGlobal env x property target ↔ env.Stores x property target := by
  constructor
  · rintro ⟨hx, t, ht, -⟩
    exact ⟨hx, isSome_iff_exists.2 ⟨t, ht⟩⟩
  rintro ⟨hx, hstored⟩
  obtain ⟨t, ht⟩ := isSome_iff_exists.1 hstored
  refine ⟨hx, t, ht, fun rec optional => ?_⟩
  rw [evalPropertyAccess_eq, hx, bind_some, ht]

theorem checksGlobal_iff {env : TypeEnv} {target : RawModuleId} :
    ChecksGlobal env x property target ↔ env.Stores x property target := by
  constructor
  · rintro ⟨hx, t, ht, -⟩
    exact ⟨hx, isSome_iff_exists.2 ⟨t, ht⟩⟩
  rintro ⟨hx, hstored⟩
  obtain ⟨t, ht⟩ := isSome_iff_exists.1 hstored
  refine ⟨hx, t, ht, fun rec optional => ?_⟩
  rw [synthPropertyAccess_eq, hx, bind_some, ht]

theorem readsVariable_iff :
    ReadsVariable env x property ↔ ∀ target, ¬env.Stores x property target := by
  constructor
  · intro h target hstores
    obtain ⟨-, t, -, hglobal⟩ := readsGlobal_iff.2 hstores
    -- An evaluation that fails on variables tells the two readings apart.
    exact nomatch (hglobal (fun _ _ => .fail .exhausted) false).symm.trans (h _ false)
  intro h rec optional
  rw [evalPropertyAccess_eq]
  cases hx : env.sclTarget x with
  | none => rfl
  | some target =>
  have hnone := not_isSome_iff_eq_none.1 fun hsome => h target ⟨hx, hsome⟩
  rw [bind_some, hnone]

theorem checksVariable_iff {env : TypeEnv} :
    ChecksVariable env x property ↔ ∀ target, ¬env.Stores x property target := by
  constructor
  · intro h target hstores
    obtain ⟨-, t, -, hglobal⟩ := checksGlobal_iff.2 hstores
    exact nomatch (hglobal (fun _ _ _ => .fail ⟨⟩) false).symm.trans (h _ false)
  intro h rec optional
  rw [synthPropertyAccess_eq]
  cases hx : env.sclTarget x with
  | none => rfl
  | some target =>
  have hnone := not_isSome_iff_eq_none.1 fun hsome => h target ⟨hx, hsome⟩
  rw [bind_some, hnone]

/-! ## Scoping -/

/-- An access is read according to the scopes, by the evaluator in `env` and by the checker in
`tenv`, where some variables are bound and the modules have certain exports. -/
structure Scoped (exports : RawModuleId → List String) (scope : List (String × TrackedValue))
    (env : EvalEnv) (tenv : TypeEnv) (x property : String) : Prop where
  boundValue : ∀ t, scope.lookup x = some t → ReadsVariable env x property
  boundType : ∀ t, scope.lookup x = some t → ChecksVariable tenv x property
  /-- Only what a module exports is reached through its import. -/
  exportedValue : ∀ target, ReadsGlobal env x property target → property ∈ exports target
  exportedType : ∀ target, ChecksGlobal tenv x property target → property ∈ exports target
  agree : ReadsVariable env x property ↔ ChecksVariable tenv x property

/-- The evaluator and the checker are at the same place of a program, where the text binds the
variables in `scope`.  The evaluator has gone through the declarations `evaluated` until then, and
the checker through `checked`; that their globals are those of the declarations is what
`evalProgram_has` and `checkProgram_has` say. -/
structure Counterparts (evaluated checked : List Decl) (scope : List (String × TrackedValue))
    (env : EvalEnv) (tenv : TypeEnv) : Prop where
  scope : InScope scope env
  rawModule : env.rawModule = tenv.rawModule
  importMaps : env.globals.importMaps = tenv.globals.importMaps
  scleModules : env.globals.scleModules = tenv.globals.scleModules
  values : ∀ r n, env.globals.Has r n ↔ Defines evaluated r n
  types : ∀ r n, tenv.globals.Has r n ↔ Defines checked r n

/-- **Property accesses are read according to the scopes exactly if** the global that the two names
stand for is among the declarations checked when it is among those evaluated, and then its import
name is not bound again and the global is exported. -/
theorem scoped_iff (exports : RawModuleId → List String) (evaluated checked : List Decl)
    (scope : List (String × TrackedValue)) (env : EvalEnv) (tenv : TypeEnv)
    (h : Counterparts evaluated checked scope env tenv) (x property : String) :
    (∀ t, scope.lookup x = some t → env.evalVarName x = t) ∧
    (Scoped exports scope env tenv x property ↔ ∀ target, env.sclTarget x = some target →
      (Defines evaluated target property ↔ Defines checked target property) ∧
      (Defines checked target property → scope.lookup x = none ∧ property ∈ exports target)) := by
  have htarget : env.sclTarget x = tenv.sclTarget x := by
    unfold EvalEnv.sclTarget TypeEnv.sclTarget
    rw [h.rawModule, h.importMaps, h.scleModules]
  refine ⟨fun t ht => EvalEnv.evalVarName_of_lookup (h.scope.lookup ht), fun hs target hx => ?_,
    fun hc => ?_⟩
  · have hx' := htarget.symm.trans hx
    -- there is one module the name is imported from, so a difference shows in the readings
    have hiff : env.globals.Has target property ↔ tenv.globals.Has target property := by
      have hagree := hs.agree
      rw [readsVariable_iff, checksVariable_iff, ← not_exists, ← not_exists, not_iff_not] at hagree
      constructor
      · intro hv
        obtain ⟨_, ht, htype⟩ := hagree.1 ⟨target, hx, hv⟩
        cases ht.symm.trans hx'
        exact htype
      · intro ht
        obtain ⟨_, hv, hvalue⟩ := hagree.2 ⟨target, hx', ht⟩
        cases hv.symm.trans hx
        exact hvalue
    rw [← h.values, ← h.types]
    refine ⟨hiff, fun ht => ⟨?_, hs.exportedType target (checksGlobal_iff.2 ⟨hx', ht⟩)⟩⟩
    cases hlookup : scope.lookup x with
    | none => rfl
    | some t => exact absurd ⟨hx', ht⟩ (checksVariable_iff.1 (hs.boundType t hlookup) target)
  have hvalue : ∀ target, env.Stores x property target →
      scope.lookup x = none ∧ property ∈ exports target := by
    rintro target ⟨hx, hv⟩
    exact (hc target hx).2 ((hc target hx).1.1 ((h.values _ _).1 hv))
  have htype : ∀ target, tenv.Stores x property target →
      scope.lookup x = none ∧ property ∈ exports target := by
    rintro target ⟨hx, ht⟩
    exact (hc target (htarget.trans hx)).2 ((h.types _ _).1 ht)
  refine ⟨fun t ht => readsVariable_iff.2 fun target hv => ?_, fun t ht =>
    checksVariable_iff.2 fun target hty => ?_, fun target hv => ?_, fun target hty => ?_, ?_⟩
  · cases (hvalue target hv).1.symm.trans ht
  · cases (htype target hty).1.symm.trans ht
  · exact (hvalue target (readsGlobal_iff.1 hv)).2
  · exact (htype target (checksGlobal_iff.1 hty)).2
  · rw [readsVariable_iff, checksVariable_iff]
    refine forall_congr' fun target => not_congr ?_
    rw [EvalEnv.Stores, TypeEnv.Stores, htarget]
    refine and_congr_right fun hx => ?_
    rw [h.values, h.types]
    exact (hc target (htarget.trans hx)).1

end General

/-! ## Two modules -/

namespace Modules

local instance : Floats := Floats.int

open Payloads (evaluator noAnswer)

def lib : ModuleNode := ⟨⟨[], ["Lib"]⟩, ["Lib"], []⟩

def main : ModuleNode := ⟨⟨[], ["Main"]⟩, ["Main"], []⟩

/-- `Main` imports `Lib`. -/
def imports : List (RawModuleId × List (String × RawModuleId)) := [(["Main"], [("Lib", ["Lib"])])]

/-- `Lib` has `let p = "private"`, and `Main` has `let f = fn(Lib) Lib.p`. -/
def program : List Item :=
  [.global lib "p" (.str "private") false, .exports lib [],
    .global main "f" (.fn 0 [] [("Lib", none)] (.propertyAccess (.var "Lib") "p" false)) false,
    .exports main []]

/-- `f({p: "local"})` -/
def call : Expr := .call (.var "f") [] [.record [("p", .str "local")]]

/-- The text an expression of `Main` comes to. -/
def textOf (e : Expr) : Option String :=
  match ((evalAfter evaluator 5 program ⟨[], imports, []⟩ main e).against noAnswer).1 with
  | .ok ⟨.str s, _⟩ => some s
  | _ => none

/-- Where `Lib.p` is known and nothing is bound. -/
def env : EvalEnv := .top ⟨[(.global ["Lib"] "p", .new (.str "private"))], imports, []⟩ main

/-- The same for the checker, where some types are known. -/
def tenv (types : List (GlobalKey × Ty ℕ)) : TypeEnv := .top ⟨types, imports, []⟩ main

def known : List (GlobalKey × Ty ℕ) := [(.global ["Lib"] "p", .prim 0 .str)]

/-- `Lib` has been gone through. -/
def libDecls : List Decl := [.global ⟨lib, "p", none, .str "private"⟩ false]

theorem defines_libDecls {r : RawModuleId} {n : String} :
    Defines libDecls r n ↔ r = ["Lib"] ∧ n = "p" := by
  simp [Defines, libDecls, Decl.Defines, LetBind.key, lib, eq_comm]

theorem has_env {r : RawModuleId} {n : String} :
    env.globals.Has r n ↔ Defines libDecls r n := by
  have h : env.globals = GlobalEvalEnv.insert ⟨[], imports, []⟩ (.global ["Lib"] "p")
    (.new (.str "private")) := rfl
  rw [h, GlobalEvalEnv.has_insert, defines_libDecls]
  simp [GlobalEvalEnv.Has, GlobalEvalEnv.get, eq_comm]

theorem has_known {r : RawModuleId} {n : String} :
    (tenv known).globals.Has r n ↔ Defines libDecls r n := by
  have h : (tenv known).globals = GlobalTypeEnv.insert ⟨[], imports, []⟩ (.global ["Lib"] "p")
    (.prim 0 .str) := rfl
  rw [h, GlobalTypeEnv.has_insert, defines_libDecls]
  simp [GlobalTypeEnv.Has, GlobalTypeEnv.get, eq_comm]

theorem env_stores : env.Stores "Lib" "p" ["Lib"] := ⟨rfl, rfl⟩

/-- The body of `fn(y) Lib.p`, which has captured the import. -/
def inFunction : EvalEnv :=
  fnEnv env .nil env.module env.rawModule ["y"] (env.captures ["Lib"]) none [] [.new .nil]

/-- `Lib.p` is read according to the scopes if `Lib` exports `p`, also in a function: the import that
it has captured is not bound there. -/
theorem exported_scoped :
    Scoped (fun _ => ["p"]) [("y", .new .nil)] inFunction (tenv known) "Lib" "p" := by
  have hscope : InScope [("y", .new .nil)] inFunction :=
    .call env .nil ["y"] ["Lib"] [.new .nil] (.top env.globals main)
  refine (scoped_iff _ libDecls libDecls _ _ _
    ⟨hscope, rfl, rfl, rfl, fun _ _ => has_env, fun _ _ => has_known⟩ _ _).2.2 fun target _ => ?_
  exact ⟨Iff.rfl, fun _ => ⟨rfl, List.mem_singleton.2 rfl⟩⟩

/-- The function returns the global of `Lib`, which is not exported, and not the property of its
argument.  A variable that is bound is passed over though the global is exported, a global that is
not exported is reached, and where the checker does not know the type of the global it reads the
access differently from the evaluator. -/
theorem global_instead_of_local :
    textOf call = some "private" ∧
    ¬Scoped (fun _ => ["p"]) [("Lib", .new .nil)] (env.withLocal "Lib" (.new .nil))
      ((tenv known).withLocal "Lib" (.any 1)) "Lib" "p" ∧
    ¬Scoped (fun _ => []) [] env (tenv known) "Lib" "p" ∧
    ¬Scoped (fun _ => ["p"]) [] env (tenv []) "Lib" "p" := by
  refine ⟨rfl, fun h => ?_, fun h => ?_, fun h => ?_⟩
  · exact readsVariable_iff.1 (h.boundValue _ rfl) ["Lib"] env_stores
  · exact absurd (h.exportedValue ["Lib"] (readsGlobal_iff.2 env_stores)) List.not_mem_nil
  have hchecks : ChecksVariable (tenv []) "Lib" "p" :=
    checksVariable_iff.2 fun target ht => absurd ht.2 Bool.false_ne_true
  exact readsVariable_iff.1 (h.agree.2 hchecks) ["Lib"] env_stores

end Modules

end Skyr.Sclc
