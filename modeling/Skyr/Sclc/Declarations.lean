import Skyr.Sclc.Checker
import Skyr.Sclc.Eval

/-!
# Checking programs

A program is checked declaration by declaration, what a declaration refers to before the
declaration.  Declarations that refer to each other come as one group.

* In a group of type declarations each name stands for a type variable while the group is resolved,
  and then a declaration is wrapped in a binder of *its own* variable, if that occurs in it.
* A global that refers to itself has a variable for its type while it is checked, and so has each
  of a group of functions in one module.  What was found out about the variables is substituted
  once.
* In a group across modules the variables are in the global environment, and the types of the
  members are substituted for them once.
-/

namespace Skyr.Sclc

/-- A type declaration.  Without parameters it stands for a type, with parameters for a function
from types to types. -/
structure TypeDef where
  name : String
  typeParams : List (String × TypeExpr)
  ty : TypeExpr

def resolveTypeDef (env : TypeEnv) (td : TypeDef) : CheckM (Ty ℕ) :=
  if td.typeParams.isEmpty then resolveTypeExpr env td.ty
  else do
    let (env, tps) ← resolveTypeParams true env td.typeParams
    let body ← resolveTypeExpr env td.ty
    node (.fn · tps [] body)

variable [Floats]

/-- A global: its module, its name, the type it is declared with, and its value. -/
structure LetBind where
  module : ModuleNode
  name : String
  ty : Option TypeExpr
  expr : Expr

/-- A step of a program's check. -/
inductive Decl
  /-- Type declarations.  `recursive` is set if they refer to each other, or one to itself. -/
  | types (members : List (ModuleNode × TypeDef)) (recursive : Bool)
  /-- A global.  `selfEdge` is set if it refers to itself. -/
  | global (bind : LetBind) (selfEdge : Bool)
  /-- Globals that refer to each other. -/
  | group (members : List LetBind)
  | exports (m : ModuleNode) (names types : List String)
  | scle (m : ModuleNode) (ty : Option TypeExpr) (body : Expr)
  | statement (m : ModuleNode) (e : Expr)

/-- What is evaluated for a declaration. -/
def Decl.items : Decl → List Item
  | types _ _ => []
  | global b selfEdge => [.global b.module b.name b.expr selfEdge]
  | group bs => [.group (bs.map fun b => (b.module, b.name, b.expr))]
  | exports m names _ => [.exports m names]
  | scle m _ body => [.scle m body]
  | statement m e => [.statement m e]

omit [Floats] in
/-- Where the declarations of a module are checked. -/
def TypeEnv.top (g : GlobalTypeEnv) (m : ModuleNode) : TypeEnv :=
  ⟨m.id, m.raw, g, [], [], [], .empty⟩

def isFn : Expr → Bool
  | .fn .. => true
  | _ => false

def LetBind.key (b : LetBind) : GlobalKey := .global b.module.raw b.name

/-! ## Type declarations -/

section Types

omit [Floats]

/-- Let each name of a group stand for its variable. -/
def bootstrap (g : GlobalTypeEnv) :
    List (ModuleNode × TypeDef) → CheckM (GlobalTypeEnv × List (ModuleNode × TypeDef × ℕ))
  | [] => pure (g, [])
  | (m, td) :: rest => do
    let x ← fresh
    let v ← node (.var · x)
    let (g, rest) ← bootstrap (g.insert (.typeDecl m.raw td.name) v) rest
    pure (g, (m, td, x) :: rest)

/-- Resolve every declaration of a group, and wrap it where it refers to itself. -/
def resolveMembers (g : GlobalTypeEnv) :
    List (ModuleNode × TypeDef × ℕ) → CheckM (List (GlobalKey × Ty ℕ))
  | [] => pure []
  | (m, td, x) :: rest => do
    let t ← resolveTypeDef (.top g m) td
    let rest ← resolveMembers g rest
    let t ← if t.containsVar x then node (.isoRec · x t) else pure t
    pure ((.typeDecl m.raw td.name, t) :: rest)

/-- Store some types. -/
def storeAll (g : GlobalTypeEnv) (types : List (GlobalKey × Ty ℕ)) : GlobalTypeEnv :=
  types.foldl (fun g e => g.insert e.1 e.2) g

def processTypeDecls (g : GlobalTypeEnv) (members : List (ModuleNode × TypeDef))
    (recursive : Bool) : CheckM GlobalTypeEnv :=
  match members, recursive with
  | [(m, td)], false => do
    let t ← resolveTypeDef (.top g m) td
    pure (g.insert (.typeDecl m.raw td.name) t)
  | members, _ => do
    let (g, members) ← bootstrap g members
    let types ← resolveMembers g members
    pure (storeAll g types)

end Types

/-! ## Globals -/

section Globals

variable (fuel : ℕ)

def solve (bindings : List (ℕ × Ty ℕ)) : CheckM (List (ℕ × Ty ℕ)) := do
  let i ← fresh
  .ask (.solve i bindings) .ret

/-- A global by itself.  Its name stands for a variable in its own value. -/
def checkGlobalLetBind (env : TypeEnv) (b : LetBind) : CheckM (Ty ℕ) := do
  let annotated ← resolveOption env b.ty
  let x ← fresh
  .ask .reset .ret
  register x
  let v ← node (.var · x)
  let r ← checkExpr fuel (env.withLocal b.name v) b.expr annotated
  let σ ← solve [(x, r.ty)]
  pure (annotated.getD (r.ty.substitute σ))

def checkSingletonGlobal (g : GlobalTypeEnv) (b : LetBind) (selfEdge : Bool) :
    CheckM GlobalTypeEnv :=
  if selfEdge && !isFn b.expr then do
    let never ← reportNever (.top g b.module) (.cyclicDependency [b.name])
    pure (g.insert b.key never)
  else do
    let t ← checkGlobalLetBind fuel (.top g b.module) b
    pure (g.insert b.key t)

/-- Globals in a cycle that are not all functions. -/
def diagnoseCyclicNonFns (names : List String) (g : GlobalTypeEnv) :
    List LetBind → CheckM GlobalTypeEnv
  | [] => pure g
  | b :: bs => do
    let never ← reportNever (.top g b.module) (.cyclicDependency names)
    diagnoseCyclicNonFns names (g.insert b.key never) bs

/-- A variable for each member of a group. -/
def registerMembers : List LetBind → CheckM (List (LetBind × ℕ))
  | [] => pure []
  | b :: bs => do
    let x ← fresh
    register x
    let rest ← registerMembers bs
    pure ((b, x) :: rest)

/-- The names of a group stand for its variables. -/
def withFreeVars (env : TypeEnv) : List (LetBind × ℕ) → CheckM TypeEnv
  | [] => pure env
  | (b, x) :: rest => do
    let v ← node (.var · x)
    withFreeVars (env.withLocal b.name v) rest

/-- The type a global is declared with, or else the one its value has. -/
def checkBinding (env : TypeEnv) (b : LetBind) : CheckM (Ty ℕ) := do
  let annotated ← resolveOption env b.ty
  let r ← checkExpr fuel env b.expr annotated
  pure (annotated.getD r.ty)

def checkSccBindings (env : TypeEnv) : List (LetBind × ℕ) → CheckM (List (LetBind × ℕ × Ty ℕ))
  | [] => pure []
  | (b, x) :: rest => do
    let t ← checkBinding fuel env b
    let rest ← checkSccBindings env rest
    pure ((b, x, t) :: rest)

/-- Functions of one module that refer to each other. -/
def checkRecursiveSccGroup (g : GlobalTypeEnv) (m : ModuleNode) (bs : List LetBind) :
    CheckM GlobalTypeEnv := do
  .ask .reset .ret
  let members ← registerMembers bs
  let env ← withFreeVars (.top g m) members
  let results ← checkSccBindings fuel env members
  let σ ← solve (results.map fun r => r.2)
  pure (storeAll g (results.map fun r => (r.1.key, r.2.2.substitute σ)))

/-- A variable for each member of a group, in the global environment. -/
def prepopulate (g : GlobalTypeEnv) :
    List LetBind → CheckM (GlobalTypeEnv × List (LetBind × ℕ))
  | [] => pure (g, [])
  | b :: bs => do
    let x ← fresh
    register x
    let v ← node (.var · x)
    let (g, rest) ← prepopulate (g.insert b.key v) bs
    pure (g, (b, x) :: rest)

def checkCrossBindings (g : GlobalTypeEnv) :
    List (LetBind × ℕ) → CheckM (List (LetBind × ℕ × Ty ℕ))
  | [] => pure []
  | (b, x) :: rest => do
    register x
    let v ← node (.var · x)
    let t ← checkBinding fuel ((TypeEnv.top g b.module).withLocal b.name v) b
    let rest ← checkCrossBindings g rest
    pure ((b, x, t) :: rest)

/-- Each type of a group across modules, below a binder of its variable. -/
def wrapMembers (σ : List (ℕ × Ty ℕ)) :
    List (LetBind × ℕ × Ty ℕ) → CheckM (List (GlobalKey × Ty ℕ))
  | [] => pure []
  | (b, x, t) :: rest => do
    let t ← node (.isoRec · x (t.substitute σ))
    let rest ← wrapMembers σ rest
    pure ((b.key, t) :: rest)

/-- Functions of several modules that refer to each other. -/
def checkCrossModuleRecursiveGroup (g : GlobalTypeEnv) (bs : List LetBind) :
    CheckM GlobalTypeEnv := do
  .ask .reset .ret
  let (g, members) ← prepopulate g bs
  let results ← checkCrossBindings fuel g members
  let types ← wrapMembers (results.map fun r => r.2) results
  pure (storeAll g types)

def checkMultiGlobalScc (g : GlobalTypeEnv) (bs : List LetBind) : CheckM GlobalTypeEnv :=
  if bs.all fun b => isFn b.expr then
    match bs with
    | [] => pure g
    | b :: rest =>
      if rest.all fun b' => b'.module.raw = b.module.raw then
        checkRecursiveSccGroup fuel g b.module bs
      else checkCrossModuleRecursiveGroup fuel g bs
  else diagnoseCyclicNonFns (bs.map LetBind.name) g bs

/-! ## Modules -/

/-- The types of some globals, each below a binder of nothing. -/
def exportTypes (g : GlobalTypeEnv) (m : ModuleNode) :
    List String → List (String × Ty ℕ) → CheckM (List (String × Ty ℕ))
  | [], fields => pure fields
  | name :: names, fields =>
    match g.get (.global m.raw name) with
    | some t => do
      let x ← fresh
      let t ← node (.isoRec · x t)
      exportTypes g m names (insertField fields name t)
    | none => exportTypes g m names fields

/-- The types a module exports. -/
def exportTypeDecls (g : GlobalTypeEnv) (m : ModuleNode) :
    List String → List (String × Ty ℕ) → List (String × Ty ℕ)
  | [], fields => fields
  | name :: names, fields =>
    match g.get (.typeDecl m.raw name) with
    | some t => exportTypeDecls g m names (insertField fields name t)
    | none => exportTypeDecls g m names fields

def assembleModule (g : GlobalTypeEnv) (m : ModuleNode) (names types : List String) :
    CheckM GlobalTypeEnv := do
  let fields ← exportTypes g m names []
  let value ← node (.record · fields)
  let g := g.insert (.moduleValue m.raw) value
  let typeLevel ← node (.record · (exportTypeDecls g m types []))
  pure (g.insert (.moduleTypeLevel m.raw) typeLevel)

/-- A module that is a single expression has its declared type, and exports no types. -/
def checkScle (g : GlobalTypeEnv) (m : ModuleNode) (ty : Option TypeExpr) (body : Expr) :
    CheckM GlobalTypeEnv := do
  .ask .reset .ret
  let expected ← resolveOption (.top g m) ty
  let r ← checkExpr fuel (.top g m) body expected
  let g := g.insert (.moduleValue m.raw) (expected.getD r.ty)
  let typeLevel ← node (.record · [])
  pure (g.insert (.moduleTypeLevel m.raw) typeLevel)

def checkDecl (g : GlobalTypeEnv) : Decl → CheckM GlobalTypeEnv
  | .types members recursive => processTypeDecls g members recursive
  | .global b selfEdge => checkSingletonGlobal fuel g b selfEdge
  | .group bs => checkMultiGlobalScc fuel g bs
  | .exports m names types => assembleModule g m names types
  | .scle m ty body => checkScle fuel g m ty body
  | .statement m e => do
    .ask .reset .ret
    let _ ← checkExpr fuel (.top g m) e none
    pure g

/-- Check a program, from the types known at the start. -/
def checkProgram (g : GlobalTypeEnv) (decls : List Decl) : CheckM GlobalTypeEnv :=
  decls.foldlM (checkDecl fuel) g

end Globals

end Skyr.Sclc
