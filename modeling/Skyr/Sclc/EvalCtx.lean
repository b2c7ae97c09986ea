import Skyr.Ids

/-!
# The evaluator's resource context

`EvalCtx` is what a running SCL program sees of the world: the resources that exist, whose code is
running, and a channel on which it announces what it wants.  The one operation that touches all
three is `EvalCtx.resource`, the call behind every resource function of the standard library.  It
announces one effect and answers with the resource's outputs, or with nothing at all — the value
is then *pending*, and the program goes on with a hole in it.

A program is taken here as the tree of resource calls it makes (`Program`): which call comes next,
and with which inputs, depends on the answers so far.  What a program computes between two calls
does not show in the context and is not represented; an evaluation ends normally (`done`) or in an
uncaught exception or evaluation error (`throw`).
-/

namespace Skyr

/-! ## Records

The engines never look inside a record.  They compare two of them, they fall back on the empty
one, and they send them over the wire, which can fail in either direction. -/

/-- SCL records and their wire form. -/
class SclData where
  Record : Type
  Json : Type
  /-- The comparison of records.  It need not be reflexive: no function value equals any other. -/
  recordBEq : BEq Record
  empty : Record
  /-- Serialisation; pending values, functions and exceptions have no JSON form. -/
  toJson : Record → Except String Json
  fromJson : Json → Except String Record
  /-- The length of the printed JSON, in bytes. -/
  jsonSize : Json → ℕ

export SclData (Record Json)

/-- Numbers as records that are their own JSON, for examples. -/
@[reducible] def SclData.nat : SclData where
  Record := ℕ
  Json := ℕ
  recordBEq := instBEqOfDecidableEq
  empty := 0
  toJson := .ok
  fromJson := .ok
  jsonSize _ := 0

variable [SclData]

instance : BEq Record := SclData.recordBEq

/-! ## Resources and effects -/

/-- What a plugin says about a resource. -/
inductive Marker
  /-- It may change or vanish without the engine's doing. -/
  | volatile
  /-- It outlives its deployment. -/
  | sticky
deriving DecidableEq

/-- A resource as the evaluator sees it. -/
structure Resource where
  inputs : Record
  outputs : Record
  dependencies : List ResourceId
  markers : List Marker

/-- The three things a program can announce about a resource. -/
inductive EffectKind
  | createResource
  /-- It exists with other inputs or dependencies. -/
  | updateResource
  | touchResource
deriving DecidableEq

/-- An effect.  `owner` is the deployment whose code announced it, `none` inside a package that no
deployment stands behind. -/
structure Effect where
  kind : EffectKind
  id : ResourceId
  inputs : Record
  dependencies : List ResourceId
  sourceTrace : SourceTrace
  owner : Option DeploymentQid

/-! ## The context -/

/-- A package's name. -/
abbrev PackageId := List String

/-- A module as it is known at run time: its package, and its path in the package. -/
structure ModuleId where
  package : PackageId
  path : List String
deriving DecidableEq

/-- Whose code the globals of a foreign package are. -/
inductive PackageOwner
  /-- A deployment of another repository, for branch and tag pins. -/
  | foreign (qid : DeploymentQid)
  /-- Nobody's, for hash pins. -/
  | orphan

/-- What an evaluation can see. -/
structure EvalCtx where
  resources : ResourceId → Option Resource
  region : RegionId
  localOwner : DeploymentQid
  packageOwner : PackageId → Option PackageOwner
  foreignResources : DeploymentQid → ResourceId → Option Resource

namespace EvalCtx

def addResource (ctx : EvalCtx) (id : ResourceId) (r : Resource) : EvalCtx :=
  { ctx with resources := Function.update ctx.resources id (some r) }

def addForeignResource (ctx : EvalCtx) (owner : DeploymentQid) (id : ResourceId)
    (r : Resource) : EvalCtx :=
  { ctx with
    foreignResources := Function.update ctx.foreignResources owner
      (Function.update (ctx.foreignResources owner) id (some r)) }

def setPackageOwner (ctx : EvalCtx) (pkg : PackageId) (owner : DeploymentQid) : EvalCtx :=
  { ctx with packageOwner := Function.update ctx.packageOwner pkg (some (.foreign owner)) }

def setPackageOrphan (ctx : EvalCtx) (pkg : PackageId) : EvalCtx :=
  { ctx with packageOwner := Function.update ctx.packageOwner pkg (some .orphan) }

/-- The owner of the globals a package defines. -/
def ownerForPackage (ctx : EvalCtx) (pkg : PackageId) : Option DeploymentQid :=
  match ctx.packageOwner pkg with
  | some (.foreign qid) => some qid
  | some .orphan => none
  | none => some ctx.localOwner

/-- The owner of what is announced right now: the top of the owner stack. -/
def currentOwner (ctx : EvalCtx) (stack : List (Option DeploymentQid)) : Option DeploymentQid :=
  stack.head?.getD (some ctx.localOwner)

end EvalCtx

/-- The arguments of a resource call. -/
structure Call where
  region : Option RegionId
  typ : String
  name : String
  inputs : Record
  dependencies : List ResourceId
  sourceTrace : SourceTrace

namespace EvalCtx

/-- The resource a call is about. -/
def resourceId (ctx : EvalCtx) (c : Call) : ResourceId :=
  ⟨c.region.getD ctx.region, c.typ, c.name⟩

/-- The effect of a call: what is announced depends on the stored resource, if there is one. -/
def effectFor (ctx : EvalCtx) (owner : Option DeploymentQid) (c : Call)
    (stored : Option Resource) : Effect where
  kind := match stored with
    | none => .createResource
    | some existing =>
      if existing.inputs != c.inputs || existing.dependencies != c.dependencies then
        .updateResource
      else .touchResource
  id := ctx.resourceId c
  inputs := c.inputs
  dependencies := c.dependencies
  sourceTrace := c.sourceTrace
  owner := owner

/-- A resource call: the effect it announces and the outputs it returns, `none` for a pending
result.

In an orphan scope there is no state to look at, and the result is always pending.  In a foreign
scope the outputs are returned when the stored inputs are the ones asked for; in the local scope
the dependencies have to agree as well. -/
def resource (ctx : EvalCtx) (stack : List (Option DeploymentQid)) (c : Call) :
    Effect × Option Record :=
  match ctx.currentOwner stack with
  | none => (ctx.effectFor none c none, none)
  | some owner =>
    if owner != ctx.localOwner then
      let stored := ctx.foreignResources owner (ctx.resourceId c)
      (ctx.effectFor (some owner) c stored,
        stored.bind fun r => if r.inputs == c.inputs then some r.outputs else none)
    else
      match ctx.resources (ctx.resourceId c) with
      | none => (ctx.effectFor (some owner) c none, none)
      | some r =>
        (ctx.effectFor (some owner) c (some r),
          if r.inputs != c.inputs || r.dependencies != c.dependencies then none
          else some r.outputs)

end EvalCtx

/-! ## Programs -/

/-- What an evaluation can end in other than its results. -/
structure EvalError where
  message : String
deriving DecidableEq

/-- A compiled program, as the tree of its resource calls. -/
inductive Program
  /-- The evaluation ends with its results. -/
  | done
  | throw (e : EvalError)
  | resource (c : Call) (k : Option Record → Program)
  /-- A global expression of the package `pkg` begins. -/
  | enter (pkg : PackageId) (k : Program)
  /-- The global expression that began last ends. -/
  | leave (k : Program)

/-- What an evaluation did: its calls in order, each with the effect announced and the outputs
returned, and the error it ended in, if it did. -/
structure Evaluation where
  calls : List (Effect × Option Record)
  error : Option EvalError

namespace Evaluation

/-- The effects an evaluation announced. -/
def effects (e : Evaluation) : List Effect := e.calls.map Prod.fst

end Evaluation

/-- Evaluate a program below an owner stack. -/
def Program.evalFrom (ctx : EvalCtx) : Program → List (Option DeploymentQid) → Evaluation
  | done, _ => ⟨[], none⟩
  | throw e, _ => ⟨[], some e⟩
  | resource c k, stack =>
    let r := ctx.resource stack c
    let rest := (k r.2).evalFrom ctx stack
    ⟨r :: rest.calls, rest.error⟩
  | enter pkg k, stack => k.evalFrom ctx (ctx.ownerForPackage pkg :: stack)
  | leave k, stack => k.evalFrom ctx stack.tail

/-- Evaluate a program. -/
def Program.eval (ctx : EvalCtx) (p : Program) : Evaluation := p.evalFrom ctx []

/-- What is true of every resource call is true of all calls of an evaluation. -/
theorem Program.forall_calls {ctx : EvalCtx} {R : Effect × Option Record → Prop}
    (h : ∀ stack c, R (ctx.resource stack c)) (p : Program) (stack : List (Option DeploymentQid)) :
    ∀ call ∈ (p.evalFrom ctx stack).calls, R call := by
  induction p generalizing stack with
  | done | throw => exact fun _ hcall => absurd hcall List.not_mem_nil
  | resource c k ih =>
    intro call hcall
    rcases List.mem_cons.1 hcall with rfl | hcall
    · exact h stack c
    · exact ih _ stack call hcall
  | enter pkg k ih | leave k ih => exact ih _

end Skyr
