import Skyr.Lib.Fuel
import Skyr.Sclc.Ty

/-!
# Assignability

When may a value of one type stand where another type is expected?  The checker's answer is the
recursive procedure below.  It unfolds both types, and then goes through the rules: the two are
equal, the target is `Any` or the source `Never`, the target is optional, the source is a type
variable with an upper bound, or the two have the same outermost constructor.  A function type with
type parameters is instantiated on one side or the other first.

The procedure does not remember which pairs it is already comparing, so it need not come to an end;
the model has a fuel argument for that.  No origin is ever looked at, and it is written for shapes.
-/

namespace Skyr.Sclc

variable {ι : Type}

/-! ## Results -/

/-- What is wrong with an assignment. -/
inductive TypeIssue
  /-- `rhs` is not assignable to `lhs`. -/
  | mismatch (lhs rhs : Shape)

/-- An issue, and the issue below it that caused it. -/
inductive TypeError
  | mk (issue : TypeIssue) (cause : Option TypeError)

/-- A check that may fail, or run out of fuel. -/
abbrev Check := ExceptT TypeError Option

namespace Check

/-- The fuel is used up. -/
def exhausted {α : Type} : Check α := ExceptT.mk none

/-- Put an issue on top of whatever goes wrong. -/
def causing {α : Type} (issue : TypeIssue) (x : Check α) : Check α :=
  ExceptT.adapt (fun e => ⟨issue, some e⟩) x

/-- Whether a check succeeds. -/
def succeeds {α : Type} (x : Check α) : Check Bool :=
  ExceptT.mk ((fun r => .ok r.isOk) <$> x.run)

/-- The check succeeds. -/
def Ok (x : Check Unit) : Prop := x.run = some (.ok ())

instance (x : Check Unit) : Decidable x.Ok :=
  decidable_of_iff (x.run.map Except.isOk = some true) <| by
    rw [Ok]
    match x.run with
    | none => exact ⟨nofun, nofun⟩
    | some (.error e) => exact ⟨nofun, nofun⟩
    | some (.ok ()) => exact ⟨fun _ => rfl, fun _ => rfl⟩

/-- The check comes to an end, one way or the other. -/
def Halts {α : Type} (x : Check α) : Prop := x.run ≠ none

variable {α β : Type}

theorem ok_pure : Ok (pure ()) := rfl

theorem not_ok_throw (e : TypeError) : ¬ Ok (throw e) := nofun

theorem ok_causing {issue : TypeIssue} {x : Check Unit} : (causing issue x).Ok ↔ x.Ok := by
  change Except.mapError _ <$> x.run = some (.ok ()) ↔ x.run = some (.ok ())
  cases x.run with
  | none => exact ⟨nofun, nofun⟩
  | some r => cases r <;> simp [Except.mapError]

theorem ok_bind {x : Check Unit} {f : Unit → Check Unit} : (x >>= f).Ok ↔ x.Ok ∧ (f ()).Ok := by
  change (x.run >>= ExceptT.bindCont f) = some (.ok ()) ↔ x.run = some (.ok ()) ∧ (f ()).Ok
  cases x.run with
  | none => exact ⟨nofun, fun h => nomatch h.1⟩
  | some r =>
  cases r with
  | error e => exact ⟨nofun, fun h => nomatch h.1⟩
  | ok _ => exact ⟨fun h => ⟨rfl, h⟩, fun h => h.2⟩

theorem ok_forM {l : List α} {f : α → Check Unit} : Ok (l.forM f) ↔ ∀ a ∈ l, (f a).Ok := by
  induction l with
  | nil => exact ⟨fun _ => nofun, fun _ => rfl⟩
  | cons a l ih =>
  rw [List.forall_mem_cons, ← ih]
  exact ok_bind

theorem halts_pure (a : α) : Halts (pure a : Check α) := nofun

theorem halts_throw (e : TypeError) : Halts (throw e : Check α) := nofun

variable {x : Check α}

theorem Halts.causing {issue : TypeIssue} (h : x.Halts) : (causing issue x).Halts := by
  rw [Halts, Ne, ← Option.isNone_iff_eq_none] at h ⊢
  change ¬ (Except.mapError _ <$> x.run).isNone
  simpa using h

theorem Halts.bind {f : α → Check β} (h : x.Halts) (hf : ∀ a, (f a).Halts) : (x >>= f).Halts := by
  change (x.run >>= ExceptT.bindCont f) ≠ none
  cases hx : x.run with
  | none => exact absurd hx h
  | some r =>
  cases r with
  | error e => exact nofun
  | ok a => exact hf a

theorem Halts.forM {l : List α} {f : α → Check Unit} (h : ∀ a ∈ l, (f a).Halts) :
    Halts (l.forM f) := by
  induction l with
  | nil => exact halts_pure ()
  | cons a l ih =>
  obtain ⟨ha, hl⟩ := List.forall_mem_cons.1 h
  exact ha.bind fun _ => ih hl

end Check

open Check

/-! ## Bounds of type variables -/

/-- The upper bounds of the type variables in scope. -/
abbrev Bounds := List (ℕ × Shape)

/-- A check of one type against another, the target first, as it is handed to the parts of the
procedure for their recursive calls. -/
abbrev Assign := Bounds → Shape → Shape → Check Unit

/-- The side of a function arrow a type stands on. -/
inductive Variance
  | covariant
  | contravariant
deriving DecidableEq

namespace Variance

def flip : Variance → Variance
  | covariant => contravariant
  | contravariant => covariant

end Variance

/-- For every type parameter that is to be solved, the lower and the upper bound found so far. -/
abbrev Assertions (ι : Type) := List (ℕ × Ty ι × Ty ι)

/-- Set the bounds of a variable. -/
def Assertions.set (as : Assertions ι) (x : ℕ) (b : Ty ι × Ty ι) : Assertions ι :=
  as.map fun a => if a.1 = x then (x, b) else a

def tightenUpper (assign : Assign) (current newBound : Ty ι) : Check (Ty ι) := do
  if ← (assign [] current.shape newBound.shape).succeeds then
    pure newBound
  else if ← (assign [] newBound.shape current.shape).succeeds then
    pure current
  else
    throw ⟨.mismatch current.shape newBound.shape, none⟩

/-- Two lower bounds that do not compare are joined to `Any`, whose origin is `fresh`. -/
def tightenLower (assign : Assign) (fresh : ι) (current newBound : Ty ι) : Check (Ty ι) := do
  if ← (assign [] newBound.shape current.shape).succeeds then
    pure newBound
  else if ← (assign [] current.shape newBound.shape).succeeds then
    pure current
  else
    pure (.any fresh)

/-- The bounds of a variable that is being solved. -/
def Assertions.of (as : Assertions ι) : Ty ι → Option (ℕ × Ty ι × Ty ι)
  | .var _ x => (as.lookup x).map (x, ·)
  | _ => none

/-- The comparison of two types that hold nothing to be solved, in the direction of `variance`. -/
def compare (assign : Assign) (variance : Variance) (lhs rhs : Ty ι) : Check Unit :=
  causing (.mismatch lhs.shape rhs.shape) <|
    match variance with
    | .covariant => assign [] lhs.shape rhs.shape
    | .contravariant => assign [] rhs.shape lhs.shape

/-- Walk two types side by side and collect bounds for the variables in `rhs` that are being
solved.  The bounds of the other variables in scope are not consulted. -/
def collectBounds (assign : Assign) (fresh : ι) :
    ℕ → Variance → Ty ι → Ty ι → Assertions ι → Check (Assertions ι)
  | 0, _, _, _, _ => exhausted
  | n + 1, variance, lhs, rhs, as =>
    let lhs := lhs.unfold fresh
    let rhs := rhs.unfold fresh
    match as.of rhs with
    | some (x, lower, upper) =>
      match variance with
      | .covariant => do
        let upper ← tightenUpper assign upper lhs
        pure (as.set x (lower, upper))
      | .contravariant => do
        let lower ← tightenLower assign fresh lower lhs
        pure (as.set x (lower, upper))
    | none =>
      let otherwise : Check (Assertions ι) := do compare assign variance lhs rhs; pure as
      match lhs, rhs with
      | .optional _ l, .optional _ r => collectBounds assign fresh n variance l r as
      | l, .optional _ r =>
        if variance = .covariant then collectBounds assign fresh n variance l r as else otherwise
      | .list _ l, .list _ r => collectBounds assign fresh n variance l r as
      | .record _ ls, .record _ rs =>
        rs.foldlM (fun as r =>
          match ls.lookup r.1 with
          | some l => collectBounds assign fresh n variance l r.2 as
          | none => pure as) as
      | .dict _ lk lv, .dict _ rk rv => do
        let as ← collectBounds assign fresh n variance lk rk as
        collectBounds assign fresh n variance lv rv as
      | .fn _ _ lps lr, .fn _ _ rps rr =>
        if lps.length = rps.length then do
          let as ← (lps.zip rps).foldlM (fun as p =>
            collectBounds assign fresh n variance.flip p.1 p.2 as) as
          collectBounds assign fresh n variance lr rr as
        else otherwise
      | _, _ => otherwise

/-! ## Function types -/

/-- The parts of a function type. -/
structure FnType (ι : Type) where
  typeParams : List (ℕ × Ty ι)
  params : List (Ty ι)
  ret : Ty ι

namespace FnType

/-- The function type with these parts. -/
def ty (i : ι) (f : FnType ι) : Ty ι := .fn i f.typeParams f.params f.ret

/-- Replace the type parameters. -/
def instantiate (f : FnType ι) (σ : List (ℕ × Ty ι)) : FnType ι where
  typeParams := []
  params := f.params.map (Ty.substitute σ)
  ret := f.ret.substitute σ

/-- What is known at the start about the type parameters. -/
def assertions (f : FnType ι) (fresh : ι) : Assertions ι :=
  f.typeParams.map fun p => (p.1, .never fresh, p.2)

end FnType

/-- Solve the type parameters of `rhs` so that it fits `lhs`, which has none. -/
def unifyGenericFn (assign : Assign) (fuel : ℕ) (bounds : Bounds) (lhs rhs : FnType Unit) :
    Check Unit := do
  let as ← (lhs.params.zip rhs.params).foldlM (fun as p =>
    collectBounds assign () fuel .contravariant p.1 p.2 as) (rhs.assertions ())
  let as ← collectBounds assign () fuel .covariant lhs.ret rhs.ret as
  as.forM fun a => causing (.mismatch (lhs.ty ()) (rhs.ty ())) (assign bounds a.2.2 a.2.1)

/-- Infer the type arguments of a call from the types of its arguments. -/
def inferTypeArgs (assign : Assign) (fuel : ℕ) (fresh : ι) (bounds : Bounds) (f : FnType ι)
    (args : List (Ty ι)) : Check (List (ℕ × Ty ι)) := do
  let as ← (args.zip f.params).foldlM (fun as p =>
    collectBounds assign fresh fuel .contravariant p.1 p.2 as) (f.assertions fresh)
  as.forM fun a => assign bounds a.2.2.shape a.2.1.shape
  pure (as.map fun a => (a.1, a.2.1))

/-- Function types without type parameters: parameters the other way round, results straight. -/
def assignParams (assign : Assign) (bounds : Bounds) (lhs rhs : FnType Unit) : Check Unit := do
  (lhs.params.zip rhs.params).forM fun p => assign bounds p.2 p.1
  assign bounds lhs.ret rhs.ret

def assignFnType (assign : Assign) (fuel : ℕ) (bounds : Bounds) (lhs rhs : FnType Unit) :
    Check Unit :=
  let mismatch : TypeError := ⟨.mismatch (lhs.ty ()) (rhs.ty ()), none⟩
  if lhs.params.length ≠ rhs.params.length then throw mismatch
  else
    match lhs.typeParams.isEmpty, rhs.typeParams.isEmpty with
    | true, true => assignParams assign bounds lhs rhs
    | true, false => unifyGenericFn assign fuel bounds lhs rhs
    | false, true => assignParams assign bounds (lhs.instantiate lhs.typeParams) rhs
    | false, false =>
      if lhs.typeParams.length ≠ rhs.typeParams.length then throw mismatch
      else do
        (lhs.typeParams.zip rhs.typeParams).forM fun p => assign bounds p.2.2 p.1.2
        -- the bodies are compared under the parameters and the bounds of the source
        let alphaRename := (lhs.typeParams.zip rhs.typeParams).map fun p =>
          (p.1.1, Ty.var () p.2.1)
        assignParams assign (rhs.typeParams ++ bounds) (lhs.instantiate alphaRename) rhs

/-! ## The procedure -/

namespace Ty

def isAny : Ty ι → Bool
  | any _ => true
  | _ => false

def isNever : Ty ι → Bool
  | never _ => true
  | _ => false

def isOptional : Ty ι → Bool
  | optional _ _ => true
  | _ => false

end Ty

/-- The upper bound of a type variable. -/
def Bounds.upper (bounds : Bounds) : Shape → Option Shape
  | .var _ x => bounds.lookup x
  | _ => none

/-- The rules for two unfolded types; `origLhs` and `origRhs` are the types as they were given. -/
def assignTypeImpl (assign : Assign) (fuel : ℕ) (bounds : Bounds)
    (lhs rhs origLhs origRhs : Shape) : Check Unit :=
  let mismatch : TypeIssue := .mismatch origLhs origRhs
  if lhs.eq rhs || lhs.isAny || rhs.isNever then pure ()
  else
    match lhs, bounds.upper rhs, rhs with
    | .optional _ l, _, .optional _ r => causing mismatch (assign bounds l r)
    | .optional _ l, upper, _ =>
      causing mismatch <|
        match upper with
        | some (.optional i u) => assign bounds lhs (.optional i u)
        | _ => assign bounds l rhs
    | _, some upper, _ => causing mismatch (assign bounds lhs upper)
    | .record _ ls, none, .record _ rs =>
      ls.forM fun l =>
        match rs.lookup l.1 with
        | none => if l.2.isOptional then pure () else throw ⟨mismatch, none⟩
        | some r => causing mismatch (assign bounds l.2 r)
    | .dict _ lk lv, none, .dict _ rk rv => do
      causing mismatch (assign bounds lk rk)
      causing mismatch (assign bounds lv rv)
    | .list _ l, none, .list _ r => causing mismatch (assign bounds l r)
    | .fn _ ltps lps lr, none, .fn _ rtps rps rr =>
      causing mismatch (assignFnType assign fuel bounds ⟨ltps, lps, lr⟩ ⟨rtps, rps, rr⟩)
    | _, none, _ => throw ⟨mismatch, none⟩

/-- Check that a value of type `rhs` may stand where `lhs` is expected. -/
def assignTypeWithBounds : ℕ → Assign
  | 0, _, _, _ => exhausted
  | n + 1, bounds, lhs, rhs =>
    assignTypeImpl (assignTypeWithBounds n) n bounds (lhs.unfold ()) (rhs.unfold ()) lhs rhs

/-! ## More fuel, same answer -/

section

variable {assign assign' : Assign}

theorem below_causing {α : Type} {x y : Check α} (issue : TypeIssue) (h : Below x.run y.run) :
    Below (causing issue x).run (causing issue y).run :=
  h.map (Except.mapError _)

theorem below_succeeds {α : Type} {x y : Check α} (h : Below x.run y.run) :
    Below x.succeeds.run y.succeeds.run :=
  h.map _

variable (h : ∀ bounds lhs rhs, Below (assign bounds lhs rhs).run (assign' bounds lhs rhs).run)

include h

theorem below_tightenUpper (t u : Ty ι) :
    Below (tightenUpper assign t u).run (tightenUpper assign' t u).run := by
  refine Below.bindExcept (below_succeeds (h _ _ _)) fun b => ?_
  cases b
  · exact Below.bindExcept (below_succeeds (h _ _ _)) fun _ => Below.refl _
  · exact Below.refl _

theorem below_tightenLower (fresh : ι) (t u : Ty ι) :
    Below (tightenLower assign fresh t u).run (tightenLower assign' fresh t u).run := by
  refine Below.bindExcept (below_succeeds (h _ _ _)) fun b => ?_
  cases b
  · exact Below.bindExcept (below_succeeds (h _ _ _)) fun _ => Below.refl _
  · exact Below.refl _

theorem below_compare (variance : Variance) (t u : Ty ι) :
    Below (compare assign variance t u).run (compare assign' variance t u).run := by
  cases variance <;> exact below_causing _ (h _ _ _)

theorem below_collectBounds (fresh : ι) {n m : ℕ} (hn : n ≤ m) (variance : Variance)
    (lhs rhs : Ty ι) (as : Assertions ι) :
    Below (collectBounds assign fresh n variance lhs rhs as).run
      (collectBounds assign' fresh m variance lhs rhs as).run := by
  induction n generalizing m variance lhs rhs as with
  | zero => exact nofun
  | succ n ih =>
  obtain ⟨m, rfl⟩ : ∃ k, m = k + 1 := ⟨m - 1, by omega⟩
  replace ih := fun variance lhs rhs as => ih (m := m) (by omega) variance lhs rhs as
  have otherwise : ∀ lhs rhs : Ty ι, Below
      (do compare assign variance lhs rhs; pure as : Check (Assertions ι)).run
      (do compare assign' variance lhs rhs; pure as : Check (Assertions ι)).run :=
    fun lhs rhs => Below.bindExcept (below_compare h _ _ _) fun _ => Below.refl _
  simp only [collectBounds]
  split
  · split
    · exact Below.bindExcept (below_tightenUpper h _ _) fun _ => Below.refl _
    · exact Below.bindExcept (below_tightenLower h _ _ _) fun _ => Below.refl _
  split
  · exact ih _ _ _ _
  · split
    · exact ih _ _ _ _
    · exact otherwise _ _
  · exact ih _ _ _ _
  · refine Below.foldlM (fun as r _ => ?_) _
    split
    · exact ih _ _ _ _
    · exact Below.refl _
  · exact Below.bindExcept (ih _ _ _ _) fun _ => ih _ _ _ _
  · split
    · exact Below.bindExcept (Below.foldlM (fun _ _ _ => ih _ _ _ _) _) fun _ => ih _ _ _ _
    · exact otherwise _ _
  · exact otherwise _ _

theorem below_assignParams (bounds : Bounds) (lhs rhs : FnType Unit) :
    Below (assignParams assign bounds lhs rhs).run (assignParams assign' bounds lhs rhs).run :=
  Below.bindExcept (Below.forM fun _ _ => h _ _ _) fun _ => h _ _ _

theorem below_assignFnType {n m : ℕ} (hn : n ≤ m) (bounds : Bounds) (lhs rhs : FnType Unit) :
    Below (assignFnType assign n bounds lhs rhs).run
      (assignFnType assign' m bounds lhs rhs).run := by
  unfold assignFnType
  split
  · exact Below.refl _
  split
  · exact below_assignParams h _ _ _
  · refine Below.bindExcept (Below.foldlM (fun _ _ _ => below_collectBounds h _ hn _ _ _ _) _)
      fun _ => Below.bindExcept (below_collectBounds h _ hn _ _ _ _) fun _ => ?_
    exact Below.forM fun _ _ => below_causing _ (h _ _ _)
  · exact below_assignParams h _ _ _
  split
  · exact Below.refl _
  · exact Below.bindExcept (Below.forM fun _ _ => h _ _ _) fun _ => below_assignParams h _ _ _

theorem below_assignTypeImpl {n m : ℕ} (hn : n ≤ m) (bounds : Bounds)
    (lhs rhs origLhs origRhs : Shape) :
    Below (assignTypeImpl assign n bounds lhs rhs origLhs origRhs).run
      (assignTypeImpl assign' m bounds lhs rhs origLhs origRhs).run := by
  unfold assignTypeImpl
  split
  · exact Below.refl _
  split
  · exact below_causing _ (h _ _ _)
  · refine below_causing _ ?_
    split <;> exact h _ _ _
  · exact below_causing _ (h _ _ _)
  · refine Below.forM fun _ _ => ?_
    split
    · exact Below.refl _
    · exact below_causing _ (h _ _ _)
  · exact Below.bindExcept (below_causing _ (h _ _ _)) fun _ => below_causing _ (h _ _ _)
  · exact below_causing _ (h _ _ _)
  · exact below_causing _ (below_assignFnType h hn _ _ _)
  · exact Below.refl _

end

/-- **The check does not depend on its fuel**, as long as there is enough. -/
theorem assignTypeWithBounds_mono {n m : ℕ} (hn : n ≤ m) (bounds : Bounds) (lhs rhs : Shape) :
    Below (assignTypeWithBounds n bounds lhs rhs).run
      (assignTypeWithBounds m bounds lhs rhs).run := by
  induction n generalizing m bounds lhs rhs with
  | zero => exact nofun
  | succ n ih =>
  obtain ⟨m, rfl⟩ : ∃ k, m = k + 1 := ⟨m - 1, by omega⟩
  exact below_assignTypeImpl (fun _ _ _ => ih (by omega) _ _ _) (by omega) _ _ _ _ _

/-- `rhs` is assignable to `lhs`: the check succeeds, given enough fuel. -/
def Assignable (lhs rhs : Shape) : Prop := ∃ n, (assignTypeWithBounds n [] lhs rhs).Ok

/-- The check of `rhs` against `lhs` comes to an end. -/
def AssignHalts (bounds : Bounds) (lhs rhs : Shape) : Prop :=
  ∃ n, (assignTypeWithBounds n bounds lhs rhs).Halts

end Skyr.Sclc
