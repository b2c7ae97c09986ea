import Mathlib.Data.List.Basic

/-!
# SCL types

The types of the configuration language, as the checker handles them: a kind and, on every node,
an *origin*.  Two types are equal when their kinds are; the origin says which expression a type was
first written for, and nothing but narrowing looks at it.  So the type of types has the origins as
a parameter: `Ty ℕ` is what the checker computes with, and `Shape`, with nothing on the nodes, is
all that assignability can see.

Type variables are numbers that the checker draws from a counter.  Substitution and unfolding
replace them blindly, without a look at the binders they pass: `substitute` goes below a binder of
the variable it replaces, while `containsVar` stops there.
-/

namespace Skyr.Sclc

/-- The types without parts. -/
inductive Prim
  | int
  | float
  | bool
  | str
  | path
deriving DecidableEq, Repr

/-- A type.  The names an alias gives a type are for messages only and are left out. -/
inductive Ty (ι : Type)
  | any (id : ι)
  | never (id : ι)
  | prim (id : ι) (p : Prim)
  /-- Exceptions, told apart by the number of the expression that declares them. -/
  | exception (id : ι) (tag : ℕ)
  | var (id : ι) (x : ℕ)
  | optional (id : ι) (inner : Ty ι)
  | list (id : ι) (inner : Ty ι)
  | dict (id : ι) (key value : Ty ι)
  | record (id : ι) (fields : List (String × Ty ι))
  /-- Functions; a type parameter is a variable and its upper bound. -/
  | fn (id : ι) (typeParams : List (ℕ × Ty ι)) (params : List (Ty ι)) (ret : Ty ι)
  /-- A recursive type, the variable standing for the whole. -/
  | isoRec (id : ι) (x : ℕ) (body : Ty ι)

/-- A type without origins. -/
abbrev Shape := Ty Unit

namespace Ty

variable {ι κ : Type}

/-- Induction on types, with the hypothesis for every member of a list of types. -/
@[elab_as_elim]
theorem ind {P : Ty ι → Prop} (any : ∀ i, P (.any i)) (never : ∀ i, P (.never i))
    (prim : ∀ i p, P (.prim i p)) (exception : ∀ i n, P (.exception i n))
    (var : ∀ i x, P (.var i x)) (optional : ∀ i t, P t → P (.optional i t))
    (list : ∀ i t, P t → P (.list i t)) (dict : ∀ i k v, P k → P v → P (.dict i k v))
    (record : ∀ i fs, (∀ f ∈ fs, P f.2) → P (.record i fs))
    (fn : ∀ i tps ps r, (∀ b ∈ tps, P b.2) → (∀ p ∈ ps, P p) → P r → P (.fn i tps ps r))
    (isoRec : ∀ i x b, P b → P (.isoRec i x b)) (t : Ty ι) : P t :=
  @Ty.rec ι P (fun fs => ∀ f ∈ fs, P f.2) (fun bs => ∀ b ∈ bs, P b.2) (fun ps => ∀ p ∈ ps, P p)
    (fun f => P f.2) (fun b => P b.2) any never prim exception var optional list dict record fn isoRec
    nofun (fun _ _ h hs => List.forall_mem_cons.2 ⟨h, hs⟩)
    nofun (fun _ _ h hs => List.forall_mem_cons.2 ⟨h, hs⟩)
    nofun (fun _ _ h hs => List.forall_mem_cons.2 ⟨h, hs⟩) (fun _ _ h => h) (fun _ _ h => h) t

/-- The origin of a type. -/
def id : Ty ι → ι
  | any i | never i | prim i _ | exception i _ | var i _ | optional i _ | list i _ | dict i _ _
  | record i _ | fn i _ _ _ | isoRec i _ _ => i

/-! ## Equality

Equality compares kinds all the way down and no origins. -/

mutual

/-- The equality test on types. -/
def eq : Ty ι → Ty ι → Bool
  | any _, any _ => true
  | never _, never _ => true
  | prim _ p, prim _ q => p == q
  | exception _ n, exception _ m => n == m
  | var _ x, var _ y => x == y
  | optional _ t, optional _ u => t.eq u
  | list _ t, list _ u => t.eq u
  | dict _ k v, dict _ l w => k.eq l && v.eq w
  | record _ fs, record _ gs => eqFields fs gs
  | fn _ tps ps r, fn _ uqs qs s => eqBounds tps uqs && eqAll ps qs && r.eq s
  | isoRec _ x b, isoRec _ y c => x == y && b.eq c
  | _, _ => false

def eqFields : List (String × Ty ι) → List (String × Ty ι) → Bool
  | [], [] => true
  | (n, t) :: fs, (m, u) :: gs => n == m && t.eq u && eqFields fs gs
  | _, _ => false

def eqBounds : List (ℕ × Ty ι) → List (ℕ × Ty ι) → Bool
  | [], [] => true
  | (x, t) :: bs, (y, u) :: cs => x == y && t.eq u && eqBounds bs cs
  | _, _ => false

def eqAll : List (Ty ι) → List (Ty ι) → Bool
  | [], [] => true
  | t :: ts, u :: us => t.eq u && eqAll ts us
  | _, _ => false

end

private theorem eqFields_iff {fs : List (String × Shape)}
    (h : ∀ f ∈ fs, ∀ u, f.2.eq u = true ↔ f.2 = u) (gs : List (String × Shape)) :
    eqFields fs gs = true ↔ fs = gs := by
  induction fs generalizing gs with
  | nil => cases gs <;> simp [eqFields]
  | cons f fs ih =>
  obtain ⟨hf, hfs⟩ := List.forall_mem_cons.1 h
  cases gs with
  | nil => simp [eqFields]
  | cons g gs =>
  rw [eqFields]
  simp only [Bool.and_eq_true, beq_iff_eq, hf, ih hfs, List.cons.injEq, Prod.ext_iff]

private theorem eqBounds_iff {bs : List (ℕ × Shape)}
    (h : ∀ b ∈ bs, ∀ u, b.2.eq u = true ↔ b.2 = u) (cs : List (ℕ × Shape)) :
    eqBounds bs cs = true ↔ bs = cs := by
  induction bs generalizing cs with
  | nil => cases cs <;> simp [eqBounds]
  | cons b bs ih =>
  obtain ⟨hb, hbs⟩ := List.forall_mem_cons.1 h
  cases cs with
  | nil => simp [eqBounds]
  | cons c cs =>
  rw [eqBounds]
  simp only [Bool.and_eq_true, beq_iff_eq, hb, ih hbs, List.cons.injEq, Prod.ext_iff]

private theorem eqAll_iff {ts : List Shape} (h : ∀ t ∈ ts, ∀ u, t.eq u = true ↔ t = u)
    (us : List Shape) : eqAll ts us = true ↔ ts = us := by
  induction ts generalizing us with
  | nil => cases us <;> simp [eqAll]
  | cons t ts ih =>
  obtain ⟨ht, hts⟩ := List.forall_mem_cons.1 h
  cases us with
  | nil => simp [eqAll]
  | cons u us => simp only [eqAll, Bool.and_eq_true, ht, ih hts, List.cons.injEq]

/-- On types without origins the test is equality. -/
theorem eq_iff (t u : Shape) : t.eq u = true ↔ t = u := by
  induction t using ind generalizing u with
  | any | never | prim | exception | var => cases u <;> simp [eq]
  | optional i t ih | list i t ih | isoRec i x b ih => cases u <;> simp [eq, ih]
  | dict i k v hk hv => cases u <;> simp [eq, hk, hv]
  | record i fs ih => cases u <;> simp [eq, eqFields_iff ih]
  | fn i tps ps r htps hps hr =>
    cases u <;> simp [eq, eqBounds_iff htps, eqAll_iff hps, hr, and_assoc]

@[simp] theorem eq_self (t : Shape) : t.eq t = true := (eq_iff t t).2 rfl

instance : DecidableEq Shape := fun t u => decidable_of_iff _ (eq_iff t u)

/-! ## Forgetting the origins -/

mutual

/-- The shape of a type. -/
def shape : Ty ι → Shape
  | any _ => any ()
  | never _ => never ()
  | prim _ p => prim () p
  | exception _ n => exception () n
  | var _ x => var () x
  | optional _ t => optional () t.shape
  | list _ t => list () t.shape
  | dict _ k v => dict () k.shape v.shape
  | record _ fs => record () (shapeFields fs)
  | fn _ tps ps r => fn () (shapeBounds tps) (shapeAll ps) r.shape
  | isoRec _ x b => isoRec () x b.shape

def shapeFields : List (String × Ty ι) → List (String × Shape)
  | [] => []
  | (n, t) :: fs => (n, t.shape) :: shapeFields fs

def shapeBounds : List (ℕ × Ty ι) → List (ℕ × Shape)
  | [] => []
  | (x, t) :: bs => (x, t.shape) :: shapeBounds bs

def shapeAll : List (Ty ι) → List Shape
  | [] => []
  | t :: ts => t.shape :: shapeAll ts

end

/-! ## Substitution -/

mutual

/-- Substitute several type variables at once.  A replaced variable takes the replacement as it
is, with its origin; every other node keeps its own. -/
def substitute (σ : List (ℕ × Ty ι)) : Ty ι → Ty ι
  | var i x => (σ.lookup x).getD (var i x)
  | any i => any i
  | never i => never i
  | prim i p => prim i p
  | exception i n => exception i n
  | optional i t => optional i (t.substitute σ)
  | list i t => list i (t.substitute σ)
  | dict i k v => dict i (k.substitute σ) (v.substitute σ)
  | record i fs => record i (substituteFields σ fs)
  | fn i tps ps r => fn i (substituteBounds σ tps) (substituteAll σ ps) (r.substitute σ)
  | isoRec i x b => isoRec i x (b.substitute σ)

def substituteFields (σ : List (ℕ × Ty ι)) : List (String × Ty ι) → List (String × Ty ι)
  | [] => []
  | (n, t) :: fs => (n, t.substitute σ) :: substituteFields σ fs

def substituteBounds (σ : List (ℕ × Ty ι)) : List (ℕ × Ty ι) → List (ℕ × Ty ι)
  | [] => []
  | (x, t) :: bs => (x, t.substitute σ) :: substituteBounds σ bs

def substituteAll (σ : List (ℕ × Ty ι)) : List (Ty ι) → List (Ty ι)
  | [] => []
  | t :: ts => t.substitute σ :: substituteAll σ ts

end

variable (σ : List (ℕ × Ty ι))

@[simp] theorem substituteFields_eq (fs : List (String × Ty ι)) :
    substituteFields σ fs = fs.map fun f => (f.1, f.2.substitute σ) := by
  induction fs with
  | nil => rfl
  | cons f fs ih => rw [substituteFields, ih, List.map_cons]

@[simp] theorem substituteBounds_eq (σ bs : List (ℕ × Ty ι)) :
    substituteBounds σ bs = bs.map fun b => (b.1, b.2.substitute σ) := by
  induction bs with
  | nil => rfl
  | cons b bs ih => rw [substituteBounds, ih, List.map_cons]

@[simp] theorem substituteAll_eq (ts : List (Ty ι)) :
    substituteAll σ ts = ts.map (substitute σ) := by
  induction ts with
  | nil => rfl
  | cons t ts ih => rw [substituteAll, ih, List.map_cons]

/-! ## Free variables and unfolding -/

mutual

/-- Whether a variable occurs, other than below a recursive binder of its own. -/
def containsVar (v : ℕ) : Ty ι → Bool
  | var _ x => x == v
  | any _ | never _ | prim _ _ | exception _ _ => false
  | optional _ t | list _ t => t.containsVar v
  | dict _ k w => k.containsVar v || w.containsVar v
  | record _ fs => anyFieldContains v fs
  | fn _ tps ps r => anyBoundContains v tps || anyContains v ps || r.containsVar v
  | isoRec _ x b => x != v && b.containsVar v

def anyFieldContains (v : ℕ) : List (String × Ty ι) → Bool
  | [] => false
  | (_, t) :: fs => t.containsVar v || anyFieldContains v fs

def anyBoundContains (v : ℕ) : List (ℕ × Ty ι) → Bool
  | [] => false
  | (_, t) :: bs => t.containsVar v || anyBoundContains v bs

def anyContains (v : ℕ) : List (Ty ι) → Bool
  | [] => false
  | t :: ts => t.containsVar v || anyContains v ts

end

@[simp] theorem anyFieldContains_eq (v : ℕ) (fs : List (String × Ty ι)) :
    anyFieldContains v fs = fs.any fun f => f.2.containsVar v := by
  induction fs with
  | nil => rfl
  | cons f fs ih => rw [anyFieldContains, ih, List.any_cons]

/-- Unfold a recursive type once.  The copies of the type in the result get the origin `fresh`.  A
binder that binds nothing is dropped, with all such binders below it. -/
def unfold (fresh : ι) : Ty ι → Ty ι
  | isoRec _ x b =>
    if b.containsVar x then b.substitute [(x, isoRec fresh x b)] else b.unfold fresh
  | t => t

end Ty

end Skyr.Sclc
