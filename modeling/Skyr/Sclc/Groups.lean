import Skyr.Lib.Lookup
import Skyr.Sclc.Coincidence

/-!
# Groups of functions that refer to each other

Globals that refer to each other are evaluated together.  Each becomes a function that captures
its free names except those of the group; the group as a whole is put beside it, and a call binds
the names of the group to its functions.

The group is kept by name, while its members may come from several modules.  Two consequences:
where two members have the same name, both modules get the first one's function; and where the name
of a member occurs in another module, in which it stands for something else, it stands for that
member there too.  A third one is a matter of time: what a function captures is looked up when the
group is evaluated, and what has no value then is nil for good.

`RefersHome` says that a function is made from the body of a global and finds, when it is called,
what its free names stand for in its own module.  `recursive_group_iff` says when that is so.

Not every free name is looked up: in `x.p`, where `x` is the name of an import, the global `p` of
that module is taken without a look at `x`.  Functions of several modules refer to each other in
this way, and at the time the group is evaluated the values of these modules are not there yet.  So
the statements are about the names that are asked for (`Expr.asked`).
-/

namespace Skyr.Sclc

open List Lookup

section General

variable [Floats]

/-! ## Names that are asked for -/

section Asked

variable (answered : String → String → Bool)

/-- Some names, unless the access to a property is answered by the imports. -/
def unlessAnswered (property : String) (names : List String) : Expr → List String
  | .var x => if answered x property then [] else names
  | _ => names

mutual

/-- The free variables whose values are asked for, where the imports answer some accesses `x.p`. -/
def Expr.asked : Expr → List String
  | .int _ | .float _ | .bool _ | .nil | .str _ | .path _ | .externExpr _ _ | .exception _ _ => []
  | .ifThen c t => c.asked ++ t.asked
  | .ifElse c t e => c.asked ++ t.asked ++ e.asked
  | .letIn x _ b e => b.asked ++ e.asked.filter (· ≠ x)
  | .fn _ _ ps b => b.asked.filter (· ∉ ps.map Prod.fst)
  | .call f _ as => f.asked ++ askedAll as
  | .unary _ e => e.asked
  | .binary _ l r => l.asked ++ r.asked
  | .var x => [x]
  | .record fs => askedFields fs
  | .dict es => askedEntries es
  | .list is => askedItems is
  | .interp ps => askedAll ps
  | .propertyAccess e p _ => unlessAnswered answered p e.asked e
  | .indexedAccess e i => e.asked ++ i.asked
  | .typeCast e _ => e.asked
  | .raise e => e.asked
  | .tryCatch e cs => e.asked ++ askedCatches cs

def askedAll : List Expr → List String
  | [] => []
  | e :: es => e.asked ++ askedAll es

def askedFields : List (String × Expr) → List String
  | [] => []
  | (_, e) :: fs => e.asked ++ askedFields fs

def askedEntries : List (Expr × Expr) → List String
  | [] => []
  | (k, v) :: es => k.asked ++ v.asked ++ askedEntries es

def askedItems : List ListItem → List String
  | [] => []
  | i :: is => i.asked ++ askedItems is

def ListItem.asked : ListItem → List String
  | .expr e => e.asked
  | .ifThen c i => c.asked ++ i.asked
  | .forEach x e i => e.asked ++ i.asked.filter (· ≠ x)

def askedCatches : List (String × Option String × Expr) → List String
  | [] => []
  | (x, arg, e) :: cs => x :: e.asked.filter (some · ≠ arg) ++ askedCatches cs

end

end Asked

section Asked

variable {answered : String → String → Bool}

omit [Floats] in
theorem append_mono {xs ys xs' ys' : List String} (hx : xs ⊆ xs') (hy : ys ⊆ ys') :
    xs ++ ys ⊆ xs' ++ ys' :=
  append_subset.2 ⟨subset_append_of_subset_left ys' hx, subset_append_of_subset_right xs' hy⟩

theorem unlessAnswered_subset (property : String) (names : List String) (e : Expr) :
    unlessAnswered answered property names e ⊆ names := by
  unfold unlessAnswered
  split
  · split
    · exact nil_subset _
    · exact List.Subset.refl _
  · exact List.Subset.refl _

mutual

/-- Names that are asked for are free. -/
theorem asked_subset : ∀ e : Expr, e.asked answered ⊆ e.freeVars
  | .int _ | .float _ | .bool _ | .nil | .str _ | .path _ | .externExpr _ _ | .exception _ _ =>
    nil_subset _
  | .ifThen c t => append_mono (asked_subset c) (asked_subset t)
  | .ifElse c t e =>
    append_mono (append_mono (asked_subset c) (asked_subset t)) (asked_subset e)
  | .letIn _ _ b e => append_mono (asked_subset b) (filter_subset _ (asked_subset e))
  | .fn _ _ _ b => filter_subset _ (asked_subset b)
  | .call f _ as => append_mono (asked_subset f) (askedAll_subset as)
  | .unary _ e | .typeCast e _ | .raise e => asked_subset e
  | .binary _ l r => append_mono (asked_subset l) (asked_subset r)
  | .var _ => List.Subset.refl _
  | .record fs => askedFields_subset fs
  | .dict es => askedEntries_subset es
  | .list is => askedItems_subset is
  | .interp ps => askedAll_subset ps
  | .propertyAccess e p _ => fun _ hx => asked_subset e (unlessAnswered_subset p _ e hx)
  | .indexedAccess e i => append_mono (asked_subset e) (asked_subset i)
  | .tryCatch e cs => append_mono (asked_subset e) (askedCatches_subset cs)

theorem askedAll_subset : ∀ es : List Expr, askedAll answered es ⊆ freeVarsAll es
  | [] => nil_subset _
  | e :: es => append_mono (asked_subset e) (askedAll_subset es)

theorem askedFields_subset :
    ∀ fs : List (String × Expr), askedFields answered fs ⊆ freeVarsFields fs
  | [] => nil_subset _
  | (_, e) :: fs => append_mono (asked_subset e) (askedFields_subset fs)

theorem askedEntries_subset :
    ∀ es : List (Expr × Expr), askedEntries answered es ⊆ freeVarsEntries es
  | [] => nil_subset _
  | (k, v) :: es =>
    append_mono (append_mono (asked_subset k) (asked_subset v)) (askedEntries_subset es)

theorem askedItems_subset : ∀ is : List ListItem, askedItems answered is ⊆ freeVarsItems is
  | [] => nil_subset _
  | i :: is => append_mono (askedItem_subset i) (askedItems_subset is)

theorem askedItem_subset : ∀ i : ListItem, i.asked answered ⊆ i.freeVars
  | .expr e => asked_subset e
  | .ifThen c i => append_mono (asked_subset c) (askedItem_subset i)
  | .forEach _ e i =>
    append_mono (asked_subset e) (filter_subset _ (askedItem_subset i))

theorem askedCatches_subset : ∀ cs : List (String × Option String × Expr),
    askedCatches answered cs ⊆ freeVarsCatches cs
  | [] => nil_subset _
  | (x, _, e) :: cs =>
    append_mono (cons_subset_cons x (filter_subset _ (asked_subset e))) (askedCatches_subset cs)

end

end Asked

/-! ## What the names of a function stand for -/

/-- The imports of a module answer an access. -/
def GlobalEvalEnv.answers (g : GlobalEvalEnv) (m : ModuleNode) (x property : String) : Bool :=
  (importedGlobal (.top g m) x property).isSome

/-- The environment in which the body of a function is evaluated. -/
def Value.callEnv (f : Value) (caller : EvalEnv) (args : List TrackedValue) : EvalEnv :=
  match f with
  | .fn m r _ ps cs self group _ => fnEnv caller f m r ps cs self group args
  | _ => caller

/-- The value is a function made from the literal of a global in its module, and when it is called
with the globals in `late`, each free name that the literal asks for has the value that the name has
in the module. -/
structure RefersHome (late : GlobalEvalEnv) (m : ModuleNode) (e : Expr) (t : TrackedValue) :
    Prop where
  ownBody : ∃ site tps ps body cs self group, e = .fn site tps ps body ∧
    t = .new (.fn m.id m.raw site (ps.map Prod.fst) cs self group body)
  ownNames : ∀ caller args, caller.globals = late → ∀ x ∈ e.asked (late.answers m),
    (t.value.callEnv caller args).evalVarName x = (late.resolveVariable x m.raw).getD (.new .nil)

/-- Later globals have the values of the earlier ones. -/
structure GlobalEvalEnv.Extends (late g : GlobalEvalEnv) : Prop where
  get : ∀ {key t}, g.get key = some t → late.get key = some t

/-! ## The functions of a group -/

/-- A global of a group: its module, its name and what it is bound to. -/
abbrev GroupMember := ModuleNode × String × Expr

namespace GroupMember

def key (p : GroupMember) : GlobalKey := .global p.1.raw p.2.1

def name (p : GroupMember) : String := p.2.1

/-- The global is bound to a function literal. -/
def IsFn (p : GroupMember) : Prop := ∃ site tps ps body, p.2.2 = .fn site tps ps body

end GroupMember

/-- The functions of a group by name, not yet aware of each other. -/
def groupFns (g : GlobalEvalEnv) (members : List GroupMember) : List (String × Value) :=
  members.map fun p =>
    (p.name, (globalFn (.top g p.1) (members.map GroupMember.name) none p.2.2).getD .nil)

/-- The function of a group that goes by a name. -/
def groupFn (g : GlobalEvalEnv) (members : List GroupMember) (x : String) : Option TrackedValue :=
  ((groupFns g members).lookup x).map fun f => .new (f.wired (groupFns g members))

variable {g late : GlobalEvalEnv} {members : List GroupMember}

theorem preliminary_eq (hfns : ∀ p ∈ members, p.IsFn) (names : List String)
    (fns : List (String × Value)) :
    preliminary names members g fns =
      (g, fns ++ members.map fun p =>
        (p.name, (globalFn (.top g p.1) names none p.2.2).getD .nil)) := by
  induction members generalizing fns with
  | nil => simp [preliminary]
  | cons p members ih =>
  obtain ⟨m, name, e⟩ := p
  obtain ⟨site, tps, ps, body, rfl⟩ := hfns _ mem_cons_self
  rw [preliminary, globalFn]
  dsimp only
  rw [ih fun q hq => hfns q (mem_cons_of_mem _ hq)]
  simp [GroupMember.name, globalFn]

theorem get_insert_self (key : GlobalKey) (t : TrackedValue) : (g.insert key t).get key = some t :=
  lookup_cons_self

theorem get_insert_ne {key key' : GlobalKey} (h : key' ≠ key) (t : TrackedValue) :
    (g.insert key t).get key' = g.get key' := by
  rw [GlobalEvalEnv.get, GlobalEvalEnv.insert, lookup_cons, beq_false_of_ne h]
  rfl

theorem storeGroup_get_ne (fns : List (String × Value)) {key : GlobalKey}
    (h : key ∉ members.map GroupMember.key) : (storeGroup fns members g).get key = g.get key := by
  induction members generalizing g with
  | nil => rfl
  | cons p members ih =>
  rw [map_cons, mem_cons, not_or] at h
  obtain ⟨m, name, e⟩ := p
  rw [storeGroup]
  split
  · exact (ih h.2).trans (get_insert_ne h.1 _)
  · exact ih h.2

/-- Each member is stored as the function that goes by its name. -/
theorem storeGroup_get {fns : List (String × Value)} (hkeys : (members.map GroupMember.key).Nodup)
    {p : GroupMember} (hp : p ∈ members) {f : Value} (hf : fns.lookup p.name = some f) :
    (storeGroup fns members g).get p.key = some (.new (f.wired fns)) := by
  induction members generalizing g with
  | nil => exact absurd hp not_mem_nil
  | cons q members ih =>
  rw [map_cons, nodup_cons] at hkeys
  rcases mem_cons.1 hp with rfl | hmem
  · obtain ⟨m, name, e⟩ := p
    rw [storeGroup, show fns.lookup name = some f from hf]
    exact (storeGroup_get_ne fns hkeys.1).trans (get_insert_self _ _)
  obtain ⟨m, name, e⟩ := q
  rw [storeGroup]
  split <;> exact ih hkeys.2 hmem

theorem groupFns_names : (groupFns g members).map Prod.fst = members.map GroupMember.name := by
  rw [groupFns, map_map]
  rfl

/-- The globals of the group, once it is evaluated. -/
theorem evalRecursiveGroup_get (hfns : ∀ p ∈ members, p.IsFn)
    (hkeys : (members.map GroupMember.key).Nodup)
    (hnew : ∃ p ∈ members, g.get p.key = none) {p : GroupMember} (hp : p ∈ members) :
    (evalRecursiveGroup g members).get p.key = groupFn g members p.name := by
  obtain ⟨q, hq, hnone⟩ := hnew
  have hall : (members.all fun p => (g.get (.global p.1.raw p.2.1)).isSome) = false := by
    refine all_eq_false.2 ⟨q, hq, ?_⟩
    rw [show g.get (.global q.1.raw q.2.1) = none from hnone]
    exact Bool.false_ne_true
  obtain ⟨f, hf⟩ := lookup_isSome (groupFns_names (g := g) ▸ mem_map_of_mem hp)
  have hgroup := preliminary_eq (g := g) hfns (members.map fun p => p.2.1) []
  rw [evalRecursiveGroup, hall, if_neg Bool.false_ne_true, hgroup]
  change (storeGroup (groupFns g members) members g).get p.key = _
  rw [storeGroup_get hkeys hp hf, groupFn, hf]
  rfl

/-! ## The names of a group -/

variable {x : String}

theorem groupFn_isSome (hx : x ∈ members.map GroupMember.name) :
    ∃ t, groupFn g members x = some t := by
  obtain ⟨f, hf⟩ := lookup_isSome (groupFns_names (g := g) ▸ hx)
  exact ⟨_, congrArg (Option.map _) hf⟩

/-- The function of a member that is made from its literal. -/
def groupClosure (g : GlobalEvalEnv) (members : List GroupMember) (m : ModuleNode) (site : ℕ)
    (tps : List (String × TypeExpr)) (ps : List (String × Option TypeExpr)) (body : Expr) : Value :=
  .fn m.id m.raw site (ps.map Prod.fst)
    ((EvalEnv.top g m).captures
      ((Expr.fn site tps ps body).freeVars.filter (· ∉ members.map GroupMember.name)))
    none (groupFns g members) body

variable {site : ℕ} {tps : List (String × TypeExpr)} {ps : List (String × Option TypeExpr)}
  {body : Expr}

/-- Where no two members have the same name, each name is that of its own function. -/
theorem groupFn_eq (hnames : (members.map GroupMember.name).Nodup) {m : ModuleNode} {name : String}
    (hp : (m, name, .fn site tps ps body) ∈ members) :
    groupFn g members name = some (.new (groupClosure g members m site tps ps body)) := by
  have hmem : (name, (globalFn (.top g m) (members.map GroupMember.name) none
      (.fn site tps ps body)).getD .nil) ∈ groupFns g members :=
    mem_map.2 ⟨_, hp, rfl⟩
  rw [groupFn, lookup_of_mem (groupFns_names.symm ▸ hnames) hmem]
  rfl

/-- A free name of a function literal is not among its parameters. -/
theorem lookup_parameters_none (args : List TrackedValue)
    (hx : x ∈ (Expr.fn site tps ps body).freeVars) :
    ((ps.map Prod.fst).zip args).reverse.lookup x = none := by
  refine lookup_eq_none fun hmem => ?_
  rw [map_reverse, mem_reverse] at hmem
  obtain ⟨⟨y, t⟩, ht, rfl⟩ := mem_map.1 hmem
  exact absurd (of_mem_zip ht).1 (of_decide_eq_true (mem_filter.1 hx).2)

/-- What a free name of a member stands for in a call: a name of the group for the function of that
name, another one for what it stood for when the group was evaluated. -/
theorem evalVarName_groupClosure (hnames : (members.map GroupMember.name).Nodup) (m : ModuleNode)
    (site : ℕ) (tps : List (String × TypeExpr)) (ps : List (String × Option TypeExpr)) (body : Expr)
    (caller : EvalEnv) (args : List TrackedValue)
    (hx : x ∈ (Expr.fn site tps ps body).freeVars) :
    ((groupClosure g members m site tps ps body).callEnv caller args).evalVarName x =
      if x ∈ members.map GroupMember.name then (groupFn g members x).getD (.new .nil)
      else (g.resolveVariable x m.raw).getD (.new .nil) := by
  have hps := lookup_parameters_none args hx
  have hgroup : ((groupFns g members).map fun e =>
      (e.1, TrackedValue.new (e.2.wired (groupFns g members)))).reverse.lookup x =
        groupFn g members x := by
    rw [lookup_reverse]
    · exact lookup_map (fun f : Value => TrackedValue.new (f.wired (groupFns g members))) _ x
    · rw [map_map]
      exact groupFns_names.symm ▸ hnames
  generalize hcs : (EvalEnv.top g m).captures
    ((Expr.fn site tps ps body).freeVars.filter (· ∉ members.map GroupMember.name)) = cs
  have hlocals : ((groupClosure g members m site tps ps body).callEnv caller args).locals.lookup x =
      (groupFn g members x).or (cs.reverse.lookup x) := by
    rw [groupClosure, hcs, Value.callEnv, fnEnv, lookup_append, hps, Option.none_or,
      lookup_append, hgroup]
    rfl
  rw [EvalEnv.evalVarName, hlocals]
  split_ifs with hmem
  · obtain ⟨f, hf⟩ := lookup_isSome (groupFns_names (g := g) ▸ hmem)
    rw [groupFn, hf]
    rfl
  rw [groupFn, lookup_eq_none (groupFns_names (g := g) ▸ hmem), ← hcs,
    lookup_captures _ (mem_filter.2 ⟨hx, decide_eq_true hmem⟩)]
  rfl

/-! ## When a group is bound as its modules mean it -/

/-- The names of a group mean in each module what they mean in the group, and what else a function
asks for has its final value when the group is evaluated. -/
structure GroupScoped (g late : GlobalEvalEnv) (members : List GroupMember) : Prop where
  names : (members.map GroupMember.name).Nodup
  /-- A name of the group that a member asks for is the name of a member in the same module, or
  there is a global of that name whose value is the function of the group. -/
  groupNames : ∀ p ∈ members, ∀ x ∈ p.2.2.asked (late.answers p.1),
    x ∈ members.map GroupMember.name →
    .global p.1.raw x ∈ members.map GroupMember.key ∨
      (late.resolveVariable x p.1.raw).getD (.new .nil) = (groupFn g members x).getD (.new .nil)
  /-- Any other name has its final value when the group is evaluated. -/
  otherNames : ∀ p ∈ members, ∀ x ∈ p.2.2.asked (late.answers p.1),
    x ∉ members.map GroupMember.name →
    (g.resolveVariable x p.1.raw).getD (.new .nil) =
      (late.resolveVariable x p.1.raw).getD (.new .nil)

theorem resolveVariable_of_get {module : RawModuleId} {t : TrackedValue}
    (h : late.get (.global module x) = some t) : late.resolveVariable x module = some t := by
  rw [GlobalEvalEnv.resolveVariable, h]

section Group

variable (hfns : ∀ p ∈ members, p.IsFn) (hkeys : (members.map GroupMember.key).Nodup)
  (hnew : ∃ p ∈ members, g.get p.key = none)
  (hlate : late.Extends (evalRecursiveGroup g members))

include hfns hkeys hnew hlate

theorem late_get {p : GroupMember} (hp : p ∈ members) :
    late.get p.key = groupFn g members p.name := by
  obtain ⟨t, ht⟩ := groupFn_isSome (g := g) (mem_map_of_mem hp)
  have hget := evalRecursiveGroup_get hfns hkeys hnew hp
  rw [ht] at hget ⊢
  exact hlate.get hget

/-- Two members of the same name are bound to the same function, which belongs to one module. -/
theorem names_nodup_of_refersHome
    (h : ∀ p ∈ members, ∃ t, late.get p.key = some t ∧ RefersHome late p.1 p.2.2 t) :
    (members.map GroupMember.name).Nodup := by
  refine List.Nodup.map_on (fun p hp q hq hpq => ?_) (List.Nodup.of_map _ hkeys)
  obtain ⟨t, ht, hhome⟩ := h p hp
  obtain ⟨u, hu, hhome'⟩ := h q hq
  obtain rfl : t = u := by
    rw [late_get hfns hkeys hnew hlate hp, hpq, ← late_get hfns hkeys hnew hlate hq, hu] at ht
    exact (Option.some.inj ht).symm
  obtain ⟨_, _, _, _, _, _, _, -, ht'⟩ := hhome.ownBody
  obtain ⟨_, _, _, _, _, _, _, -, hu'⟩ := hhome'.ownBody
  have hraw : p.1.raw = q.1.raw := by
    have := congrArg Tracked.value (ht'.symm.trans hu')
    injection this
  refine inj_on_of_nodup_map hkeys hp hq ?_
  rw [GroupMember.key, GroupMember.key, hraw]
  exact congrArg _ hpq

/-- A member whose names are scoped is bound to a function of its own body that finds them. -/
theorem refersHome_of_scoped (h : GroupScoped g late members) {p : GroupMember}
    (hp : p ∈ members) : ∃ t, late.get p.key = some t ∧ RefersHome late p.1 p.2.2 t := by
  obtain ⟨m, name, e⟩ := p
  obtain ⟨site, tps, ps, body, rfl⟩ := hfns _ hp
  have hget := late_get hfns hkeys hnew hlate hp
  rw [GroupMember.name, groupFn_eq h.names hp] at hget
  refine ⟨_, hget, ⟨⟨site, tps, ps, body, _, _, _, rfl, rfl⟩, fun caller args _ x hx => ?_⟩⟩
  change ((groupClosure g members m site tps ps body).callEnv caller args).evalVarName x = _
  rw [evalVarName_groupClosure h.names m site tps ps body caller args (asked_subset _ hx)]
  split_ifs with hmem
  · rcases h.groupNames _ hp x hx hmem with hkey | hother
    · obtain ⟨q, hq, hqkey⟩ := mem_map.1 hkey
      have hname : q.name = x := (GlobalKey.global.inj hqkey).2
      obtain ⟨t, ht⟩ := groupFn_isSome (g := g) hmem
      have hx' := late_get hfns hkeys hnew hlate hq
      rw [hqkey, hname, ht] at hx'
      rw [ht, resolveVariable_of_get hx']
    · exact hother.symm
  · exact h.otherNames _ hp x hx hmem

/-- Names that a function finds are scoped. -/
theorem scoped_of_refersHome
    (h : ∀ p ∈ members, ∃ t, late.get p.key = some t ∧ RefersHome late p.1 p.2.2 t) :
    GroupScoped g late members := by
  have hnames := names_nodup_of_refersHome hfns hkeys hnew hlate h
  have hfound : ∀ p ∈ members, ∀ x ∈ p.2.2.asked (late.answers p.1),
      (if x ∈ members.map GroupMember.name then (groupFn g members x).getD (.new .nil)
        else (g.resolveVariable x p.1.raw).getD (.new .nil)) =
      (late.resolveVariable x p.1.raw).getD (.new .nil) := by
    intro p hp x hx
    obtain ⟨t, ht, hhome⟩ := h p hp
    obtain ⟨m, name, e⟩ := p
    obtain ⟨site, tps, ps, body, rfl⟩ := hfns _ hp
    rw [late_get hfns hkeys hnew hlate hp, GroupMember.name, groupFn_eq hnames hp] at ht
    cases ht
    rw [← evalVarName_groupClosure hnames m site tps ps body (.top late m) [] (asked_subset _ hx)]
    exact hhome.ownNames (.top late m) [] rfl x hx
  refine ⟨hnames, fun p hp x hx hmem => .inr ?_, fun p hp x hx hmem => ?_⟩
  · rw [← hfound p hp x hx, if_pos hmem]
  · rw [← hfound p hp x hx, if_neg hmem]

end Group

/-! ## A function that refers to itself -/

/-- What a function that refers to itself finds when it is called: itself under its name, and under
other names what they stood for when it was made. -/
theorem evalVarName_selfRecursive (m : ModuleNode) (name : String) (site : ℕ)
    (tps : List (String × TypeExpr)) (ps : List (String × Option TypeExpr)) (body : Expr)
    (caller : EvalEnv) (args : List TrackedValue)
    (hx : x ∈ (Expr.fn site tps ps body).freeVars) :
    ((buildSelfRecursiveFn (.top g m) name (.fn site tps ps body)).value.callEnv caller
        args).evalVarName x =
      if x = name then buildSelfRecursiveFn (.top g m) name (.fn site tps ps body)
      else (g.resolveVariable x m.raw).getD (.new .nil) := by
  generalize hself : buildSelfRecursiveFn (.top g m) name (.fn site tps ps body) = self
  generalize hcs : (EvalEnv.top g m).captures
    ((Expr.fn site tps ps body).freeVars.filter (· ∉ [name])) = cs
  have hlocals : (self.value.callEnv caller args).locals.lookup x =
      ((name, self) :: cs.reverse).lookup x := by
    rw [← hself, buildSelfRecursiveFn, globalFn, hcs]
    change ((((ps.map Prod.fst).zip args).reverse) ++ ((name, _) :: cs.reverse)).lookup x = _
    rw [lookup_append, lookup_parameters_none args hx, Option.none_or]
    rfl
  rw [EvalEnv.evalVarName, hlocals, lookup_cons]
  split_ifs with hname
  · rw [hname, beq_self_eq_true]
  have hmem : x ∈ (Expr.fn site tps ps body).freeVars.filter (· ∉ [name]) :=
    mem_filter.2 ⟨hx, decide_eq_true (mem_singleton.not.2 hname)⟩
  rw [beq_false_of_ne hname, ← hcs, lookup_captures _ hmem]
  rfl

/-- A function that refers to itself is made from its own body, and finds its names exactly if those
other than its own have their final values when it is made. -/
theorem selfRecursive_iff {m : ModuleNode} {name : String} {e : Expr}
    (hfn : GroupMember.IsFn (m, name, e))
    (hlate : late.Extends
      (g.insert (.global m.raw name) (buildSelfRecursiveFn (.top g m) name e))) :
    (∃ t, late.get (.global m.raw name) = some t ∧ RefersHome late m e t) ↔
      ∀ x ∈ e.asked (late.answers m), x ≠ name →
        (g.resolveVariable x m.raw).getD (.new .nil) =
          (late.resolveVariable x m.raw).getD (.new .nil) := by
  obtain ⟨site, tps, ps, body, rfl⟩ := hfn
  have hget := hlate.get (get_insert_self _ _)
  constructor
  · rintro ⟨t, ht, hhome⟩ x hx hname
    obtain rfl := Option.some.inj (hget.symm.trans ht)
    have hfound := hhome.ownNames (.top late m) [] rfl x hx
    rw [evalVarName_selfRecursive m name site tps ps body _ _ (asked_subset _ hx),
      if_neg hname] at hfound
    exact hfound
  intro h
  refine ⟨_, hget, ⟨⟨site, tps, ps, body, _, _, _, rfl, rfl⟩, fun caller args _ x hx => ?_⟩⟩
  rw [evalVarName_selfRecursive m name site tps ps body caller args (asked_subset _ hx)]
  split_ifs with hname
  · rw [hname, resolveVariable_of_get hget]
    rfl
  · exact h x hx hname

/-! ## A function that does not refer to itself

In a component with parts of several kinds, such a function is evaluated like any other expression,
and has captured what its names stood for at that time. -/

/-- What a plain function finds when it is called: what each name stood for when it was made. -/
theorem evalVarName_plain (m : ModuleNode) (site : ℕ) (tps : List (String × TypeExpr))
    (ps : List (String × Option TypeExpr)) (body : Expr) (caller : EvalEnv)
    (args : List TrackedValue) (hx : x ∈ (Expr.fn site tps ps body).freeVars) :
    ((Value.fn m.id m.raw site (ps.map Prod.fst)
        ((EvalEnv.top g m).captures (Expr.fn site tps ps body).freeVars) none [] body).callEnv
        caller args).evalVarName x = (g.resolveVariable x m.raw).getD (.new .nil) := by
  generalize hcs : (EvalEnv.top g m).captures (Expr.fn site tps ps body).freeVars = cs
  have hlocals : ((Value.fn m.id m.raw site (ps.map Prod.fst) cs none [] body).callEnv caller
      args).locals.lookup x = cs.reverse.lookup x := by
    change ((((ps.map Prod.fst).zip args).reverse) ++ cs.reverse).lookup x = _
    rw [lookup_append, lookup_parameters_none args hx, Option.none_or]
  rw [EvalEnv.evalVarName, hlocals, ← hcs, lookup_captures _ hx]
  rfl

theorem plain_iff {m : ModuleNode} {name : String} {e : Expr} {ev : Evaluator} {fuel : ℕ}
    {g' : GlobalEvalEnv} (hfn : GroupMember.IsFn (m, name, e))
    (hnone : g.get (.global m.raw name) = none)
    (heval : evalSingletonGlobal ev fuel g m name e false = pure g') (hlate : late.Extends g') :
    (∃ t, late.get (.global m.raw name) = some t ∧ RefersHome late m e t) ↔
      ∀ x ∈ e.asked (late.answers m), (g.resolveVariable x m.raw).getD (.new .nil) =
        (late.resolveVariable x m.raw).getD (.new .nil) := by
  obtain ⟨site, tps, ps, body, rfl⟩ := hfn
  rw [evalSingletonGlobal, hnone] at heval
  cases fuel with
  | zero => cases heval
  | succ n =>
  cases heval
  have hget := hlate.get (get_insert_self _ _)
  constructor
  · rintro ⟨t, ht, hhome⟩ x hx
    obtain rfl := Option.some.inj (hget.symm.trans ht)
    rw [← hhome.ownNames (.top late m) [] rfl x hx]
    exact (evalVarName_plain m site tps ps body _ _ (asked_subset _ hx)).symm
  · intro h
    refine ⟨_, hget, ⟨⟨site, tps, ps, body, _, _, _, rfl, rfl⟩, fun caller args _ x hx => ?_⟩⟩
    rw [← h x hx]
    exact evalVarName_plain m site tps ps body caller args (asked_subset _ hx)

/-- **Groups of functions are bound as their modules mean them exactly if** no two members have the
same name, a name of the group means the same function in each module that asks for it, and what
else is asked for has its final value when the group is evaluated.  For a single function only the
last is needed, apart from its own name if it refers to itself. -/
theorem recursive_group_iff (ev : Evaluator) (fuel : ℕ) (g late : GlobalEvalEnv) :
    (∀ members : List GroupMember, (∀ p ∈ members, p.IsFn) →
      (members.map GroupMember.key).Nodup → (∃ p ∈ members, g.get p.key = none) →
      late.Extends (evalRecursiveGroup g members) →
      ((∀ p ∈ members, ∃ t, late.get p.key = some t ∧ RefersHome late p.1 p.2.2 t) ↔
        GroupScoped g late members)) ∧
    ∀ (m : ModuleNode) (name : String) (e : Expr) (selfEdge : Bool) (g' : GlobalEvalEnv),
      GroupMember.IsFn (m, name, e) → g.get (.global m.raw name) = none →
      evalSingletonGlobal ev fuel g m name e selfEdge = pure g' → late.Extends g' →
      ((∃ t, late.get (.global m.raw name) = some t ∧ RefersHome late m e t) ↔
        ∀ x ∈ e.asked (late.answers m), ¬(selfEdge = true ∧ x = name) →
          (g.resolveVariable x m.raw).getD (.new .nil) =
            (late.resolveVariable x m.raw).getD (.new .nil)) := by
  constructor
  · intro members hfns hkeys hnew hlate
    exact ⟨scoped_of_refersHome hfns hkeys hnew hlate,
      fun h p hp => refersHome_of_scoped hfns hkeys hnew hlate h hp⟩
  intro m name e selfEdge g' hfn hnone heval hlate
  cases selfEdge with
  | false => simpa using plain_iff hfn hnone heval hlate
  | true =>
    rw [evalSingletonGlobal, hnone] at heval
    cases heval
    simpa using selfRecursive_iff hfn hlate

end General

/-! ## Two modules that call each other -/

namespace Crossing

local instance : Floats := Floats.int

open Payloads (evaluator noAnswer resultOf)

def a : ModuleNode := ⟨⟨[], ["A"]⟩, ["A"], []⟩

def b : ModuleNode := ⟨⟨[], ["B"]⟩, ["B"], []⟩

/-- Each of the two modules imports the other. -/
def globals : GlobalEvalEnv := ⟨[], [(["A"], [("B", ["B"])]), (["B"], [("A", ["A"])])], []⟩

/-- `fn(n) if (n < 1) base else other.f(n - 1)` -/
def bouncing (site : ℕ) (base : Expr) (other f : String) : Expr :=
  .fn site [] [("n", none)]
    (.ifElse (.binary .lt (.var "n") (.int 1)) base
      (.call (.propertyAccess (.var other) f false) [] [.binary .sub (.var "n") (.int 1)]))

/-- `f` in both modules, where that of `A` ends with 1 and that of `B` with 2. -/
def sameName : List GroupMember :=
  [(a, "f", bouncing 0 (.int 1) "B" "f"), (b, "f", bouncing 0 (.int 2) "A" "f")]

/-- `even` in `A` and `odd` in `B`. -/
def evenOdd : List GroupMember :=
  [(a, "even", bouncing 0 (.int 1) "B" "odd"), (b, "odd", bouncing 0 (.int 0) "A" "even")]

/-- `f` in `A`, which ends with a call of the `h` of `A`, and in `B` another `h`. -/
def otherName : List GroupMember :=
  [(a, "f", bouncing 0 (.call (.var "h") [] [.var "n"]) "B" "h"),
    (b, "h", bouncing 0 (.int 20) "A" "f")]

/-- `let h = fn(n) 10` in `A`. -/
def ownH : Item := .global a "h" (.fn 1 [] [("n", none)] (.int 10)) false

def callOf (f : String) (n : ℤ) : Expr := .call (.var f) [] [.int n]

/-- `fn(n) if (n < 1) 0 else count(n - 1)` -/
def counting : Expr :=
  .fn 0 [] [("n", none)]
    (.ifElse (.binary .lt (.var "n") (.int 1)) (.int 0)
      (.call (.var "count") [] [.binary .sub (.var "n") (.int 1)]))

/-- The globals after the group and the two modules. -/
def late : GlobalEvalEnv :=
  ((evalRecursiveGroup globals evenOdd).insert (.moduleValue ["A"]) (.new .nil)).insert
    (.moduleValue ["B"]) (.new .nil)

theorem late_extends : late.Extends (evalRecursiveGroup globals evenOdd) := by
  refine ⟨fun {key t} h => ?_⟩
  have hB : key ≠ .moduleValue ["B"] := fun hkey => nomatch hkey ▸ h
  have hA : key ≠ .moduleValue ["A"] := fun hkey => nomatch hkey ▸ h
  rw [late, get_insert_ne hB, get_insert_ne hA, h]

/-- The two functions are bound as their modules mean them, and so is a function that counts. -/
theorem even_odd_bound :
    (∀ p ∈ evenOdd, ∃ t, late.get p.key = some t ∧ RefersHome late p.1 p.2.2 t) ∧
    ∃ g, evalSingletonGlobal evaluator 5 globals a "count" counting true = pure g ∧
      ∃ t, g.get (.global ["A"] "count") = some t ∧ RefersHome g a counting t := by
  have hasked : ∀ p ∈ evenOdd, p.2.2.asked (late.answers p.1) = [] := by
    intro p hp
    rcases mem_pair.1 hp with rfl | rfl <;> rfl
  have hfns : ∀ p ∈ evenOdd, p.IsFn := by
    intro p hp
    rcases mem_pair.1 hp with rfl | rfl <;> exact ⟨_, _, _, _, rfl⟩
  have hgroup := (recursive_group_iff evaluator 5 globals late).1 evenOdd hfns (by decide)
    ⟨_, mem_cons_self, rfl⟩ late_extends
  have hself := fun g => (recursive_group_iff evaluator 5 globals g).2 a "count" counting true g
    ⟨_, _, _, _, rfl⟩ rfl
  refine ⟨hgroup.2 ⟨by decide, fun p hp x hx => ?_, fun p hp x hx => ?_⟩, _, rfl, ?_⟩
  · exact absurd (hasked p hp ▸ hx) not_mem_nil
  · exact absurd (hasked p hp ▸ hx) not_mem_nil
  · refine (hself _ rfl ⟨id⟩).2 fun x hx hname => absurd ?_ hname
    exact ⟨rfl, mem_singleton.1 hx⟩

/-- The `f` of `B` is bound to that of `A`, and the `h` that is called in `A` is that of `B`. -/
theorem bound_to_another :
    resultOf (evalAfter evaluator 8 [.group sameName] globals b (callOf "f" 0)) = some 1 ∧
    (¬∃ t, (evalRecursiveGroup globals sameName).get (.global ["B"] "f") = some t ∧
      RefersHome (evalRecursiveGroup globals sameName) b (bouncing 0 (.int 2) "A" "f") t) ∧
    resultOf (evalAfter evaluator 8 [ownH, .group otherName] globals a (callOf "f" 0)) =
      some 20 := by
  refine ⟨rfl, ?_, rfl⟩
  rintro ⟨t, ht, hhome⟩
  cases ht
  obtain ⟨site, tps, ps, body, cs, self, group, -, hfn⟩ := hhome.ownBody
  injection hfn with hvalue
  injection hvalue with hmodule
  injection hmodule with _ hpath
  exact absurd hpath (by decide)

end Crossing

end Skyr.Sclc
