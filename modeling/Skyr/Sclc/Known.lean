import Skyr.Lib.Returns
import Skyr.Sclc.Declarations

/-!
# Which globals are known

The evaluator and the checker go through the same declarations, each at its own time.  Which globals
have a value and which have a type at some point does not depend on what they came to: it is read
off the declarations that were gone through until then (`evalProgram_has`, `checkProgram_has`).
-/

namespace Skyr.Sclc

open List Prog

variable [Floats]

/-- The declaration makes the global `name` of a module known. -/
def Decl.Defines (module : RawModuleId) (name : String) : Decl → Prop
  | .global b _ => b.key = .global module name
  | .group bs => ∃ b ∈ bs, b.key = .global module name
  | _ => False

/-- One of the declarations makes the global known. -/
def Defines (decls : List Decl) (module : RawModuleId) (name : String) : Prop :=
  ∃ d ∈ decls, d.Defines module name

theorem defines_cons {d : Decl} {decls : List Decl} {r : RawModuleId} {n : String} :
    Defines (d :: decls) r n ↔ d.Defines r n ∨ Defines decls r n := by
  simp [Defines]

/-! ## Values -/

section Values

/-- There is a value for the global. -/
def GlobalEvalEnv.Has (g : GlobalEvalEnv) (module : RawModuleId) (name : String) : Prop :=
  (g.get (.global module name)).isSome

variable {g : GlobalEvalEnv} {r : RawModuleId} {n : String}

theorem GlobalEvalEnv.has_insert {key : GlobalKey} {t : TrackedValue} :
    (g.insert key t).Has r n ↔ g.Has r n ∨ key = .global r n := by
  rw [Has, Has, get, get, insert, lookup_cons]
  by_cases h : GlobalKey.global r n = key
  · simp [h]
  · simp [beq_false_of_ne h, Ne.symm h]

theorem has_storeGroup (fns : List (String × Value)) (members : List (ModuleNode × String × Expr)) :
    (storeGroup fns members g).Has r n ↔ g.Has r n ∨
      ∃ p ∈ members, (fns.lookup p.2.1).isSome ∧ GlobalKey.global p.1.raw p.2.1 = .global r n := by
  induction members generalizing g with
  | nil => simp [storeGroup]
  | cons p members ih =>
  rw [storeGroup]
  cases h : fns.lookup p.2.1 with
  | some f =>
    rw [ih, GlobalEvalEnv.has_insert, or_assoc, exists_mem_cons_iff, h]
    simp only [Option.isSome_some, true_and]
  | none =>
    rw [ih, exists_mem_cons_iff, h]
    simp only [Option.isSome_none, Bool.false_eq_true, false_and, false_or]

theorem globalFn_isSome (env : EvalEnv) (skip : List String) (selfName : Option String)
    (e : Expr) : (globalFn env skip selfName e).isSome = isFn e := by
  cases e <;> rfl

theorem has_preliminary (names : List String) (members : List (ModuleNode × String × Expr))
    (fns : List (String × Value)) :
    ((preliminary names members g fns).1.Has r n ↔ g.Has r n ∨ ∃ p ∈ members,
      isFn p.2.2 = false ∧ GlobalKey.global p.1.raw p.2.1 = .global r n) ∧
    ∀ name, ((preliminary names members g fns).2.lookup name).isSome ↔
      (fns.lookup name).isSome ∨ ∃ p ∈ members, isFn p.2.2 = true ∧ p.2.1 = name := by
  induction members generalizing g fns with
  | nil => simp [preliminary]
  | cons p members ih =>
  rw [preliminary]
  have hfn := globalFn_isSome (.top g p.1) names none p.2.2
  cases h : globalFn (.top g p.1) names none p.2.2 with
  | some f =>
    rw [h] at hfn
    obtain ⟨hg, hfns⟩ := ih (g := g) (fns ++ [(p.2.1, f)])
    refine ⟨by simp [hg, ← hfn], fun name => ?_⟩
    simp only [hfns, lookup_append, Option.isSome_or, mem_cons]
    by_cases hname : name = p.2.1
    · subst hname
      simp [← hfn]
    · simp [lookup_cons, beq_false_of_ne hname, ← hfn, Ne.symm hname]
  | none =>
    rw [h] at hfn
    obtain ⟨hg, hfns⟩ := ih (g := g.insert (.global p.1.raw p.2.1) (.new .nil)) fns
    exact ⟨by simp [hg, GlobalEvalEnv.has_insert, ← hfn, or_assoc], fun name => by
      simp [hfns, ← hfn]⟩

/-- Every member of a group gets a value, one that is no function as well. -/
theorem has_evalRecursiveGroup (members : List (ModuleNode × String × Expr)) :
    (evalRecursiveGroup g members).Has r n ↔ g.Has r n ∨
      ∃ p ∈ members, GlobalKey.global p.1.raw p.2.1 = .global r n := by
  rw [evalRecursiveGroup]
  split
  · next hall =>
    refine ⟨.inl, fun h => h.elim id ?_⟩
    rintro ⟨p, hp, hkey⟩
    rw [GlobalEvalEnv.Has, ← hkey]
    exact all_eq_true.1 hall p hp
  obtain ⟨hg, hfns⟩ := has_preliminary (g := g) (r := r) (n := n) (members.map fun p => p.2.1)
    members []
  dsimp only
  rw [has_storeGroup, hg]
  constructor
  · rintro ((h | ⟨p, hp, -, hkey⟩) | ⟨p, hp, -, hkey⟩)
    · exact .inl h
    · exact .inr ⟨p, hp, hkey⟩
    · exact .inr ⟨p, hp, hkey⟩
  rintro (h | ⟨p, hp, hkey⟩)
  · exact .inl (.inl h)
  cases hfn : isFn p.2.2 with
  | true => exact .inr ⟨p, hp, (hfns _).2 (.inr ⟨p, hp, hfn, rfl⟩), hkey⟩
  | false => exact .inl (.inr ⟨p, hp, hfn, hkey⟩)

variable (ev : Evaluator) (fuel : ℕ)

theorem evalItem_defines (d : Decl) : (evalProgram ev fuel d.items g).returns fun g' =>
    ∀ r n, g'.Has r n ↔ g.Has r n ∨ d.Defines r n := by
  have hsame : ∀ {d : Decl} {m : RawModuleId} {t : TrackedValue}, (∀ r n, ¬d.Defines r n) →
      ∀ r n, (g.insert (.moduleValue m) t).Has r n ↔ g.Has r n ∨ d.Defines r n := by
    intro d m t hd r n
    simp [GlobalEvalEnv.has_insert, hd]
  cases d with
  | types => exact fun r n => (or_iff_left (fun h => h)).symm
  | global b selfEdge =>
    refine returns_bind ?_ fun g' hg' => hg'
    rw [evalItem, evalSingletonGlobal]
    split
    · next hsome =>
      intro r n
      refine ⟨.inl, fun h => h.elim id fun hkey => ?_⟩
      rw [GlobalEvalEnv.Has, ← show b.key = .global r n from hkey]
      exact Option.isSome_iff_exists.2 ⟨_, hsome⟩
    cases selfEdge with
    | true => exact fun r n => GlobalEvalEnv.has_insert
    | false =>
      refine returns_after fun t => returns_ret ?_
      exact fun r n => GlobalEvalEnv.has_insert
  | group bs =>
    intro r n
    rw [has_evalRecursiveGroup]
    simp [Decl.Defines, LetBind.key]
  | exports m names types => exact hsame fun _ _ h => h
  | scle m ty body =>
    refine returns_bind (returns_after fun t => returns_ret ?_) fun _ h => h
    exact hsame fun _ _ h => h
  | statement m e =>
    refine returns_bind (returns_after fun t => returns_ret ?_) fun _ h => h
    exact fun r n => (or_iff_left (fun h => h)).symm

/-- **The globals that have a value** are those that had one and those of the declarations that were
evaluated. -/
theorem evalProgram_has (decls : List Decl) :
    (evalProgram ev fuel (decls.flatMap Decl.items) g).returns fun g' =>
      ∀ r n, g'.Has r n ↔ g.Has r n ∨ Defines decls r n := by
  induction decls generalizing g with
  | nil => exact fun r n => (or_iff_left fun ⟨_, h, _⟩ => absurd h not_mem_nil).symm
  | cons d decls ih =>
  rw [flatMap_cons, evalProgram, foldlM_append]
  refine returns_bind (evalItem_defines ev fuel d) fun g₁ h₁ =>
    returns_mono ih fun g₂ h₂ r n => ?_
  rw [h₂, h₁, defines_cons, or_assoc]

end Values

/-! ## Types

The same for the checker, which goes through the members of a group more than once and stores the
same names each time. -/

section Types

/-- There is a type for the global. -/
def GlobalTypeEnv.Has (g : GlobalTypeEnv) (module : RawModuleId) (name : String) : Prop :=
  (g.get (.global module name)).isSome

variable {g : GlobalTypeEnv} {r : RawModuleId} {n : String}

omit [Floats] in
theorem GlobalTypeEnv.has_insert {key : GlobalKey} {t : Ty ℕ} :
    (g.insert key t).Has r n ↔ g.Has r n ∨ key = .global r n := by
  rw [Has, Has, get, get, insert, lookup_cons]
  by_cases h : GlobalKey.global r n = key
  · simp [h]
  · simp [beq_false_of_ne h, Ne.symm h]

omit [Floats] in
theorem has_storeAll (types : List (GlobalKey × Ty ℕ)) :
    (storeAll g types).Has r n ↔ g.Has r n ∨ GlobalKey.global r n ∈ types.map Prod.fst := by
  induction types generalizing g with
  | nil => simp [storeAll]
  | cons e types ih =>
  change (storeAll (g.insert e.1 e.2) types).Has r n ↔ _
  rw [ih, GlobalTypeEnv.has_insert, map_cons, mem_cons, or_assoc, eq_comm (a := e.1)]

omit [Floats] in
theorem bootstrap_has (members : List (ModuleNode × TypeDef)) :
    (bootstrap g members).returns fun p => ∀ r n, p.1.Has r n ↔ g.Has r n := by
  induction members generalizing g with
  | nil => exact fun _ _ => Iff.rfl
  | cons m members ih =>
  refine returns_after fun x => returns_after fun v => returns_bind ih fun p hp =>
    returns_ret fun r n => ?_
  rw [hp, GlobalTypeEnv.has_insert]
  simp

omit [Floats] in
theorem resolveMembers_keys (members : List (ModuleNode × TypeDef × ℕ)) :
    (resolveMembers g members).returns fun types =>
      ∀ r n, GlobalKey.global r n ∉ types.map Prod.fst := by
  induction members with
  | nil => exact fun _ _ => not_mem_nil
  | cons m members ih =>
  have hcons : ∀ {types : List (GlobalKey × Ty ℕ)} {t : Ty ℕ}, (∀ r n,
      GlobalKey.global r n ∉ types.map Prod.fst) → ∀ r n, GlobalKey.global r n ∉
        ((.typeDecl m.1.raw m.2.1.name, t) :: types : List (GlobalKey × Ty ℕ)).map Prod.fst := by
    intro types t h r n
    simpa using h r n
  refine returns_after fun t => returns_bind ih fun types h => ?_
  dsimp only
  split
  · exact returns_after fun t => returns_ret (hcons h)
  · exact returns_ret (hcons h)

omit [Floats] in
theorem processTypeDecls_has (members : List (ModuleNode × TypeDef)) (recursive : Bool) :
    (processTypeDecls g members recursive).returns fun g' => ∀ r n, g'.Has r n ↔ g.Has r n := by
  unfold processTypeDecls
  split
  · refine returns_after fun t => returns_ret fun r n => ?_
    rw [GlobalTypeEnv.has_insert]
    simp
  · refine returns_bind (bootstrap_has _) fun p hp => ?_
    refine returns_bind (resolveMembers_keys _) fun types htypes => returns_ret fun r n => ?_
    rw [has_storeAll, hp, or_iff_left (htypes r n)]

variable (fuel : ℕ)

theorem diagnoseCyclicNonFns_has (names : List String) (bs : List LetBind) :
    (diagnoseCyclicNonFns names g bs).returns fun g' =>
      ∀ r n, g'.Has r n ↔ g.Has r n ∨ ∃ b ∈ bs, b.key = .global r n := by
  induction bs generalizing g with
  | nil => simp [diagnoseCyclicNonFns, returns]
  | cons b bs ih =>
  refine returns_after fun t => returns_mono ih fun g' h r n => ?_
  rw [h, GlobalTypeEnv.has_insert, or_assoc]
  simp

/-! A group is gone through several times, and no member is lost on the way. -/

theorem registerMembers_fst (bs : List LetBind) :
    (registerMembers bs).returns fun members => members.map Prod.fst = bs := by
  induction bs with
  | nil => rfl
  | cons b bs ih =>
    exact returns_after fun x => returns_after fun _ => returns_bind ih fun rest h =>
      congrArg (b :: ·) h

theorem checkSccBindings_fst (env : TypeEnv) (members : List (LetBind × ℕ)) :
    (checkSccBindings fuel env members).returns fun results =>
      results.map Prod.fst = members.map Prod.fst := by
  induction members with
  | nil => rfl
  | cons m members ih =>
    exact returns_after fun t => returns_bind ih fun rest h => congrArg (m.1 :: ·) h

theorem prepopulate_has (bs : List LetBind) : (prepopulate g bs).returns fun p =>
    p.2.map Prod.fst = bs ∧ ∀ r n, p.1.Has r n ↔ g.Has r n ∨ ∃ b ∈ bs, b.key = .global r n := by
  induction bs generalizing g with
  | nil => simp [prepopulate, returns]
  | cons b bs ih =>
  refine returns_after fun x => returns_after fun _ => returns_after fun v =>
    returns_bind ih fun p ⟨hfst, hp⟩ => ⟨congrArg (b :: ·) hfst, fun r n => ?_⟩
  rw [hp, GlobalTypeEnv.has_insert, or_assoc]
  simp

theorem checkCrossBindings_fst (members : List (LetBind × ℕ)) :
    (checkCrossBindings fuel g members).returns fun results =>
      results.map Prod.fst = members.map Prod.fst := by
  induction members with
  | nil => rfl
  | cons m members ih =>
    exact returns_after fun _ => returns_after fun v => returns_after fun t =>
      returns_bind ih fun rest h => congrArg (m.1 :: ·) h

theorem wrapMembers_keys (σ : List (ℕ × Ty ℕ)) (results : List (LetBind × ℕ × Ty ℕ)) :
    (wrapMembers σ results).returns fun types =>
      types.map Prod.fst = results.map fun r => r.1.key := by
  induction results with
  | nil => rfl
  | cons r results ih =>
    exact returns_after fun t => returns_bind ih fun rest h => congrArg (r.1.key :: ·) h

theorem checkMultiGlobalScc_has (bs : List LetBind) :
    (checkMultiGlobalScc fuel g bs).returns fun g' =>
      ∀ r n, g'.Has r n ↔ g.Has r n ∨ ∃ b ∈ bs, b.key = .global r n := by
  have hkeys : ∀ {results : List (LetBind × ℕ × Ty ℕ)} {r : RawModuleId} {n : String},
      results.map Prod.fst = bs →
        (GlobalKey.global r n ∈ (results.map fun r => r.1.key) ↔
          ∃ b ∈ bs, b.key = .global r n) := by
    rintro results r n rfl
    simp
  unfold checkMultiGlobalScc
  split
  swap
  · exact diagnoseCyclicNonFns_has ..
  cases bs with
  | nil => exact returns_ret fun r n => by simp
  | cons b rest =>
  dsimp only
  split
  · refine returns_after fun _ => returns_bind (registerMembers_fst _) fun members hmembers => ?_
    refine returns_after fun env => returns_bind (checkSccBindings_fst ..) fun results hresults => ?_
    refine returns_after fun σ => returns_ret fun r n => ?_
    rw [has_storeAll, map_map]
    exact or_congr_right (hkeys (hresults.trans hmembers))
  · refine returns_after fun _ => returns_bind (prepopulate_has _) fun p hp => ?_
    refine returns_bind (checkCrossBindings_fst ..) fun results hresults => ?_
    refine returns_bind (wrapMembers_keys ..) fun types htypes => returns_ret fun r n => ?_
    rw [has_storeAll, htypes, hp.2, hkeys (hresults.trans hp.1), or_assoc, or_self]

theorem checkDecl_defines (d : Decl) : (checkDecl fuel g d).returns fun g' =>
    ∀ r n, g'.Has r n ↔ g.Has r n ∨ d.Defines r n := by
  cases d with
  | types members recursive =>
    exact returns_mono (processTypeDecls_has ..) fun g' h r n =>
      (h r n).trans (or_iff_left fun h => h).symm
  | global b selfEdge =>
    rw [checkDecl, checkSingletonGlobal]
    split
    · exact returns_after fun t => returns_ret fun r n => GlobalTypeEnv.has_insert
    · exact returns_after fun t => returns_ret fun r n => GlobalTypeEnv.has_insert
  | group bs => exact checkMultiGlobalScc_has fuel bs
  | exports m names types =>
    refine returns_after fun fields => returns_after fun value => returns_after fun typeLevel =>
      returns_ret fun r n => ?_
    simp [GlobalTypeEnv.has_insert, Decl.Defines]
  | scle m ty body =>
    refine returns_after fun _ => returns_after fun expected => returns_after fun t =>
      returns_after fun typeLevel => returns_ret fun r n => ?_
    simp [GlobalTypeEnv.has_insert, Decl.Defines]
  | statement m e =>
    exact returns_after fun _ => returns_after fun t => returns_ret fun r n =>
      (or_iff_left fun h => h).symm

/-- **The globals that have a type** are those that had one and those of the declarations that were
checked. -/
theorem checkProgram_has (decls : List Decl) : (checkProgram fuel g decls).returns fun g' =>
    ∀ r n, g'.Has r n ↔ g.Has r n ∨ Defines decls r n := by
  induction decls generalizing g with
  | nil => exact fun r n => (or_iff_left fun ⟨_, h, _⟩ => absurd h not_mem_nil).symm
  | cons d decls ih =>
  rw [checkProgram, foldlM_cons]
  refine returns_bind (checkDecl_defines fuel d) fun g₁ h₁ => returns_mono ih fun g₂ h₂ r n => ?_
  rw [h₂, h₁, defines_cons, or_assoc]

end Types

end Skyr.Sclc
