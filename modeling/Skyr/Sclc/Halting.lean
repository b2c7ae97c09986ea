import Skyr.Sclc.Subtyping

/-!
# Does the assignability check come to an end?

Every rule of the check takes the two types apart, and yet they need not get smaller: a recursive
type is unfolded first, and a variable is replaced by its bound.  Nothing remembers the pairs that
are being compared.  So two list types that are declared separately, with the same fields, are
compared forever (`lists_diverge`), and so is anything with a variable that is its own bound.

The check ends when the parts of one of the two types run out (`assign_halts`).  That type is
*settled*: it has no recursive parts, and neither do the bounds it refers to, which lead from
variable to variable without a circle.  The other type may be recursive, as long as its recursive
parts are *guarded*: an optional around nothing but itself could be peeled off forever.  The
induction is on the settled type, whichever side of the comparison it is on — parameters change
sides — and, while that type stays the same, on the optionals and bounds at the root of the other.
-/

namespace Skyr.Sclc

open Check Option

open List

variable {ι : Type}

/-! ## Settled types -/

/-- Taking `t` apart, and its variables' bounds, comes to an end; there are no type parameters and
no recursive types on the way. -/
inductive Settled (bounds : Bounds) : Shape → Prop
  | any (i : Unit) : Settled bounds (.any i)
  | never (i : Unit) : Settled bounds (.never i)
  | prim (i : Unit) (p : Prim) : Settled bounds (.prim i p)
  | exception (i : Unit) (n : ℕ) : Settled bounds (.exception i n)
  | free {i : Unit} {x : ℕ} : bounds.lookup x = none → Settled bounds (.var i x)
  | bounded {i : Unit} {x : ℕ} {b : Shape} :
    bounds.lookup x = some b → Settled bounds b → Settled bounds (.var i x)
  | optional {i : Unit} {t : Shape} : Settled bounds t → Settled bounds (.optional i t)
  | list {i : Unit} {t : Shape} : Settled bounds t → Settled bounds (.list i t)
  | dict {i : Unit} {k v : Shape} :
    Settled bounds k → Settled bounds v → Settled bounds (.dict i k v)
  | record {i : Unit} {fs : List (String × Shape)} :
    (∀ f ∈ fs, Settled bounds f.2) → Settled bounds (.record i fs)
  | fn {i : Unit} {ps : List Shape} {r : Shape} :
    (∀ p ∈ ps, Settled bounds p) → Settled bounds r → Settled bounds (.fn i [] ps r)

/-! ## Guarded types -/

namespace Ty

/-- The outermost constructor is one that the check takes off both types at once, or none at
all. -/
def isGuard : Ty ι → Bool
  | var _ _ | optional _ _ | isoRec _ _ _ => false
  | _ => true

theorem isGuard_substitute {σ : List (ℕ × Ty ι)} {t : Ty ι} (h : t.isGuard = true) :
    (t.substitute σ).isGuard = true := by
  cases t with
  | var | optional | isoRec => exact nomatch h
  | _ => rfl

end Ty

/-- No function type in `t` has type parameters, and below every recursive binder stands a
guard. -/
inductive Guarded : Ty ι → Prop
  | any (i : ι) : Guarded (.any i)
  | never (i : ι) : Guarded (.never i)
  | prim (i : ι) (p : Prim) : Guarded (.prim i p)
  | exception (i : ι) (n : ℕ) : Guarded (.exception i n)
  | var (i : ι) (x : ℕ) : Guarded (.var i x)
  | optional {i : ι} {t : Ty ι} : Guarded t → Guarded (.optional i t)
  | list {i : ι} {t : Ty ι} : Guarded t → Guarded (.list i t)
  | dict {i : ι} {k v : Ty ι} : Guarded k → Guarded v → Guarded (.dict i k v)
  | record {i : ι} {fs : List (String × Ty ι)} : (∀ f ∈ fs, Guarded f.2) → Guarded (.record i fs)
  | fn {i : ι} {ps : List (Ty ι)} {r : Ty ι} :
    (∀ p ∈ ps, Guarded p) → Guarded r → Guarded (.fn i [] ps r)
  | isoRec {i : ι} {x : ℕ} {b : Ty ι} : Guarded b → b.isGuard = true → Guarded (.isoRec i x b)

variable {bounds : Bounds} {t : Shape}

theorem Settled.guarded (h : Settled bounds t) : Guarded t := by
  induction h with
  | any | never | prim | exception | free | bounded => constructor
  | optional _ ih => exact .optional ih
  | list _ ih => exact .list ih
  | dict _ _ hk hv => exact .dict hk hv
  | record _ ih => exact .record ih
  | fn _ _ hps hr => exact .fn hps hr

theorem Settled.unfold (h : Settled bounds t) : t.unfold () = t := by cases h <;> rfl

namespace Guarded

theorem substitute {σ : List (ℕ × Ty ι)} (hσ : ∀ x s, σ.lookup x = some s → Guarded s) {t : Ty ι}
    (ht : Guarded t) : Guarded (t.substitute σ) := by
  induction ht with
  | var i x =>
    cases h : σ.lookup x with
    | none => simpa [Ty.substitute, h] using Guarded.var i x
    | some s => simpa [Ty.substitute, h] using hσ x s h
  | any | never | prim | exception => constructor
  | optional _ ih => exact .optional ih
  | list _ ih => exact .list ih
  | dict _ _ hk hv => exact .dict hk hv
  | record _ ih =>
    rw [Ty.substitute, Ty.substituteFields_eq]
    exact .record (forall_mem_map.2 ih)
  | fn _ _ hps hr =>
    rw [Ty.substitute, Ty.substituteBounds_eq, Ty.substituteAll_eq]
    exact .fn (forall_mem_map.2 hps) hr
  | isoRec _ hguard ih => exact .isoRec ih (Ty.isGuard_substitute hguard)

/-- Below a guarded binder, unfolding ends in one step. -/
theorem unfold_isoRec {fresh i : ι} {x : ℕ} {b : Ty ι} (hb : Guarded b) (hguard : b.isGuard = true) :
    Guarded ((Ty.isoRec i x b).unfold fresh) ∧ ((Ty.isoRec i x b).unfold fresh).isGuard = true := by
  rw [Ty.unfold]
  split
  · refine ⟨hb.substitute fun y s hs => ?_, Ty.isGuard_substitute hguard⟩
    rw [lookup_cons] at hs
    split at hs
    · exact Option.some.inj hs ▸ .isoRec hb hguard
    · cases hs
  cases b with
  | isoRec => cases hguard
  | _ => exact ⟨hb, hguard⟩

theorem unfold {fresh : ι} {t : Ty ι} (ht : Guarded t) : Guarded (t.unfold fresh) := by
  have h := ht
  cases ht with
  | isoRec hb hguard => exact (unfold_isoRec hb hguard).1
  | _ => exact h

end Guarded

/-- The optionals and bounds at the root of `t` come to an end. -/
inductive Ready (bounds : Bounds) : Shape → Prop
  | mk {t : Shape} : (∀ i u, t.unfold () = .optional i u → Ready bounds u) →
    (∀ b, bounds.upper (t.unfold ()) = some b → Ready bounds b) → Ready bounds t

/-- A type whose root is a guard is ready. -/
theorem ready_of_isGuard (h : (t.unfold ()).isGuard = true) : Ready bounds t := by
  constructor
  · intro i u hu
    rw [hu] at h
    exact nomatch h
  intro b hb
  generalize t.unfold () = t at h hb
  cases t with
  | var => exact nomatch h
  | _ => exact nomatch hb

theorem ready_optional {i : Unit} (h : Ready bounds t) : Ready bounds (.optional i t) := by
  refine ⟨fun j u hu => ?_, nofun⟩
  cases hu
  exact h

theorem Settled.ready (h : Settled bounds t) : Ready bounds t := by
  induction h with
  | free hx => exact ⟨nofun, fun b hb => nomatch hx.symm.trans hb⟩
  | bounded hx _ ih =>
    refine ⟨nofun, fun b hb => ?_⟩
    cases hx.symm.trans hb
    exact ih
  | optional _ ih => exact ready_optional ih
  | _ => exact ready_of_isGuard rfl

theorem Guarded.ready
    (hbounds : ∀ x b, bounds.lookup x = some b → Settled bounds b) (h : Guarded t) :
    Ready bounds t := by
  induction h with
  | var i x => exact ⟨nofun, fun b hb => (hbounds x b hb).ready⟩
  | optional _ ih => exact ready_optional ih
  | isoRec hb hguard => exact ready_of_isGuard (Guarded.unfold_isoRec hb hguard).2
  | _ => exact ready_of_isGuard rfl

/-! ## The recursive calls -/

/-- The pairs that the check of two unfolded types may go on to, where neither type has type
parameters. -/
def calls (bounds : Bounds) (lhs rhs : Shape) : List (Shape × Shape) :=
  match lhs, bounds.upper rhs, rhs with
  | .optional _ l, _, .optional _ r => [(l, r)]
  | .optional _ l, upper, _ =>
    match upper with
    | some (.optional i u) => [(lhs, .optional i u)]
    | _ => [(l, rhs)]
  | _, some upper, _ => [(lhs, upper)]
  | .record _ ls, none, .record _ rs => ls.filterMap fun l => (rs.lookup l.1).map (l.2, ·)
  | .dict _ lk lv, none, .dict _ rk rv => [(lk, rk), (lv, rv)]
  | .list _ l, none, .list _ r => [(l, r)]
  | .fn _ _ lps lr, none, .fn _ _ rps rr => (lr, rr) :: (lps.zip rps).map Prod.swap
  | _, none, _ => []

theorem impl_halts {assign : Assign} {fuel : ℕ} {l r l₀ r₀ : Shape}
    (hl : Guarded l) (hr : Guarded r)
    (h : ∀ p ∈ calls bounds l r, (assign bounds p.1 p.2).Halts) :
    (assignTypeImpl assign fuel bounds l r l₀ r₀).Halts := by
  unfold assignTypeImpl
  split
  · exact halts_pure ()
  unfold calls at h
  cases hu : bounds.upper r with
  | some u =>
    simp only [hu] at h ⊢
    cases r with
    | var j x =>
      cases l with
      | optional i l =>
        refine Check.Halts.causing ?_
        cases u with
        | _ => exact h _ mem_cons_self
      | _ => exact (h _ mem_cons_self).causing
    | _ => cases hu
  | none =>
  simp only [hu] at h ⊢
  cases l with
  | optional i l =>
    cases r with
    | _ => exact (h _ mem_cons_self).causing
  | list i l =>
    cases r with
    | list => exact (h _ mem_cons_self).causing
    | _ => exact halts_throw _
  | dict i lk lv =>
    cases r with
    | dict =>
      exact (h _ mem_cons_self).causing.bind fun _ =>
        (h _ (mem_cons_of_mem _ mem_cons_self)).causing
    | _ => exact halts_throw _
  | record i ls =>
    cases r with
    | record j rs =>
      refine Check.Halts.forM fun l hl => ?_
      split
      · split
        · exact halts_pure ()
        · exact halts_throw _
      · rename_i r hr
        exact (h (l.2, r) (mem_filterMap.2 ⟨l, hl, by rw [hr]; rfl⟩)).causing
    | _ => exact halts_throw _
  | fn i ltps lps lr =>
    cases r with
    | fn j rtps rps rr =>
      cases hl
      cases hr
      refine Check.Halts.causing ?_
      unfold assignFnType
      split
      · exact halts_throw _
      · refine Check.Halts.bind (Check.Halts.forM fun p hp => ?_) fun _ => h _ mem_cons_self
        exact h p.swap (mem_cons_of_mem _ (mem_map_of_mem hp))
    | _ => exact halts_throw _
  | _ => exact halts_throw _

theorem Check.Halts.mono {n m : ℕ} (h : n ≤ m) {l r : Shape}
    (hn : (assignTypeWithBounds n bounds l r).Halts) :
    (assignTypeWithBounds m bounds l r).Halts := by
  obtain ⟨x, hx⟩ := ne_none_iff_exists'.1 hn
  exact ne_none_iff_exists'.2 ⟨x, assignTypeWithBounds_mono h bounds l r x hx⟩

/-- A check ends if all checks end that it goes on to. -/
theorem assignHalts_of_calls {l r : Shape} (hl : Guarded l) (hr : Guarded r)
    (h : ∀ p ∈ calls bounds (l.unfold ()) (r.unfold ()), AssignHalts bounds p.1 p.2) :
    AssignHalts bounds l r := by
  suffices ∃ n, ∀ p ∈ calls bounds (l.unfold ()) (r.unfold ()),
      (assignTypeWithBounds n bounds p.1 p.2).Halts by
    obtain ⟨n, hn⟩ := this
    exact ⟨n + 1, impl_halts hl.unfold hr.unfold hn⟩
  generalize calls bounds (l.unfold ()) (r.unfold ()) = ps at h
  induction ps with
  | nil => exact ⟨0, nofun⟩
  | cons p ps ih =>
  obtain ⟨⟨n, hn⟩, hps⟩ := forall_mem_cons.1 h
  obtain ⟨m, hm⟩ := ih hps
  refine ⟨max n m, forall_mem_cons.2 ⟨hn.mono (Nat.le_max_left n m), fun q hq => ?_⟩⟩
  exact (hm q hq).mono (Nat.le_max_right n m)

/-! ## Running out of parts -/

/-- The parts of a type; the bound of a variable is its part. -/
def parts (bounds : Bounds) : Shape → List Shape
  | .var _ x => (bounds.lookup x).toList
  | .optional _ t | .list _ t => [t]
  | .dict _ k v => [k, v]
  | .record _ fs => fs.map Prod.snd
  | .fn _ _ ps r => r :: ps
  | _ => []

/-- Where the check can go on to: from both types to parts of them, on either side; to the inside
of an optional target; or to the bound of the source. -/
theorem calls_cases {l r : Shape} {p : Shape × Shape}
    (hp : p ∈ calls bounds l r) :
    (p.1 ∈ parts bounds l ∧ p.2 ∈ parts bounds r) ∨ (p.1 ∈ parts bounds r ∧ p.2 ∈ parts bounds l) ∨
      ((∃ i, l = .optional i p.1) ∧ p.2 = r) ∨ (p.1 = l ∧ bounds.upper r = some p.2) := by
  unfold calls at hp
  cases hu : bounds.upper r with
  | some u =>
    simp only [hu] at hp
    cases r with
    | var j x =>
      cases l with
      | optional i l =>
        cases u with
        | optional k u =>
          obtain rfl := mem_singleton.1 hp
          exact .inr (.inr (.inr ⟨rfl, rfl⟩))
        | _ =>
        obtain rfl := mem_singleton.1 hp
        exact .inr (.inr (.inl ⟨⟨i, rfl⟩, rfl⟩))
      | _ =>
      obtain rfl := mem_singleton.1 hp
      exact .inr (.inr (.inr ⟨rfl, rfl⟩))
    | _ => exact nomatch hu
  | none =>
  simp only [hu] at hp
  cases l with
  | optional i l =>
    cases r with
    | optional =>
      obtain rfl := mem_singleton.1 hp
      exact .inl ⟨mem_cons_self, mem_cons_self⟩
    | _ =>
    obtain rfl := mem_singleton.1 hp
    exact .inr (.inr (.inl ⟨⟨i, rfl⟩, rfl⟩))
  | list i l =>
    cases r with
    | list =>
      obtain rfl := mem_singleton.1 hp
      exact .inl ⟨mem_cons_self, mem_cons_self⟩
    | _ => exact nomatch hp
  | dict i lk lv =>
    cases r with
    | dict j rk rv =>
      simp only [mem_cons, not_mem_nil, or_false] at hp
      rcases hp with rfl | rfl
      · exact .inl ⟨mem_cons_self, mem_cons_self⟩
      · exact .inl ⟨mem_cons_of_mem _ mem_cons_self, mem_cons_of_mem _ mem_cons_self⟩
    | _ => exact nomatch hp
  | record i ls =>
    cases r with
    | record j rs =>
      obtain ⟨l, hl, hlp⟩ := mem_filterMap.1 hp
      obtain ⟨r, hr, rfl⟩ := map_eq_some_iff.1 hlp
      exact .inl ⟨mem_map_of_mem hl, mem_map_of_mem (mem_of_lookup hr)⟩
    | _ => exact nomatch hp
  | fn i ltps lps lr =>
    cases r with
    | fn j rtps rps rr =>
      rcases mem_cons.1 hp with rfl | hp
      · exact .inl ⟨mem_cons_self, mem_cons_self⟩
      obtain ⟨q, hq, rfl⟩ := mem_map.1 hp
      obtain ⟨hl, hr⟩ := of_mem_zip hq
      exact .inr (.inl ⟨mem_cons_of_mem _ hr, mem_cons_of_mem _ hl⟩)
    | _ => exact nomatch hp
  | _ => exact nomatch hp

section

variable {bounds : Bounds} (hbounds : ∀ x b, bounds.lookup x = some b → Settled bounds b)

include hbounds

variable {t : Shape}

theorem Guarded.parts (ht : Guarded t) : ∀ s ∈ parts bounds t, Guarded s := by
  cases ht with
  | var i x => exact fun s hs => (hbounds x s (mem_toList.1 hs)).guarded
  | optional h | list h => exact forall_mem_singleton.2 h
  | dict hk hv => exact forall_mem_cons.2 ⟨hk, forall_mem_singleton.2 hv⟩
  | record h => exact forall_mem_map.2 h
  | fn hps hr => exact forall_mem_cons.2 ⟨hr, hps⟩
  | _ => exact nofun

/-- If the parts of a settled type can be compared with everything guarded, either way, then so
can the type. -/
theorem assignHalts_of_parts (ht : Settled bounds t)
    (ih : ∀ s ∈ Sclc.parts bounds t, ∀ g, Guarded g → AssignHalts bounds s g ∧ AssignHalts bounds g s)
    {g : Shape} (hg : Guarded g) : AssignHalts bounds t g ∧ AssignHalts bounds g t := by
  -- the root of `g` is taken off while `t` stays
  induction hg.ready hbounds with
  | @mk g _ _ ihInner ihUpper =>
  have hg' : Guarded (g.unfold ()) := hg.unfold
  constructor
  · refine assignHalts_of_calls ht.guarded hg fun p hp => ?_
    rw [ht.unfold] at hp
    rcases calls_cases hp with ⟨h₁, h₂⟩ | ⟨h₁, h₂⟩ | ⟨⟨i, rfl⟩, h₂⟩ | ⟨h₁, h₂⟩
    · exact (ih _ h₁ _ (hg'.parts hbounds _ h₂)).1
    · exact (ih _ h₂ _ (hg'.parts hbounds _ h₁)).2
    · exact h₂ ▸ (ih _ mem_cons_self _ hg').1
    have hupper : Guarded p.2 := by
      cases hv : g.unfold () with
      | var j x => exact (hbounds x _ (by rwa [hv] at h₂)).guarded
      | _ => exact nomatch hv ▸ h₂
    exact h₁ ▸ (ihUpper _ h₂ hupper).1
  refine assignHalts_of_calls hg ht.guarded fun p hp => ?_
  rw [ht.unfold] at hp
  rcases calls_cases hp with ⟨h₁, h₂⟩ | ⟨h₁, h₂⟩ | ⟨⟨i, hi⟩, h₂⟩ | ⟨h₁, h₂⟩
  · exact (ih _ h₂ _ (hg'.parts hbounds _ h₁)).2
  · exact (ih _ h₁ _ (hg'.parts hbounds _ h₂)).1
  · have hinner : Guarded p.1 := hg'.parts hbounds _ (hi ▸ mem_cons_self)
    exact h₂ ▸ (ihInner i _ hi hinner).2
  have hupper : p.2 ∈ Sclc.parts bounds t := by
    cases t with
    | var j x => exact mem_toList.2 h₂
    | _ => exact nomatch h₂
  exact h₁ ▸ (ih _ hupper _ hg').2

theorem Settled.assignHalts (ht : Settled bounds t) {g : Shape} (hg : Guarded g) :
    AssignHalts bounds t g ∧ AssignHalts bounds g t := by
  induction ht generalizing g with
  | any i => exact assignHalts_of_parts hbounds (.any i) nofun hg
  | never i => exact assignHalts_of_parts hbounds (.never i) nofun hg
  | prim i p => exact assignHalts_of_parts hbounds (.prim i p) nofun hg
  | exception i n => exact assignHalts_of_parts hbounds (.exception i n) nofun hg
  | free hx =>
    refine assignHalts_of_parts hbounds (.free hx) (fun s hs => ?_) hg
    exact nomatch hx.symm.trans (mem_toList.1 hs)
  | bounded hx hb ih =>
    refine assignHalts_of_parts hbounds (.bounded hx hb) (fun s hs g hg => ?_) hg
    cases hx.symm.trans (mem_toList.1 hs)
    exact ih hg
  | optional h ih =>
    exact assignHalts_of_parts hbounds (.optional h) (forall_mem_singleton.2 fun _ => ih) hg
  | list h ih =>
    exact assignHalts_of_parts hbounds (.list h) (forall_mem_singleton.2 fun _ => ih) hg
  | dict hk hv ihk ihv =>
    exact assignHalts_of_parts hbounds (.dict hk hv)
      (forall_mem_cons.2 ⟨fun _ => ihk, forall_mem_singleton.2 fun _ => ihv⟩) hg
  | record h ih =>
    exact assignHalts_of_parts hbounds (.record h) (forall_mem_map.2 fun f hf _ => ih f hf) hg
  | fn hps hr ihps ihr =>
  exact assignHalts_of_parts hbounds (.fn hps hr)
    (forall_mem_cons.2 ⟨fun _ => ihr, fun p hp _ => ihps p hp⟩) hg

end

/-- **The check comes to an end** if the two types are the same, or if one of them is settled and
the other guarded, below bounds that are settled themselves. -/
theorem assign_halts {bounds : Bounds}
    (hbounds : ∀ x b, bounds.lookup x = some b → Settled bounds b) {l r : Shape}
    (h : l = r ∨ (Settled bounds l ∧ Guarded r) ∨ (Guarded l ∧ Settled bounds r)) :
    AssignHalts bounds l r := by
  rcases h with rfl | ⟨hl, hr⟩ | ⟨hl, hr⟩
  · refine ⟨1, ?_⟩
    unfold assignTypeWithBounds assignTypeImpl
    rw [if_pos (by simp)]
    exact halts_pure ()
  · exact (hl.assignHalts hbounds hr).1
  · exact (hr.assignHalts hbounds hl).2

/-- The type of a chain of records, `type L = {next: L?}`, where `x` is the variable that the
checker drew for `L`. -/
def chain (x : ℕ) : Shape := .isoRec () x (.record () [("next", .optional () (.var () x))])

/-- A link is compared with the type of chains, below a variable that is bounded by numbers. -/
theorem link_halts :
    AssignHalts [(7, .prim () .int)] (chain 1)
      (.record () [("next", .optional () (.never ())), ("value", .var () 7)]) := by
  refine assign_halts (fun x b hb => ?_) (.inr (.inr ⟨?_, .record ?_⟩))
  · rw [lookup_cons] at hb
    split at hb
    · exact Option.some.inj hb ▸ .prim () .int
    · exact nomatch hb
  · exact .isoRec (.record (by simp [Guarded.optional, Guarded.var])) rfl
  · simp only [forall_mem_cons]
    exact ⟨.optional (.never ()), .bounded rfl (.prim () .int), nofun⟩

theorem unfold_chain (x : ℕ) :
    (chain x).unfold () = .record () [("next", .optional () (chain x))] := by
  simp [chain, Ty.unfold, Ty.containsVar, Ty.substitute]

theorem unfold_optional (i : Unit) (t : Shape) : (Ty.optional i t).unfold () = .optional i t := rfl

/-- **Two chain types never get compared to the end**, when each was declared for itself: the
comparison of the two leads to that of their optionals, and back. -/
theorem lists_diverge : ¬ AssignHalts [] (chain 1) (chain 2) := by
  have hloop : ∀ n, (assignTypeWithBounds n [] (chain 1) (chain 2)).run = none ∧
      (assignTypeWithBounds n [] (.optional () (chain 1)) (.optional () (chain 2))).run = none := by
    intro n
    induction n with
    | zero => exact ⟨rfl, rfl⟩
    | succ n ih =>
    constructor
    · unfold assignTypeWithBounds assignTypeImpl
      rw [unfold_chain, unfold_chain, if_neg (by decide +kernel)]
      simp [Check.causing, ih.2]
    unfold assignTypeWithBounds assignTypeImpl
    rw [unfold_optional, unfold_optional, if_neg (by decide +kernel)]
    simp [Check.causing, ih.1]
  rintro ⟨n, hn⟩
  exact hn (hloop n).1

end Skyr.Sclc
