import Mathlib.Data.Fintype.Order
import Skyr.Lib.Lookup
import Skyr.Sclc.Declarations

/-!
# When refinement comes to an end

At every lookup of a variable the checker applies the replacements that are proven in the scope to
the type of the variable, and to the replacements themselves.  The map of replacements is said to be
acyclic by construction: what an optional type is around is a part of the type it replaces, and the
parts of a type are built before the type.

They are not when a recursive type is unfolded.  The nodes of the unfolded type keep their origins,
and so do those of the copy inside.  Let `l.next` be known not to be nil where
`type L = {next: L?}`.  Then the type of `l.next` replaces the origin of `L?`, and it has a node of
this origin, namely in its own field `next`; looking up `l` does not end
(`recursive_refinement_diverges`).

Refinement ends exactly where the map is acyclic as far as it is followed
(`refineHalts_iff_acyclic`): no origin that refinement of the type comes upon leads back to itself.
-/

namespace Skyr.Sclc

namespace ProvenSet

variable {s : ProvenSet} {t : Ty ℕ} {i j : ℕ}

/-! ## What refinement comes upon -/

/-- Refining the type, one comes upon a node of the origin `i`, which is replaced; no node above it
is. -/
inductive Meets (s : ProvenSet) : Ty ℕ → ℕ → Prop
  | here {t r : Ty ℕ} (hr : s.refinesTo.lookup t.id = some r) : Meets s t t.id
  | child {t c : Ty ℕ} {i : ℕ} (ht : s.refinesTo.lookup t.id = none) (hc : c ∈ t.children)
    (h : Meets s c i) : Meets s t i

/-- One comes upon `j` when one refines what replaces `i`. -/
def Leads (s : ProvenSet) (i j : ℕ) : Prop := ∃ r, s.refinesTo.lookup i = some r ∧ s.Meets r j

/-- No origin that is come upon, then or later, leads back to itself. -/
def Acyclic (s : ProvenSet) (t : Ty ℕ) : Prop :=
  ∀ i j, s.Meets t i → Relation.ReflTransGen s.Leads i j → ¬ Relation.TransGen s.Leads j j

theorem Meets.mem_keys (h : s.Meets t i) : i ∈ s.refinesTo.map Prod.fst := by
  induction h with
  | here hr => exact List.mem_map_of_mem (mem_of_lookup hr)
  | child _ _ _ ih => exact ih

theorem Leads.mem_keys (h : s.Leads i j) : j ∈ s.refinesTo.map Prod.fst := by
  obtain ⟨r, -, hr⟩ := h
  exact hr.mem_keys

/-! ## Where refinement ends -/

variable {n : ℕ}

/-- What is come upon is refined with less fuel. -/
theorem Meets.refineTypeInner (h : s.Meets t i) {r : Ty ℕ}
    (hr : s.refineTypeInner n t = some r) :
    ∃ m < n, ∃ u r', s.refinesTo.lookup i = some u ∧ s.refineTypeInner m u = some r' := by
  induction h generalizing n r with
  | here hu =>
    cases n with
    | zero => exact nomatch hr
    | succ n =>
    rw [ProvenSet.refineTypeInner, hu] at hr
    exact ⟨n, n.lt_succ_self, _, r, hu, hr⟩
  | child ht hc _ ih =>
  cases n with
  | zero => exact nomatch hr
  | succ n =>
  rw [ProvenSet.refineTypeInner, ht] at hr
  obtain ⟨r', hr'⟩ := (Ty.congruent_of_refineChildren hr).exists_child _ hc
  obtain ⟨m, hm, hrest⟩ := ih hr'
  exact ⟨m, hm.trans n.lt_succ_self, hrest⟩

/-- The replacement of an origin is refined with some fuel. -/
def Ends (s : ProvenSet) (n i : ℕ) : Prop :=
  ∃ u r, s.refinesTo.lookup i = some u ∧ s.refineTypeInner n u = some r

theorem Leads.ends (h : s.Leads i j) (hi : s.Ends n i) : ∃ m < n, s.Ends m j := by
  obtain ⟨u, hu, hj⟩ := h
  obtain ⟨u', r, hu', hr⟩ := hi
  cases hu.symm.trans hu'
  exact hj.refineTypeInner hr

theorem ends_of_reflTransGen (h : Relation.ReflTransGen s.Leads i j) (hi : s.Ends n i) :
    ∃ m ≤ n, s.Ends m j := by
  induction h with
  | refl => exact ⟨n, le_refl n, hi⟩
  | tail _ h ih =>
  obtain ⟨m, hm, hends⟩ := ih
  obtain ⟨m', hm', hends'⟩ := h.ends hends
  exact ⟨m', hm'.le.trans hm, hends'⟩

/-- On a cycle the fuel would go down for ever. -/
theorem not_cycle_of_ends (hi : s.Ends n i) : ¬ Relation.TransGen s.Leads i i := by
  intro hcycle
  induction n using Nat.strong_induction_on with
  | _ n ih =>
  obtain ⟨j, hij, hji⟩ := Relation.TransGen.head'_iff.1 hcycle
  obtain ⟨m, hm, hj⟩ := hij.ends hi
  obtain ⟨m', hm', hi'⟩ := ends_of_reflTransGen hji hj
  exact ih m' (hm'.trans_lt hm) hi'

theorem acyclic_of_refineTypeInner {r : Ty ℕ} (hr : s.refineTypeInner n t = some r) :
    s.Acyclic t := by
  intro i j hi hij
  obtain ⟨m, -, hm⟩ := hi.refineTypeInner hr
  obtain ⟨m', -, hm'⟩ := ends_of_reflTransGen hij hm
  exact not_cycle_of_ends hm'

/-! ## Where the map is acyclic -/

/-- From an origin that leads to no cycle there are no infinite paths, since the map is finite. -/
theorem acc_of_acyclic (h : ∀ j, Relation.ReflTransGen s.Leads i j →
    ¬ Relation.TransGen s.Leads j j) : Acc (fun a b => s.Leads b a) i := by
  -- the origins after `i`, of which there are finitely many
  let after : Set ℕ := {j | Relation.TransGen s.Leads i j}
  have hfinite : after.Finite := by
    refine (List.finite_toSet (s.refinesTo.map Prod.fst)).subset fun j hj => ?_
    obtain ⟨k, -, hkj⟩ := Relation.TransGen.tail'_iff.1 hj
    exact hkj.mem_keys
  have hfin : Finite after := hfinite.to_subtype
  let below : after → after → Prop := fun a b => Relation.TransGen s.Leads b a
  have htrans : IsTrans after below := ⟨fun _ _ _ hab hbc => hbc.trans hab⟩
  have hirrefl : Std.Irrefl below := ⟨fun a ha => h a a.2.to_reflTransGen ha⟩
  have hwf : WellFounded below := Finite.wellFounded_of_trans_of_irrefl below
  have hacc : ∀ a : after, Acc (fun a b => s.Leads b a) a.1 := by
    intro a
    induction a using hwf.induction with
    | _ a ih => exact ⟨_, fun b hb => ih ⟨b, a.2.tail hb⟩ (.single hb)⟩
  exact ⟨_, fun j hj => hacc ⟨j, .single hj⟩⟩

/-- Refinement ends if it does for the replacements of what is come upon. -/
theorem refineTypeInner_of_meets (h : ∀ i, s.Meets t i → ∃ n, s.Ends n i) :
    ∃ n r, s.refineTypeInner n t = some r := by
  induction t using Ty.children_induction with
  | step t ih =>
  cases ht : s.refinesTo.lookup t.id with
  | some u =>
    obtain ⟨n, u', r, hu', hr⟩ := h _ (.here ht)
    cases ht.symm.trans hu'
    refine ⟨n + 1, r, ?_⟩
    rw [refineTypeInner, ht]
    exact hr
  | none =>
  refine refineTypeInner_halts (fun r hr => ?_) fun c hc => ?_
  · cases ht.symm.trans hr
  · exact ih c hc fun i hi => h i (.child ht hc hi)

theorem refineTypeInner_of_acyclic (h : s.Acyclic t) : ∃ n r, s.refineTypeInner n t = some r := by
  refine refineTypeInner_of_meets fun i hi => ?_
  have hacc := acc_of_acyclic fun j hij => h i j hi hij
  have hkey := hi.mem_keys
  clear h hi
  induction hacc with
  | intro i _ ih =>
  obtain ⟨u, hu⟩ := Lookup.lookup_isSome hkey
  obtain ⟨n, r, hr⟩ := refineTypeInner_of_meets (t := u) fun j hj =>
    ih j ⟨u, hu, hj⟩ hj.mem_keys
  exact ⟨n, u, r, hu, hr⟩

/-- **Refinement comes to an end exactly where the map of replacements is acyclic.** -/
theorem refineHalts_iff_acyclic (s : ProvenSet) (t : Ty ℕ) : s.RefineHalts t ↔ s.Acyclic t := by
  by_cases hempty : s.refinesTo.isEmpty
  · refine ⟨fun _ i j hi => ?_, fun _ => ⟨0, t, if_pos hempty⟩⟩
    have hkey := hi.mem_keys
    rw [List.isEmpty_iff.1 hempty] at hkey
    exact nomatch hkey
  constructor
  · rintro ⟨n, r, hr⟩
    rw [refineType, if_neg hempty] at hr
    exact acyclic_of_refineTypeInner hr
  intro h
  obtain ⟨n, r, hr⟩ := refineTypeInner_of_acyclic h
  exact ⟨n, r, (if_neg hempty).trans hr⟩

end ProvenSet

end Skyr.Sclc

/-! ## Examples -/

namespace Skyr.Sclc.Origins

local instance : Floats := .int

/-- The module of the declarations below. -/
def main : ModuleNode := ⟨⟨["P"], ["Main"]⟩, ["P", "Main"], default⟩

/-- `type L = {next: L?}` -/
def record : Decl :=
  .types [(main, ⟨"L", [], .record [("next", .optional (.var "L"))]⟩)] true

/-- `let f = fn(l: L) if (l.next != nil) l else l` -/
def lookup : Decl :=
  .global ⟨main, "f", none, .fn 0 [] [("l", some (.var "L"))]
    (.ifElse (.binary .neq (.propertyAccess (.var "l") "next" false) .nil)
      (.var "l") (.var "l"))⟩ false

/-- What `L` is around, where it refers to itself. -/
def body : Ty ℕ := .record 3 [("next", .optional 2 (.var 1 0))]

/-- The node that is replaced is in its replacement. -/
theorem body_diverges {s : ProvenSet} (hs : s.refinesTo = [(2, .isoRec 7 0 body)]) (n : ℕ) :
    (∀ i ≠ 2, s.refineTypeInner n (.isoRec i 0 body) = none) ∧
      s.refineTypeInner n body = none ∧
      s.refineTypeInner n (.optional 2 (.var 1 0)) = none := by
  have hmiss : ∀ i ≠ 2, s.refinesTo.lookup i = none := by
    intro i hi
    rw [hs, List.lookup_cons, beq_eq_false_iff_ne.2 hi]
    rfl
  have hhit : s.refinesTo.lookup 2 = some (.isoRec 7 0 body) := by
    rw [hs]
    rfl
  induction n with
  | zero => exact ⟨fun _ _ => rfl, rfl, rfl⟩
  | succ n ih =>
  obtain ⟨hiso, hbody, hoptional⟩ := ih
  refine ⟨fun i hi => ?_, ?_, ?_⟩
  · rw [ProvenSet.refineTypeInner, Ty.id, hmiss i hi, Ty.refineChildren, hbody]
    rfl
  · rw [ProvenSet.refineTypeInner, body, Ty.id, hmiss 3 (by decide), Ty.refineChildren,
      List.mapM_cons, hoptional]
    rfl
  · rw [ProvenSet.refineTypeInner, Ty.id, hhit]
    exact hiso 7 (by decide)

/-- What is proven in the first branch. -/
def notNil : ProvenSet where
  proven := [.isTrue 13, .refinesTo 2 (.isoRec 7 0 body)]
  implications := [(.not (.isTrue 13), .refinesTo 2 (.optional 15 (.never 14)))]
  refinesTo := [(2, .isoRec 7 0 body)]

/-- **Refinement need not end.**  Where `l.next` is known not to be nil, the type of `l` is not
refined in any number of steps. -/
theorem recursive_refinement_diverges :
    ∃ s t c, drive 9 (checkProgram 10 ⟨[], [], []⟩ [record, lookup]) .start =
      .stuck (.refine s t) c ∧ ¬ s.RefineHalts t := by
  refine ⟨notNil, .isoRec 4 0 body, ⟨17, [(5, .never 5)]⟩, by with_unfolding_all rfl, ?_⟩
  rintro ⟨n, r, hr⟩
  rw [ProvenSet.refineType, if_neg nofun, (body_diverges rfl n).1 4 (by decide)] at hr
  exact nomatch hr

end Skyr.Sclc.Origins
