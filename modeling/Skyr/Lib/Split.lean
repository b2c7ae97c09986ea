import Mathlib.Data.List.Infix

/-!
# Splitting at a separator

A text is cut at the first or at the last place where a separator stands.  What comes back is what
one started from: if the text is `a`, then the separator, then `b`, and the separator stands nowhere
before, the parts are `a` and `b` (`splitOnce_append`, `rsplitOnce_append`).  "Nowhere before" has
to mind that two places where the separator stands may overlap, so it says that the separator does
not stand in the text up to the last letter of the given one.

The case of a separator that is one letter twice comes up often enough to have its own lemmas: such
a pair stands in a text where two neighbours are both the letter (`pair_infix_cons`).
-/

namespace Skyr

open List

variable {α : Type} [DecidableEq α]

/-- The text before and after the first `sep`. -/
def splitOnce (sep : List α) : List α → Option (List α × List α)
  | [] => if sep.isEmpty then some ([], []) else none
  | c :: cs =>
    if sep.isPrefixOf (c :: cs) then some ([], (c :: cs).drop sep.length)
    else (splitOnce sep cs).map fun p => (c :: p.1, p.2)

/-- The text before and after the last `sep`. -/
def rsplitOnce (sep : List α) (cs : List α) : Option (List α × List α) :=
  (splitOnce sep.reverse cs.reverse).map fun p => (p.2.reverse, p.1.reverse)

variable {sep s a b : List α}

/-- The parts make up the text. -/
theorem eq_of_splitOnce (h : splitOnce sep s = some (a, b)) : s = a ++ sep ++ b := by
  induction s generalizing a b with
  | nil =>
    rw [splitOnce] at h
    split at h
    · rename_i hsep
      cases h
      rw [isEmpty_iff.1 hsep]
      rfl
    · exact nomatch h
  | cons c cs ih =>
  rw [splitOnce] at h
  split at h
  · rename_i hsep
    cases h
    obtain ⟨t, ht⟩ := isPrefixOf_iff_prefix.1 hsep
    rw [← ht, drop_left]
    rfl
  obtain ⟨⟨a', b'⟩, hp, heq⟩ := Option.map_eq_some_iff.1 h
  cases heq
  rw [ih hp]
  rfl

theorem eq_of_rsplitOnce (h : rsplitOnce sep s = some (a, b)) : s = a ++ sep ++ b := by
  obtain ⟨⟨b', a'⟩, hp, heq⟩ := Option.map_eq_some_iff.1 h
  cases heq
  have hs := congrArg List.reverse (eq_of_splitOnce hp)
  simpa using hs

/-- A separator that stands in the text is found. -/
theorem splitOnce_isSome (h : sep <:+: s) : (splitOnce sep s).isSome := by
  induction s with
  | nil =>
    rw [infix_nil.1 h]
    rfl
  | cons c cs ih =>
  rw [splitOnce]
  split
  · rfl
  rename_i hsep
  rw [Option.isSome_map]
  refine ih ((infix_cons_iff.1 h).resolve_left fun hprefix => hsep ?_)
  exact isPrefixOf_iff_prefix.2 hprefix

/-- A text is cut at the first separator. -/
theorem splitOnce_append (hsep : sep ≠ []) (h : ¬ sep <:+: (a ++ sep).dropLast) :
    splitOnce sep (a ++ sep ++ b) = some (a, b) := by
  induction a with
  | nil =>
    obtain ⟨x, sep, rfl⟩ := exists_cons_of_ne_nil hsep
    have hprefix : ((x :: sep).isPrefixOf (x :: (sep ++ b))) = true :=
      isPrefixOf_iff_prefix.2 (prefix_append (x :: sep) b)
    rw [nil_append, cons_append, splitOnce, if_pos hprefix]
    simp
  | cons c a ih =>
  have hne : a ++ sep ≠ [] := by simp [hsep]
  rw [cons_append, dropLast_cons_of_ne_nil hne] at h
  have hrest : ¬ sep <:+: (a ++ sep).dropLast := fun h' => h (h'.trans (suffix_cons _ _).isInfix)
  have hfirst : ¬ sep <+: c :: (a ++ sep ++ b) := by
    intro hprefix
    refine h (List.IsPrefix.isInfix ?_)
    refine prefix_of_prefix_length_le hprefix ?_ ?_
    · refine prefix_cons_inj c |>.2 ((List.dropLast_prefix _).trans ?_)
      exact prefix_append _ _
    rw [length_cons, length_dropLast, length_append]
    have := length_pos_of_ne_nil hsep
    omega
  rw [cons_append, cons_append, splitOnce,
    if_neg fun h' => hfirst (List.isPrefixOf_iff_prefix.1 h'), ih hrest]
  rfl

/-- A text is cut at the last separator. -/
theorem rsplitOnce_append (hsep : sep ≠ []) (h : ¬ sep <:+: (sep ++ b).tail) :
    rsplitOnce sep (a ++ sep ++ b) = some (a, b) := by
  have hrev : ¬ sep.reverse <:+: (b.reverse ++ sep.reverse).dropLast := by
    rw [← reverse_append, dropLast_reverse, reverse_infix]
    exact h
  have hsplit := splitOnce_append (b := a.reverse) (by simpa using hsep) hrev
  rw [rsplitOnce, reverse_append, reverse_append, ← append_assoc, hsplit]
  simp

/-! ## One letter -/

variable {x c : α}

/-- The part before the first place does not have the letter. -/
theorem notMem_of_splitOnce (h : splitOnce [x] s = some (a, b)) : x ∉ a := by
  induction s generalizing a b with
  | nil => exact nomatch h
  | cons c s ih =>
  rw [splitOnce] at h
  split at h
  · cases h
    exact not_mem_nil
  rename_i hc
  obtain ⟨⟨a', b'⟩, hp, heq⟩ := Option.map_eq_some_iff.1 h
  cases heq
  refine mem_cons.not.2 (not_or.2 ⟨fun hxc => hc ?_, ih hp⟩)
  rw [hxc]
  simp

theorem splitOnce_singleton (h : x ∉ a) : splitOnce [x] (a ++ [x] ++ b) = some (a, b) := by
  refine splitOnce_append (by simp) fun hx => h ?_
  rw [dropLast_concat] at hx
  exact hx.subset mem_cons_self

theorem rsplitOnce_singleton (h : x ∉ b) : rsplitOnce [x] (a ++ [x] ++ b) = some (a, b) :=
  rsplitOnce_append (by simp) fun hx => h (hx.subset mem_cons_self)

/-! ## One letter twice -/

omit [DecidableEq α] in
theorem pair_infix_cons : [x, x] <:+: c :: s ↔ (c = x ∧ s.head? = some x) ∨ [x, x] <:+: s := by
  rw [infix_cons_iff]
  refine or_congr ?_ Iff.rfl
  cases s with
  | nil => simp
  | cons d s => simp [cons_prefix_cons, eq_comm]

omit [DecidableEq α] in
/-- Neighbours that are both the letter are behind what does not have the letter. -/
theorem pair_infix_append (h : x ∉ a) : [x, x] <:+: a ++ s ↔ [x, x] <:+: s := by
  induction a with
  | nil => rfl
  | cons c a ih =>
  obtain ⟨hc, ha⟩ := not_or.1 (mem_cons.not.1 h)
  rw [cons_append, pair_infix_cons, ih ha, or_iff_right fun h' => hc h'.1.symm]

/-- A text without the letter is cut off at the first pair. -/
theorem splitOnce_pair (h : x ∉ a) : splitOnce [x, x] (a ++ [x, x] ++ b) = some (a, b) := by
  refine splitOnce_append (by simp) ?_
  have hlast : (a ++ [x, x]).dropLast = a ++ [x] := by simp
  rw [hlast, pair_infix_append h, pair_infix_cons]
  simp

/-- A text without a pair that does not start with the letter is cut off at the last pair. -/
theorem rsplitOnce_pair (h : ¬ [x, x] <:+: x :: b) :
    rsplitOnce [x, x] (a ++ [x, x] ++ b) = some (a, b) :=
  rsplitOnce_append (by simp) h

end Skyr
