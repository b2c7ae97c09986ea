import Mathlib.Data.List.Forall2
import Mathlib.Data.List.Pairwise

/-!
# Association lists with an equality test

A finite map kept as a list of entries, where keys are compared by a test that need not be
equality.  All that is asked of the test is that it is symmetric and transitive; a key that is not
equal to itself is one that is never found.

An entry can be inserted, which replaces every entry under an equal key or comes last, removed, or
merged in, which replaces the first entry under an equal key or comes last.  `get_insertOrReplace`
and `get_merge` say what the operations do to the map, and the `Distinct` lemmas that they never
bring in a second entry under an equal key.  Two lists for the same map are equal entry
by entry only if their keys come in the same order (`forall₂_of_sameBindings`).
-/

namespace Skyr

open List

/-- A test that is symmetric and transitive. -/
structure IsPer {κ : Type} (eq : κ → κ → Bool) : Prop where
  symm {a b : κ} : eq a b = true → eq b a = true
  trans {a b c : κ} : eq a b = true → eq b c = true → eq a c = true

namespace Assoc

variable {κ β : Type} (eq : κ → κ → Bool)

/-- The value under a key: that of the first entry whose key is equal. -/
def get (l : List (κ × β)) (k : κ) : Option β := (l.find? fun e => eq e.1 k).map Prod.snd

/-- Put a value under a key, in the place of what is there under an equal one. -/
def insertOrReplace (l : List (κ × β)) (k : κ) (v : β) : List (κ × β) :=
  if l.any fun e => eq e.1 k then l.map fun e => if eq e.1 k then (k, v) else e else l ++ [(k, v)]

/-- Remove what is under a key. -/
def remove (l : List (κ × β)) (k : κ) : List (κ × β) := l.filter fun e => !eq e.1 k

/-- Put an entry in the place of the first one under an equal key. -/
def mergeEntry : List (κ × β) → κ × β → List (κ × β)
  | [], e => [e]
  | e' :: l, e => if eq e'.1 e.1 then e :: l else e' :: mergeEntry l e

/-- Put all entries of another list into a list. -/
def merge (l r : List (κ × β)) : List (κ × β) := r.foldl (mergeEntry eq) l

/-- No two entries have equal keys. -/
def Distinct (l : List (κ × β)) : Prop := l.Pairwise fun e e' => eq e.1 e'.1 = false

/-- Two lists have equal values under every key. -/
def SameBindings (eqv : β → β → Bool) (l l' : List (κ × β)) : Prop :=
  ∀ k, Option.Rel (fun v v' => eqv v v' = true) (get eq l k) (get eq l' k)

variable {eq}

/-! ## Looking up -/

@[simp] theorem get_nil (k : κ) : get eq ([] : List (κ × β)) k = none := rfl

theorem get_cons (e : κ × β) (l : List (κ × β)) (k : κ) :
    get eq (e :: l) k = if eq e.1 k = true then some e.2 else get eq l k := by
  rw [get, find?_cons]
  cases eq e.1 k <;> rfl

variable {l : List (κ × β)}

theorem get_eq_none {k : κ} : get eq l k = none ↔ ∀ e ∈ l, eq e.1 k = false := by simp [get]

theorem get_append (l r : List (κ × β)) (k : κ) :
    get eq (l ++ r) k = (get eq l k).or (get eq r k) := by
  rw [get, get, get, find?_append]
  cases l.find? fun e => eq e.1 k <;> rfl

variable (h : IsPer eq)

include h

/-- Equal keys are equal to the same keys. -/
theorem test_congr {a b : κ} (hab : eq a b = true) (c : κ) : eq a c = eq b c := by
  rw [Bool.eq_iff_iff]
  exact ⟨h.trans (h.symm hab), h.trans hab⟩

theorem test_comm (a b : κ) : eq a b = eq b a := by
  rw [Bool.eq_iff_iff]
  exact ⟨h.symm, h.symm⟩

theorem get_insertOrReplace (l : List (κ × β)) (k : κ) (v : β) (k' : κ) :
    get eq (insertOrReplace eq l k v) k' = if eq k k' = true then some v else get eq l k' := by
  rw [insertOrReplace]
  split
  · next hany =>
    -- Where `k'` is equal to `k`, the first entry that is found is the first one replaced.
    induction l with
    | nil => exact nomatch hany
    | cons e l ih =>
    rw [map_cons, get_cons, get_cons]
    by_cases hek : eq e.1 k = true
    · rw [if_pos hek, test_congr h hek k']
      by_cases hkk : eq k k' = true
      · rw [if_pos hkk, if_pos hkk]
      rw [if_neg hkk, if_neg hkk, if_neg hkk]
      by_cases hrest : (l.any fun e => eq e.1 k) = true
      · rw [ih hrest, if_neg hkk]
      have hmap : (l.map fun e => if eq e.1 k = true then (k, v) else e) = l := by
        refine (map_congr_left fun e he => if_neg ?_).trans (map_id l)
        exact fun hek => hrest (any_eq_true.2 ⟨e, he, hek⟩)
      rw [hmap]
    rw [if_neg hek]
    have hrest : (l.any fun e => eq e.1 k) = true := by simpa [hek] using hany
    rw [ih hrest]
    by_cases hkk : eq k k' = true
    · have hek' : ¬eq e.1 k' = true := by
        rwa [test_comm h, ← test_congr h hkk, test_comm h]
      rw [if_neg hek', if_pos hkk, if_pos hkk]
    · rw [if_neg hkk, if_neg hkk]
  next hnone =>
  rw [get_append, get_cons, get_nil]
  by_cases hkk : eq k k' = true
  · have hl : get eq l k' = none := by
      refine get_eq_none.2 fun e he => ?_
      rw [test_comm h, ← test_congr h hkk, test_comm h]
      exact Bool.eq_false_iff.2 fun hek => hnone (any_eq_true.2 ⟨e, he, hek⟩)
    rw [hl, if_pos hkk]
    rfl
  · rw [if_neg hkk, if_neg hkk, Option.or_none]

theorem get_mergeEntry (l : List (κ × β)) (e : κ × β) (k : κ) :
    get eq (mergeEntry eq l e) k = if eq e.1 k = true then some e.2 else get eq l k := by
  induction l with
  | nil => rw [mergeEntry, get_cons]
  | cons e' l ih =>
  rw [mergeEntry]
  by_cases hee : eq e'.1 e.1 = true
  · rw [if_pos hee, get_cons, get_cons, test_congr h hee k]
    by_cases hek : eq e.1 k = true
    · rw [if_pos hek, if_pos hek]
    · rw [if_neg hek, if_neg hek, if_neg hek]
  rw [if_neg hee, get_cons, get_cons, ih]
  by_cases hek : eq e.1 k = true
  · have hek' : ¬eq e'.1 k = true := by
      rwa [test_comm h, ← test_congr h hek, test_comm h]
    rw [if_neg hek', if_pos hek, if_pos hek]
  · rw [if_neg hek, if_neg hek]

/-- The entries that are merged in win. -/
theorem get_merge {r : List (κ × β)} (hr : Distinct eq r) (l : List (κ × β)) (k : κ) :
    get eq (merge eq l r) k = (get eq r k).or (get eq l k) := by
  induction r generalizing l with
  | nil => rfl
  | cons e r ih =>
  obtain ⟨her, hr⟩ := pairwise_cons.1 hr
  change get eq (merge eq (mergeEntry eq l e) r) k = _
  rw [ih hr, get_mergeEntry h, get_cons]
  by_cases hek : eq e.1 k = true
  · have hnone : get eq r k = none := by
      refine get_eq_none.2 fun e' he' => ?_
      rw [test_comm h, ← test_congr h hek]
      exact her e' he'
    rw [hnone, if_pos hek, if_pos hek]
    rfl
  · rw [if_neg hek, if_neg hek]

/-! ## Keys stay distinct -/

theorem distinct_insertOrReplace (hl : Distinct eq l) (k : κ) (v : β) :
    Distinct eq (insertOrReplace eq l k v) := by
  rw [insertOrReplace]
  split
  · refine pairwise_map.2 (hl.imp fun {e e'} hee => ?_)
    by_cases hek : eq e.1 k = true
    · have hek' : ¬eq e'.1 k = true := by
        rw [test_comm h, ← test_congr h hek, hee]
        exact Bool.false_ne_true
      rw [if_pos hek, if_neg hek', ← test_congr h hek]
      exact hee
    rw [if_neg hek]
    split
    · exact Bool.eq_false_iff.2 hek
    · exact hee
  next hnone =>
  refine pairwise_append.2 ⟨hl, pairwise_singleton _ _, fun e he e' he' => ?_⟩
  rw [mem_singleton.1 he']
  exact Bool.eq_false_iff.2 fun hek => hnone (any_eq_true.2 ⟨e, he, hek⟩)

omit h in
theorem distinct_remove (hl : Distinct eq l) (k : κ) : Distinct eq (remove eq l k) :=
  List.Pairwise.filter _ hl

omit h in
theorem mem_mergeEntry {e e' : κ × β} (he' : e' ∈ mergeEntry eq l e) : e' = e ∨ e' ∈ l := by
  induction l with
  | nil => exact .inl (mem_singleton.1 he')
  | cons a l ih =>
  rw [mergeEntry] at he'
  split at he'
  · exact (mem_cons.1 he').imp_right (mem_cons_of_mem _)
  rcases mem_cons.1 he' with rfl | he'
  · exact .inr mem_cons_self
  · exact (ih he').imp_right (mem_cons_of_mem _)

theorem distinct_mergeEntry (hl : Distinct eq l) (e : κ × β) : Distinct eq (mergeEntry eq l e) := by
  induction l with
  | nil => exact pairwise_singleton _ _
  | cons a l ih =>
  obtain ⟨hal, hl⟩ := pairwise_cons.1 hl
  rw [mergeEntry]
  split
  · next hae =>
    refine pairwise_cons.2 ⟨fun e' he' => ?_, hl⟩
    rw [← test_congr h hae]
    exact hal e' he'
  next hae =>
  refine pairwise_cons.2 ⟨fun e' he' => ?_, ih hl⟩
  rcases mem_mergeEntry he' with rfl | he'
  · exact Bool.eq_false_iff.2 hae
  · exact hal e' he'

theorem distinct_merge (hl : Distinct eq l) (r : List (κ × β)) : Distinct eq (merge eq l r) := by
  induction r generalizing l with
  | nil => exact hl
  | cons e r ih => exact ih (distinct_mergeEntry h hl e)

/-! ## The order of the keys -/

/-- Without their first entries, under equal keys, two lists for the same map are lists for the same
map. -/
theorem SameBindings.tail {eqv : β → β → Bool} {e e' : κ × β} {l l' : List (κ × β)}
    (hl : Distinct eq (e :: l)) (hl' : Distinct eq (e' :: l')) (hee : eq e.1 e'.1 = true)
    (hsame : SameBindings eq eqv (e :: l) (e' :: l')) : SameBindings eq eqv l l' := by
  intro k
  by_cases hek : eq e.1 k = true
  · have hek' : eq e'.1 k = true := by rwa [← test_congr h hee]
    have hnone : get eq l k = none := by
      refine get_eq_none.2 fun a ha => ?_
      rw [test_comm h, ← test_congr h hek]
      exact rel_of_pairwise_cons hl ha
    have hnone' : get eq l' k = none := by
      refine get_eq_none.2 fun a ha => ?_
      rw [test_comm h, ← test_congr h hek']
      exact rel_of_pairwise_cons hl' ha
    rw [hnone, hnone']
    exact .none
  have hek' : ¬eq e'.1 k = true := by rwa [← test_congr h hee]
  have hk := hsame k
  rwa [get_cons, get_cons, if_neg hek, if_neg hek'] at hk

/-- Two lists for the same map, with their keys in the same order, are equal entry by entry. -/
theorem forall₂_of_sameBindings {eqv : β → β → Bool} {l l' : List (κ × β)}
    (hl : Distinct eq l) (hl' : Distinct eq l') (hsame : SameBindings eq eqv l l')
    (horder : List.Forall₂ (fun e e' => eq e.1 e'.1 = true) l l') :
    List.Forall₂ (fun e e' => eq e.1 e'.1 = true ∧ eqv e.2 e'.2 = true) l l' := by
  induction horder with
  | nil => exact .nil
  | @cons e e' l l' hee _ ih =>
  refine .cons ⟨hee, ?_⟩ (ih (pairwise_cons.1 hl).2 (pairwise_cons.1 hl').2
    (hsame.tail h hl hl' hee))
  have hk := hsame e'.1
  rw [get_cons, get_cons, if_pos hee, if_pos (h.trans (h.symm hee) hee)] at hk
  cases hk with
  | some hv => exact hv

end Assoc

end Skyr
