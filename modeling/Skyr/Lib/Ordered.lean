import Mathlib.Data.List.Forall2

/-!
# Ordered lists as maps and sets

A map with ordered keys is kept as the list of its entries, a set as the list of its members, in
the order of the keys and without repetition.  Only what a program needs to build them is here:
insertion, and union.  Lookup is that of association lists.

`Entries R` relates two maps entry by entry: the same keys, at the same places, and related values.
-/

namespace Skyr

open List

variable {κ α : Type} [DecidableEq κ]

namespace OrdMap

variable (lt : κ → κ → Bool)

/-- Insert an entry at its place; an entry with the same key is replaced. -/
def insert (k : κ) (a : α) : List (κ × α) → List (κ × α)
  | [] => [(k, a)]
  | p :: l =>
    if k = p.1 then (k, a) :: l
    else if lt k p.1 then (k, a) :: p :: l
    else p :: insert k a l

end OrdMap

namespace OrdSet

variable (lt : κ → κ → Bool)

/-- Insert a member at its place. -/
def insert (k : κ) : List κ → List κ
  | [] => [k]
  | x :: l =>
    if k = x then x :: l
    else if lt k x then k :: x :: l
    else x :: insert k l

/-- The union of two sets. -/
def union (s t : List κ) : List κ := t.foldl (fun s k => insert lt k s) s

end OrdSet

variable {β γ : Type}

theorem forall₂_exists_left {R : β → γ → Prop} {l : List β} {m : List γ}
    (h : List.Forall₂ R l m) {c : γ} (hc : c ∈ m) : ∃ b ∈ l, R b c := by
  induction h with
  | nil => exact nomatch hc
  | @cons b c' l m hbc _ ih =>
  rcases mem_cons.1 hc with rfl | hc
  · exact ⟨b, mem_cons_self, hbc⟩
  · obtain ⟨b', hb', hR⟩ := ih hc
    exact ⟨b', mem_cons_of_mem _ hb', hR⟩

theorem mem_of_lookup [BEq β] [LawfulBEq β] {l : List (β × α)} {k : β} {a : α}
    (h : l.lookup k = some a) : (k, a) ∈ l := by
  obtain ⟨l₁, l₂, rfl, -⟩ := lookup_eq_some_iff.1 h
  exact mem_append_right _ mem_cons_self

/-- The same keys, with related values. -/
def Entries {β : Type} (R : α → β → Prop) : List (κ × α) → List (κ × β) → Prop :=
  List.Forall₂ fun p q => p.1 = q.1 ∧ R p.2 q.2

end Skyr
