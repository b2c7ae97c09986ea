import Mathlib.Logic.Relation

/-!
# Chains

A relation under which everything has at most one successor is a set of chains, each of which ends
somewhere, goes on for ever, or comes back to where it has been.  Following a chain from an element
there is one way to go, so what can be reached from the successor is what can be reached from the
element, and an element from which the chain comes back to itself reaches no end.
-/

namespace Skyr.Chains

open Relation

variable {α : Type} {r : α → α → Prop}

/-- The way from `a` goes through its successor. -/
theorem transGen_iff (h : Relator.RightUnique r) {a b c : α} (hab : r a b) :
    TransGen r a c ↔ c = b ∨ TransGen r b c := by
  rw [TransGen.head'_iff]
  constructor
  · rintro ⟨b', hab', hbc⟩
    obtain rfl := h hab hab'
    exact reflTransGen_iff_eq_or_transGen.1 hbc
  · intro hc
    exact ⟨b, hab, reflTransGen_iff_eq_or_transGen.2 hc⟩

/-- What can be reached from a cycle is on it. -/
theorem cycle_of_reachable (h : Relator.RightUnique r) {a c : α} (ha : TransGen r a a)
    (hac : ReflTransGen r a c) : TransGen r c c := by
  induction hac with
  | refl => exact ha
  | tail _ hcd ih =>
  rcases (transGen_iff h hcd).1 ih with rfl | hdc
  · exact .single hcd
  · exact hdc.tail hcd

/-- A cycle leads to no end. -/
theorem exists_successor (h : Relator.RightUnique r) {a c : α} (ha : TransGen r a a)
    (hac : ReflTransGen r a c) : ∃ d, r c d := by
  obtain ⟨d, hcd, -⟩ := TransGen.head'_iff.1 (cycle_of_reachable h ha hac)
  exact ⟨d, hcd⟩

end Skyr.Chains
