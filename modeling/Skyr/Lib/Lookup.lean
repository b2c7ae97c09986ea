import Mathlib.Data.List.Nodup

/-!
# Looking up in a list of entries

`List.lookup` finds the first entry with a key.  In a list in which no key occurs twice it finds
every entry, in whatever order the entries are.
-/

namespace Lookup

open List

variable {κ α β : Type} [BEq κ] [LawfulBEq κ] {l : List (κ × α)} {k : κ} {a : α}

omit [LawfulBEq κ] in
/-- A change of the values. -/
theorem lookup_map (f : α → β) (l : List (κ × α)) (k : κ) :
    (l.map fun e => (e.1, f e.2)).lookup k = (l.lookup k).map f := by
  induction l with
  | nil => rfl
  | cons e l ih =>
  rw [map_cons, lookup_cons, lookup_cons, ih]
  cases k == e.1 <;> rfl

theorem lookup_eq_none (h : k ∉ l.map Prod.fst) : l.lookup k = none := by
  refine lookup_eq_none_iff.2 fun e he => ?_
  exact bne_iff_ne.2 fun hk => h (mem_map.2 ⟨e, he, hk.symm⟩)

theorem lookup_isSome (h : k ∈ l.map Prod.fst) : ∃ a, l.lookup k = some a := by
  refine Option.ne_none_iff_exists'.1 fun hnone => ?_
  obtain ⟨e, he, rfl⟩ := mem_map.1 h
  simpa using lookup_eq_none_iff.1 hnone e he

theorem lookup_of_mem (h : (l.map Prod.fst).Nodup) (hk : (k, a) ∈ l) : l.lookup k = some a := by
  induction l with
  | nil => exact absurd hk not_mem_nil
  | cons e l ih =>
  rw [map_cons, nodup_cons] at h
  rcases mem_cons.1 hk with rfl | hmem
  · exact lookup_cons_self
  have hne : k ≠ e.1 := fun he => h.1 (he ▸ mem_map_of_mem hmem)
  rw [lookup_cons, beq_false_of_ne hne]
  exact ih h.2 hmem

theorem lookup_reverse (h : (l.map Prod.fst).Nodup) (k : κ) : l.reverse.lookup k = l.lookup k := by
  by_cases hk : k ∈ l.map Prod.fst
  · obtain ⟨⟨y, a⟩, ha, rfl⟩ := mem_map.1 hk
    have hreverse : (l.reverse.map Prod.fst).Nodup := by
      rw [map_reverse]
      exact nodup_reverse.2 h
    rw [lookup_of_mem h ha, lookup_of_mem hreverse (mem_reverse.2 ha)]
  have hreverse : k ∉ l.reverse.map Prod.fst := by
    rwa [map_reverse, mem_reverse]
  rw [lookup_eq_none hk, lookup_eq_none hreverse]

end Lookup
