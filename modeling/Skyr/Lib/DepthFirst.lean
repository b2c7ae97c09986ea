import Mathlib.Data.List.Nodup
import Mathlib.Algebra.Order.BigOperators.Group.List
import Mathlib.Algebra.Order.Ring.Nat

/-!
# Depth-first walks

A walk keeps a stack of nodes to visit, each with a label, and the nodes it has visited with the
label it first took off the stack for them.  `next` says which nodes a visited node puts on the
stack; it may fail, and then the walk fails.  `search` is the loop, with fuel; `Visits` is the
same loop as a relation, for the walks that end, and everything about the result of a walk is
proved by induction on it:

* a node on the stack is visited, and so is what a visited node puts there (`Visits.visited`,
  `Visits.closed`);
* whatever holds of the stack and is handed on by `next` holds of every visit (`Visits.invariant`);
* a walk over more nodes, looked at on those that `keep` picks, is the walk over those alone
  (`Visits.filter`), and a walk has one result (`Visits.unique`).

A walk over finitely many nodes ends: `search_ne_none`.
-/

namespace Skyr.DepthFirst

open List

variable {α δ ε : Type}

/-- The nodes of a stack, or of the visits made. -/
abbrev nodes (visits : List (α × δ)) : List α := visits.map Prod.fst

/-- The loop.  The last node found is visited first; the visits come newest first. -/
def search [DecidableEq α] (next : α → δ → Except ε (List (α × δ))) :
    ℕ → List (α × δ) → List (α × δ) → Option (Except ε (List (α × δ)))
  | _, [], visits => some (.ok visits)
  | 0, _ :: _, _ => none
  | fuel + 1, (x, d) :: stack, visits =>
    if x ∈ nodes visits then search next fuel stack visits
    else match next x d with
      | .error e => some (.error e)
      | .ok found => search next fuel (found.reverse ++ stack) ((x, d) :: visits)

/-- From a stack and the visits made so far, the walk ends with the visits `r`. -/
inductive Visits (next : α → δ → Except ε (List (α × δ))) :
    List (α × δ) → List (α × δ) → List (α × δ) → Prop
  | done (visits : List (α × δ)) : Visits next [] visits visits
  | again {x : α} {d : δ} {stack visits r : List (α × δ)} (hx : x ∈ nodes visits)
      (h : Visits next stack visits r) : Visits next ((x, d) :: stack) visits r
  | visit {x : α} {d : δ} {found stack visits r : List (α × δ)} (hx : x ∉ nodes visits)
      (hnext : next x d = .ok found)
      (h : Visits next (found.reverse ++ stack) ((x, d) :: visits) r) :
      Visits next ((x, d) :: stack) visits r

variable {next : α → δ → Except ε (List (α × δ))} {stack visits r : List (α × δ)}

theorem visits_of_search [DecidableEq α] {fuel : ℕ}
    (h : search next fuel stack visits = some (.ok r)) : Visits next stack visits r := by
  induction fuel generalizing stack visits with
  | zero =>
    cases stack with
    | nil =>
      cases h
      exact .done _
    | cons p stack => exact nomatch h
  | succ fuel ih =>
  cases stack with
  | nil =>
    cases h
    exact .done _
  | cons p stack =>
  obtain ⟨x, d⟩ := p
  rw [search] at h
  split at h
  · next hx => exact .again hx (ih h)
  next hx =>
  cases hnext : next x d with
  | error e =>
    rw [hnext] at h
    exact nomatch h
  | ok found =>
  rw [hnext] at h
  exact .visit hx hnext (ih h)

/-! ## The walk ends -/

section Ends

variable [DecidableEq α]

/-- What the nodes of `all` that are not visited yet can still put on the stack. -/
def pending (all : List α) (degree : α → ℕ) (visits : List (α × δ)) : ℕ :=
  ((all.filter (· ∉ nodes visits)).map degree).sum

/-- Visiting a node takes its degree off what is pending. -/
theorem pending_visit {all : List α} (degree : α → ℕ) {x : α} (d : δ) (hx : x ∉ nodes visits)
    (hmem : x ∈ all) : pending all degree ((x, d) :: visits) + degree x ≤
      pending all degree visits := by
  have hfilter : all.filter (· ∉ nodes ((x, d) :: visits)) =
      (all.filter (· ∉ nodes visits)).filter (· ≠ x) := by
    rw [filter_filter]
    refine filter_congr fun y _ => ?_
    simp only [map_cons, mem_cons, not_or, ne_eq, Bool.decide_and]
  have hx' : x ∈ all.filter (· ∉ nodes visits) := mem_filter.2 ⟨hmem, by simpa using hx⟩
  rw [pending, pending, hfilter]
  generalize all.filter (· ∉ nodes visits) = rest at hx' ⊢
  clear hfilter hmem
  induction rest with
  | nil => exact nomatch hx'
  | cons y rest ih =>
  by_cases hy : y = x
  · rw [filter_cons_of_neg (by simp [hy]), map_cons, sum_cons, hy, Nat.add_comm]
    have hsub : (rest.filter (· ≠ x)).Sublist rest := filter_sublist
    exact Nat.add_le_add_left ((hsub.map degree).sum_le_sum fun _ _ => Nat.zero_le _) _
  · rw [filter_cons_of_pos (by simp [hy]), map_cons, map_cons, sum_cons, sum_cons, Nat.add_assoc]
    exact Nat.add_le_add_left (ih ((mem_cons.1 hx').resolve_left (Ne.symm hy))) _

/-- **The walk ends** if only the nodes of a list put anything on the stack, each at most its
degree. -/
theorem search_ne_none {all : List α} {degree : α → ℕ} {fuel : ℕ}
    (hnext : ∀ x d found, next x d = .ok found → found = [] ∨ x ∈ all ∧ found.length ≤ degree x)
    (h : stack.length + pending all degree visits ≤ fuel) :
    search next fuel stack visits ≠ none := by
  induction fuel generalizing stack visits with
  | zero =>
    cases stack with
    | nil => exact nofun
    | cons p stack =>
    rw [length_cons] at h
    omega
  | succ fuel ih =>
  cases stack with
  | nil => exact nofun
  | cons p stack =>
  obtain ⟨x, d⟩ := p
  rw [length_cons] at h
  rw [search]
  split
  · exact ih (by omega)
  next hx =>
  cases hfound : next x d with
  | error e => exact nofun
  | ok found =>
  refine ih ?_
  rw [length_append, length_reverse]
  rcases hnext x d found hfound with rfl | ⟨hmem, hdegree⟩
  · have hle : pending all degree ((x, d) :: visits) ≤ pending all degree visits := by
      have hsub : (all.filter (· ∉ nodes ((x, d) :: visits))).Sublist
          (all.filter (· ∉ nodes visits)) :=
        monotone_filter_right all fun y hy => by
          simp only [map_cons, mem_cons, not_or, decide_eq_true_eq] at hy ⊢
          exact hy.2
      exact (hsub.map degree).sum_le_sum fun _ _ => Nat.zero_le _
    rw [length_nil]
    omega
  · have hvisit := pending_visit degree d hx hmem
    omega

/-- A walk fails at a node only: none of the nodes that come up fails, so the walk does not. -/
theorem search_ok {P : α → δ → Prop} {fuel : ℕ}
    (hnext : ∀ x d, P x d → ∃ found, next x d = .ok found ∧ ∀ q ∈ found, P q.1 q.2)
    (hstack : ∀ q ∈ stack, P q.1 q.2) (h : search next fuel stack visits ≠ none) :
    ∃ r, search next fuel stack visits = some (.ok r) := by
  induction fuel generalizing stack visits with
  | zero =>
    cases stack with
    | nil => exact ⟨visits, rfl⟩
    | cons p stack => exact absurd rfl h
  | succ fuel ih =>
  cases stack with
  | nil => exact ⟨visits, rfl⟩
  | cons p stack =>
  obtain ⟨x, d⟩ := p
  obtain ⟨hp, hstack⟩ := forall_mem_cons.1 hstack
  obtain ⟨found, hfound, hfoundP⟩ := hnext x d hp
  rw [search] at h ⊢
  split at h
  · next hx =>
    rw [if_pos hx]
    exact ih hstack h
  next hx =>
  rw [hfound] at h
  rw [if_neg hx, hfound]
  exact ih (fun q hq => (mem_append.1 hq).elim
    (fun hq => hfoundP q (mem_reverse.1 hq)) (hstack q)) h

end Ends

/-! ## What is visited -/

section

variable (h : Visits next stack visits r)

include h

/-- Nothing visited is forgotten. -/
theorem Visits.subset : visits ⊆ r := by
  induction h with
  | done => exact fun _ hp => hp
  | again _ _ ih => exact ih
  | visit _ _ _ ih => exact fun p hp => ih (mem_cons_of_mem _ hp)

theorem Visits.subset_nodes {x : α} (hx : x ∈ nodes visits) : x ∈ nodes r :=
  map_subset _ h.subset hx

/-- A node on the stack is visited. -/
theorem Visits.visited {x : α} (hx : x ∈ nodes stack) : x ∈ nodes r := by
  induction h with
  | done => exact nomatch hx
  | again hmem h ih =>
    rcases mem_cons.1 hx with rfl | hx
    · exact h.subset_nodes hmem
    · exact ih hx
  | @visit y d found stack visits r _ _ h ih =>
  rcases mem_cons.1 hx with rfl | hx
  · exact h.subset_nodes mem_cons_self
  · exact ih (map_subset _ (subset_append_right _ _) hx)

/-- **Invariants of a walk.** -/
theorem Visits.invariant {P : α → δ → Prop}
    (hnext : ∀ x d found, P x d → next x d = .ok found → ∀ q ∈ found, P q.1 q.2)
    (hstack : ∀ q ∈ stack, P q.1 q.2) (hvisits : ∀ q ∈ visits, P q.1 q.2) :
    ∀ q ∈ r, P q.1 q.2 := by
  induction h with
  | done => exact hvisits
  | again _ _ ih => exact ih (forall_mem_cons.1 hstack).2 hvisits
  | @visit x d found stack visits r hx hfound _ ih =>
  obtain ⟨hxd, hstack⟩ := forall_mem_cons.1 hstack
  refine ih (fun q hq => ?_) (forall_mem_cons.2 ⟨hxd, hvisits⟩)
  rcases mem_append.1 hq with hq | hq
  · exact hnext x d found hxd hfound q (mem_reverse.1 hq)
  · exact hstack q hq

/-- **What a visited node puts on the stack is visited.** -/
theorem Visits.closed
    (hvisits : ∀ q ∈ visits, ∃ found, next q.1 q.2 = .ok found ∧
      ∀ y ∈ nodes found, y ∈ nodes stack ∨ y ∈ nodes visits) :
    ∀ q ∈ r, ∃ found, next q.1 q.2 = .ok found ∧ ∀ y ∈ nodes found, y ∈ nodes r := by
  induction h with
  | done visits =>
    intro q hq
    obtain ⟨found, hfound, hmem⟩ := hvisits q hq
    exact ⟨found, hfound, fun y hy => (hmem y hy).resolve_left not_mem_nil⟩
  | again hx _ ih =>
    refine ih fun q hq => ?_
    obtain ⟨found, hfound, hmem⟩ := hvisits q hq
    refine ⟨found, hfound, fun y hy => ?_⟩
    rcases hmem y hy with hy | hy
    · rcases mem_cons.1 hy with rfl | hy
      · exact .inr hx
      · exact .inl hy
    · exact .inr hy
  | @visit x d found stack visits r hx hfound _ ih =>
  refine ih (forall_mem_cons.2 ⟨⟨found, hfound, fun y hy => .inl ?_⟩, fun q hq => ?_⟩)
  · rw [nodes, map_append, map_reverse]
    exact mem_append_left _ (mem_reverse.2 hy)
  obtain ⟨found', hfound', hmem⟩ := hvisits q hq
  refine ⟨found', hfound', fun y hy => ?_⟩
  rcases hmem y hy with hy | hy
  · rcases mem_cons.1 hy with rfl | hy
    · exact .inr mem_cons_self
    · exact .inl (map_subset _ (subset_append_right _ _) hy)
  · exact .inr (mem_cons_of_mem _ hy)

/-- No node is visited twice. -/
theorem Visits.nodup (hvisits : (nodes visits).Nodup) : (nodes r).Nodup := by
  induction h with
  | done => exact hvisits
  | again _ _ ih => exact ih hvisits
  | visit hx _ _ ih => exact ih (nodup_cons.2 ⟨hx, hvisits⟩)

/-! ## Two walks -/

/-- A walk has one result. -/
theorem Visits.unique {r' : List (α × δ)} (h' : Visits next stack visits r') : r = r' := by
  induction h with
  | done =>
    cases h'
    rfl
  | again hx _ ih =>
    cases h' with
    | again _ h' => exact ih h'
    | visit hx' _ _ => exact absurd hx hx'
  | visit hx hfound _ ih =>
  cases h' with
  | again hx' _ => exact absurd hx' hx
  | visit _ hfound' h' =>
  rw [hfound] at hfound'
  cases hfound'
  exact ih h'

/-- **The walk over the nodes that `keep` picks.**  On them `next'` finds what `next` finds, and
from the others `next` finds none of them; only nodes with `R` come up. -/
theorem Visits.filter
    (next' : α → δ → Except ε (List (α × δ))) (keep : α → Bool) (R : α → Prop)
    (hnext : ∀ x d found, R x → next x d = .ok found → (∀ q ∈ found, R q.1) ∧
      if keep x then next' x d = .ok (found.filter (keep ·.1)) else found.filter (keep ·.1) = [])
    (hstack : ∀ q ∈ stack, R q.1) :
    Visits next' (stack.filter (keep ·.1)) (visits.filter (keep ·.1)) (r.filter (keep ·.1)) := by
  have hmem : ∀ (l : List (α × δ)) (x : α), keep x = true →
      (x ∈ nodes (l.filter (keep ·.1)) ↔ x ∈ nodes l) := by
    intro l x hx
    simp only [nodes, mem_map, mem_filter]
    constructor
    · rintro ⟨q, ⟨hq, -⟩, rfl⟩
      exact ⟨q, hq, rfl⟩
    · rintro ⟨q, hq, rfl⟩
      exact ⟨q, ⟨hq, hx⟩, rfl⟩
  induction h with
  | done => exact .done _
  | @again x d stack visits r hx _ ih =>
    have hrest := ih (forall_mem_cons.1 hstack).2
    by_cases hkeep : keep x = true
    · rw [filter_cons_of_pos (by exact hkeep)]
      exact .again ((hmem visits x hkeep).2 hx) hrest
    · rw [filter_cons_of_neg (by exact hkeep)]
      exact hrest
  | @visit x d found stack visits r hx hfound _ ih =>
  obtain ⟨hR, hstack⟩ := forall_mem_cons.1 hstack
  obtain ⟨hfoundR, hif⟩ := hnext x d found hR hfound
  have hrest := ih fun q hq => (mem_append.1 hq).elim
    (fun hq => hfoundR q (mem_reverse.1 hq)) (hstack q)
  rw [filter_append, filter_reverse] at hrest
  by_cases hkeep : keep x = true
  · rw [if_pos hkeep] at hif
    rw [filter_cons_of_pos (by exact hkeep)] at hrest ⊢
    exact .visit (fun hx' => hx ((hmem visits x hkeep).1 hx')) hif hrest
  rw [if_neg hkeep] at hif
  rw [hif, reverse_nil, nil_append, filter_cons_of_neg (by exact hkeep)] at hrest
  rw [filter_cons_of_neg (by exact hkeep)]
  exact hrest

end

end Skyr.DepthFirst
