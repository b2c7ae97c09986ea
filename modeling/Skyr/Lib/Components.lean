import Mathlib.Data.List.Nodup
import Mathlib.Order.MinMax

/-!
# Strongly connected components, by one depth-first search

Tarjan's algorithm over a finite graph, given by the list of successors of each node.  A node gets a
number when it is entered and is put on a stack.  `lowlink` is the least number on the stack that is
known to be reachable through the nodes entered since.  A node that has been left with its own
number as the least one is the last of its component on the stack, and the component is popped.

While the search runs, some nodes are being worked on: they have been entered and not yet left.
`Sound` is the invariant, in terms of these: nodes on the stack reach each other in the order in
which they were entered, each of them reaches one that is being worked on, and what has been popped
are components, each closed under edges up to the ones popped before.
-/

namespace Skyr.Tarjan

open List

variable {V : Type}

/-! ## The algorithm -/

/-- The state of a search.  The stack has its top first, and the components are in the order in
which they were popped. -/
structure Search (V : Type) where
  indexCounter : ℕ
  stack : List V
  index : V → Option ℕ
  lowlink : V → ℕ
  result : List (List V)

namespace Search

variable [DecidableEq V]

def start : Search V := ⟨0, [], fun _ => none, fun _ => 0, []⟩

/-- Give a node its number and put it on the stack. -/
def enter (s : Search V) (v : V) : Search V :=
  ⟨s.indexCounter + 1, v :: s.stack, Function.update s.index v (some s.indexCounter),
    Function.update s.lowlink v s.indexCounter, s.result⟩

def lower (s : Search V) (v : V) (i : ℕ) : Search V :=
  ⟨s.indexCounter, s.stack, s.index, Function.update s.lowlink v (min (s.lowlink v) i), s.result⟩

/-- The part of a stack down to a node, and the rest. -/
def popTo (v : V) : List V → List V × List V
  | [] => ([], [])
  | w :: ws => if w = v then ([w], ws) else (w :: (popTo v ws).1, (popTo v ws).2)

/-- Pop a component if the node is the last of its component on the stack. -/
def leave (s : Search V) (v : V) : Search V :=
  if s.index v = some (s.lowlink v) then
    ⟨s.indexCounter, (popTo v s.stack).2, s.index, s.lowlink, s.result ++ [(popTo v s.stack).1]⟩
  else s

/-- Look at the successors of `v` in turn; `rec` enters a node. -/
def scan (rec : V → Search V → Search V) (v : V) : List V → Search V → Search V
  | [], s => s
  | w :: ws, s =>
    scan rec v ws <|
      match s.index w with
      | none => (rec w s).lower v ((rec w s).lowlink w)
      | some i => if w ∈ s.stack then s.lower v i else s

end Search

section

variable [DecidableEq V] (adj : V → List V)

/-- Enter a node, with nodes entered from it to a depth of at most `n`. -/
def strongconnect : ℕ → V → Search V → Search V
  | 0, _, s => s
  | n + 1, v, s => (Search.scan (strongconnect n) v (adj v) (s.enter v)).leave v

/-- The search from each of some nodes that has not been entered by then. -/
def search (n : ℕ) : List V → Search V → Search V
  | [], s => s
  | v :: vs, s => search n vs (if s.index v = none then strongconnect adj n v s else s)

/-- The components of a graph. -/
def components (nodes : List V) : List (List V) :=
  (search adj nodes.length nodes .start).result

end

/-! ## The invariant

The invariant says how the nodes on the stack reach each other, and that what was popped is closed.
It is stated for the three things the search does: entering a node, looking at one that is known,
and leaving. -/

variable (adj : V → List V)

/-- There is a path. -/
abbrev Reach (v w : V) : Prop := Relation.ReflTransGen (fun a b => b ∈ adj a) v w

namespace Search

/-- The number of a node that was entered. -/
def num (s : Search V) (v : V) : ℕ := (s.index v).getD 0

theorem num_eq {s : Search V} {v : V} {i : ℕ} (h : s.index v = some i) : s.num v = i := by
  rw [num, h, Option.getD_some]

end Search

variable {adj}

/-- The invariant; `gray` are the nodes that are being worked on, the last one first. -/
structure Sound (adj : V → List V) (gray : List V) (s : Search V) : Prop where
  nodup : (s.stack ++ s.result.flatten).Nodup
  visited : ∀ v, s.index v ≠ none ↔ v ∈ s.stack ∨ v ∈ s.result.flatten
  index_lt : ∀ v i, s.index v = some i → i < s.indexCounter
  sorted : s.stack.Pairwise fun a b => s.num b < s.num a
  gray_stack : ∀ v ∈ gray, v ∈ s.stack
  gray_sorted : gray.Pairwise fun a b => s.num b < s.num a
  popped_closed : ∀ v ∈ s.result.flatten, ∀ w ∈ adj v, w ∈ s.result.flatten
  left_closed : ∀ v ∈ s.stack, v ∉ gray → ∀ w ∈ adj v, s.index w ≠ none
  back : ∀ v ∈ s.stack, ∃ x ∈ gray, s.num x ≤ s.num v ∧ Reach adj v x
  forth : ∀ v ∈ s.stack, ∀ w ∈ s.stack, s.num v ≤ s.num w → Reach adj v w
  nonempty : ∀ c ∈ s.result, c ≠ []
  component : ∀ c ∈ s.result, ∀ x ∈ c, ∀ y, y ∈ c ↔ Reach adj x y ∧ Reach adj y x
  order : ∀ before c after, s.result = before ++ c :: after → ∀ x ∈ c, ∀ w ∈ adj x,
    w ∈ c ∨ w ∈ before.flatten

/-- A list with one more element at its end, split at an element. -/
theorem split_concat {l before after : List (List V)} {c c' : List V}
    (h : l ++ [c] = before ++ c' :: after) :
    before = l ∧ c' = c ∨ ∃ after', l = before ++ c' :: after' := by
  rcases eq_nil_or_concat after with rfl | ⟨after', last, rfl⟩
  · obtain ⟨hl, hc⟩ := append_inj' h rfl
    cases hc
    exact .inl ⟨hl.symm, rfl⟩
  · rw [concat_eq_append, ← cons_append, ← append_assoc] at h
    exact .inr ⟨after', (append_inj' h rfl).1⟩

namespace Sound

variable {gray : List V} {s : Search V} {v : V}

theorem start : Sound adj [] (Search.start : Search V) where
  nodup := nodup_nil
  visited _ := ⟨fun h => absurd rfl h, fun h => by cases h <;> contradiction⟩
  index_lt _ _ h := nomatch h
  sorted := .nil
  gray_stack := nofun
  gray_sorted := .nil
  popped_closed := nofun
  left_closed := nofun
  back := nofun
  forth := nofun
  nonempty := nofun
  component := nofun
  order before c after h := by cases before <;> exact nomatch h

/-- What can be reached from what was popped was popped. -/
theorem popped_reach (h : Sound adj gray s) {x y : V} (hx : x ∈ s.result.flatten)
    (hxy : Reach adj x y) : y ∈ s.result.flatten := by
  induction hxy with
  | refl => exact hx
  | tail _ hedge ih => exact h.popped_closed _ ih _ hedge

theorem stack_index (h : Sound adj gray s) (hv : v ∈ s.stack) :
    s.index v = some (s.num v) := by
  cases hi : s.index v with
  | none => exact absurd hi ((h.visited v).2 (.inl hv))
  | some i => rw [Search.num_eq hi]

theorem stack_lt (h : Sound adj gray s) (hv : v ∈ s.stack) : s.num v < s.indexCounter :=
  h.index_lt v _ (h.stack_index hv)

/-- A node that is neither new nor popped reaches the node that is being worked on last. -/
theorem reach_top {u : V} (h : Sound adj (u :: gray) s) (hv : v ∈ s.stack) :
    Reach adj v u := by
  obtain ⟨x, hx, -, hreach⟩ := h.back v hv
  have hu := h.gray_stack u mem_cons_self
  have hle : s.num x ≤ s.num u := by
    rcases mem_cons.1 hx with rfl | hx'
    · exact le_refl _
    · exact ((pairwise_cons.1 h.gray_sorted).1 x hx').le
  exact hreach.trans (h.forth x (h.gray_stack x hx) u hu hle)

variable [DecidableEq V]

theorem index_enter_self (s : Search V) (v : V) : (s.enter v).index v = some s.indexCounter :=
  Function.update_self ..

theorem index_enter_ne (s : Search V) {v w : V} (h : w ≠ v) : (s.enter v).index w = s.index w :=
  Function.update_of_ne h ..

theorem num_enter_self (s : Search V) (v : V) : (s.enter v).num v = s.indexCounter :=
  Search.num_eq (index_enter_self s v)

theorem num_enter_ne (s : Search V) {v w : V} (h : w ≠ v) : (s.enter v).num w = s.num w := by
  rw [Search.num, index_enter_ne s h, Search.num]

/-- Entering a node, from the one that is being worked on or from nowhere. -/
theorem enter (h : Sound adj gray s) (hv : s.index v = none)
    (hgray : ∀ u ∈ gray.head?, v ∈ adj u) :
    Sound adj (v :: gray) (s.enter v) := by
  have hnew : ∀ w, w ∈ s.stack ∨ w ∈ s.result.flatten → w ≠ v := by
    rintro w hw rfl
    exact (h.visited w).2 hw hv
  have hnum : ∀ w ∈ s.stack, (s.enter v).num w = s.num w := fun w hw =>
    num_enter_ne s (hnew w (.inl hw))
  have hlt : ∀ w ∈ s.stack, (s.enter v).num w < (s.enter v).num v := by
    intro w hw
    rw [hnum w hw, num_enter_self]
    exact h.stack_lt hw
  refine ⟨?_, fun w => ?_, fun w i hi => ?_, ?_, ?_, ?_, h.popped_closed, ?_, ?_, ?_, h.nonempty,
    h.component, h.order⟩
  · refine nodup_cons.2 ⟨fun hmem => ?_, h.nodup⟩
    exact hnew v (mem_append.1 hmem) rfl
  · by_cases hw : w = v
    · subst hw
      rw [index_enter_self]
      exact ⟨fun _ => .inl mem_cons_self, fun _ => nofun⟩
    · rw [index_enter_ne s hw, h.visited w]
      simp [Search.enter, hw]
  · by_cases hw : w = v
    · subst hw
      rw [index_enter_self] at hi
      cases hi
      exact Nat.lt_succ_self _
    · rw [index_enter_ne s hw] at hi
      exact (h.index_lt w i hi).trans (Nat.lt_succ_self _)
  · refine pairwise_cons.2 ⟨hlt, h.sorted.imp_of_mem fun ha hb hab => ?_⟩
    rw [hnum _ ha, hnum _ hb]
    exact hab
  · exact forall_mem_cons.2 ⟨mem_cons_self, fun w hw =>
      mem_cons_of_mem _ (h.gray_stack w hw)⟩
  · refine pairwise_cons.2 ⟨fun w hw => hlt w (h.gray_stack w hw),
      h.gray_sorted.imp_of_mem fun ha hb hab => ?_⟩
    rw [hnum _ (h.gray_stack _ ha), hnum _ (h.gray_stack _ hb)]
    exact hab
  · intro w hw hgray' x hx
    rcases mem_cons.1 hw with rfl | hw
    · exact absurd mem_cons_self hgray'
    by_cases hxv : x = v
    · subst hxv
      rw [index_enter_self]
      exact nofun
    · rw [index_enter_ne s hxv]
      exact h.left_closed w hw (fun hmem => hgray' (mem_cons_of_mem _ hmem)) x hx
  · intro w hw
    rcases mem_cons.1 hw with rfl | hw
    · exact ⟨w, mem_cons_self, le_refl _, .refl⟩
    obtain ⟨x, hx, hle, hreach⟩ := h.back w hw
    refine ⟨x, mem_cons_of_mem _ hx, ?_, hreach⟩
    rw [hnum w hw, hnum x (h.gray_stack x hx)]
    exact hle
  · intro w hw x hx hle
    rcases mem_cons.1 hx with rfl | hx
    · rcases mem_cons.1 hw with hw | hw
      · rw [hw]
      -- an older node reaches the one that is being worked on, and that one has an edge here
      cases gray with
      | nil =>
        obtain ⟨y, hy, -⟩ := h.back w hw
        exact nomatch hy
      | cons u gray => exact (h.reach_top hw).tail (hgray u rfl)
    rcases mem_cons.1 hw with hw | hw
    · rw [hw] at hle
      exact absurd hle (not_le.2 (hlt x hx))
    · rw [hnum w hw, hnum x hx] at hle
      exact h.forth w hw x hx hle

omit [DecidableEq V] in
/-- Leaving a node that reaches one further down on the stack. -/
theorem leave_open (h : Sound adj (v :: gray) s) (hadj : ∀ w ∈ adj v, s.index w ≠ none)
    {z : V} (hz : z ∈ s.stack) (hreach : Reach adj v z) (hlt : s.num z < s.num v) :
    Sound adj gray s := by
  refine { h with
    gray_stack := fun w hw => h.gray_stack w (mem_cons_of_mem _ hw)
    gray_sorted := (pairwise_cons.1 h.gray_sorted).2
    left_closed := fun w hw hgray => ?_
    back := fun w hw => ?_ }
  · by_cases hwv : w = v
    · subst hwv
      exact hadj
    · exact h.left_closed w hw fun hmem => (mem_cons.1 hmem).elim hwv hgray
  obtain ⟨x, hx, hle, hwx⟩ := h.back w hw
  rcases mem_cons.1 hx with rfl | hx
  · obtain ⟨y, hy, hyz, hzy⟩ := h.back z hz
    rcases mem_cons.1 hy with rfl | hy
    · exact absurd hyz (not_le.2 hlt)
    · exact ⟨y, hy, hyz.trans (hlt.le.trans hle), hwx.trans (hreach.trans hzy)⟩
  · exact ⟨x, hx, hle, hwx⟩

/-- Leaving a node that reaches nothing further down on the stack: what is on the stack down to it
is its component. -/
theorem leave_closed {segment rest : List V} (h : Sound adj (v :: gray) s)
    (hadj : ∀ w ∈ adj v, s.index w ≠ none) (hstack : s.stack = segment ++ v :: rest)
    (hlow : ∀ y ∈ s.stack, s.num v ≤ s.num y → ∀ w ∈ adj y, w ∈ s.stack → s.num v ≤ s.num w) :
    Sound adj gray
      ⟨s.indexCounter, rest, s.index, s.lowlink, s.result ++ [segment ++ [v]]⟩ := by
  have hsorted := h.sorted
  rw [hstack, pairwise_append, pairwise_cons] at hsorted
  obtain ⟨-, ⟨hrest, hrestSorted⟩, hsegment⟩ := hsorted
  -- the popped part is what has a number at least that of the node
  have hmem : ∀ y, y ∈ segment ++ [v] ↔ y ∈ s.stack ∧ s.num v ≤ s.num y := by
    intro y
    rw [hstack]
    constructor
    · intro hy
      rcases mem_append.1 hy with hy | hy
      · exact ⟨mem_append_left _ hy, (hsegment y hy v mem_cons_self).le⟩
      · rw [mem_singleton.1 hy]
        exact ⟨mem_append_right _ mem_cons_self, le_refl _⟩
    rintro ⟨hy, hle⟩
    rcases mem_append.1 hy with hy | hy
    · exact mem_append_left _ hy
    rcases mem_cons.1 hy with rfl | hy
    · exact mem_append_right _ (mem_singleton_self y)
    · exact absurd hle (not_le.2 (hrest y hy))
  have hrestStack : ∀ y ∈ rest, y ∈ s.stack := fun y hy =>
    hstack ▸ mem_append_right _ (mem_cons_of_mem _ hy)
  have hdisjoint : ∀ y ∈ s.stack, y ∉ s.result.flatten := fun y hy hy' =>
    (nodup_append.1 h.nodup).2.2 y hy y hy' rfl
  have hgray : ∀ x ∈ gray, s.num x < s.num v := (pairwise_cons.1 h.gray_sorted).1
  have hedge : ∀ y ∈ segment ++ [v], ∀ w ∈ adj y, w ∈ segment ++ [v] ∨ w ∈ s.result.flatten := by
    intro y hy w hw
    obtain ⟨hy, hle⟩ := (hmem y).1 hy
    have hvisited : s.index w ≠ none := by
      by_cases hyv : y = v
      · exact hadj w (hyv ▸ hw)
      refine h.left_closed y hy (fun hmem' => ?_) w hw
      rcases mem_cons.1 hmem' with hmem' | hmem'
      · exact hyv hmem'
      · exact absurd hle (not_le.2 (hgray y hmem'))
    exact ((h.visited w).1 hvisited).imp_left fun hw' => (hmem w).2 ⟨hw', hlow y hy hle w hw hw'⟩
  have hreach : ∀ y ∈ segment ++ [v], ∀ w, Reach adj y w →
      w ∈ segment ++ [v] ∨ w ∈ s.result.flatten := by
    intro y hy w hyw
    induction hyw with
    | refl => exact .inl hy
    | tail _ hw ih =>
    rcases ih with ih | ih
    · exact hedge _ ih _ hw
    · exact .inr (h.popped_closed _ ih _ hw)
  have hv := h.gray_stack v mem_cons_self
  have hfrom : ∀ y ∈ segment ++ [v], Reach adj v y := fun y hy =>
    h.forth v hv y ((hmem y).1 hy).1 ((hmem y).1 hy).2
  have hto : ∀ y ∈ segment ++ [v], Reach adj y v := by
    intro y hy
    obtain ⟨x, hx, -, hyx⟩ := h.back y ((hmem y).1 hy).1
    rcases mem_cons.1 hx with rfl | hx'
    · exact hyx
    rcases hreach y hy x hyx with hx'' | hx''
    · exact absurd ((hmem x).1 hx'').2 (not_le.2 (hgray x hx'))
    · exact absurd hx'' (hdisjoint x (h.gray_stack x hx))
  have hflatten :
      (s.result ++ [segment ++ [v]]).flatten = s.result.flatten ++ (segment ++ [v]) := by
    rw [flatten_append, flatten_singleton]
  have hstackPerm : ((segment ++ [v]) ++ rest ++ s.result.flatten).Nodup := by
    have := h.nodup
    rwa [hstack, append_cons segment v rest] at this
  refine ⟨?_, fun w => ?_, h.index_lt, hrestSorted, fun w hw => ?_,
    (pairwise_cons.1 h.gray_sorted).2, fun w hw x hx => ?_, fun w hw hgray' => ?_, fun w hw => ?_,
    fun w hw x hx => h.forth w (hrestStack w hw) x (hrestStack x hx), fun c hc => ?_,
    fun c hc => ?_, fun before c after hsplit => ?_⟩
  · rw [hflatten, ← append_assoc]
    rw [append_assoc] at hstackPerm
    exact (perm_append_comm.nodup_iff).1 hstackPerm
  · rw [hflatten, mem_append, h.visited w, hstack, append_cons segment v rest, mem_append]
    tauto
  · have hw' := h.gray_stack w (mem_cons_of_mem _ hw)
    rw [hstack, append_cons, mem_append] at hw'
    refine hw'.resolve_left fun hmem' => ?_
    exact absurd ((hmem w).1 hmem').2 (not_le.2 (hgray w hw))
  · rw [hflatten, mem_append] at hw ⊢
    rcases hw with hw | hw
    · exact .inl (h.popped_closed w hw x hx)
    · exact (hedge w hw x hx).symm
  · refine h.left_closed w (hrestStack w hw) fun hmem' => ?_
    rcases mem_cons.1 hmem' with rfl | hmem'
    · exact absurd (hrest w hw) (lt_irrefl _)
    · exact hgray' hmem'
  · obtain ⟨x, hx, hle, hwx⟩ := h.back w (hrestStack w hw)
    rcases mem_cons.1 hx with rfl | hx
    · exact absurd hle (not_le.2 (hrest w hw))
    · exact ⟨x, hx, hle, hwx⟩
  · rcases mem_append.1 hc with hc | hc
    · exact h.nonempty c hc
    · rw [mem_singleton.1 hc]
      exact append_ne_nil_of_right_ne_nil _ (cons_ne_nil v [])
  · rcases mem_append.1 hc with hc | hc
    · exact h.component c hc
    rw [mem_singleton.1 hc]
    intro x hx y
    refine ⟨fun hy => ⟨(hto x hx).trans (hfrom y hy), (hto y hy).trans (hfrom x hx)⟩, ?_⟩
    rintro ⟨hxy, hyx⟩
    refine (hreach x hx y hxy).resolve_right fun hy => ?_
    exact hdisjoint x ((hmem x).1 hx).1 (h.popped_reach hy hyx)
  · rcases split_concat hsplit with ⟨rfl, rfl⟩ | ⟨after', hsplit⟩
    · exact hedge
    · exact h.order before c after' hsplit

/-- Popping down to a node. -/
theorem popTo_append {segment rest : List V} (h : v ∉ segment) :
    Search.popTo v (segment ++ v :: rest) = (segment ++ [v], rest) := by
  induction segment with
  | nil => exact if_pos rfl
  | cons w segment ih =>
  rw [mem_cons, not_or] at h
  rw [cons_append, Search.popTo, if_neg (Ne.symm h.1), ih h.2]
  rfl

/-- The invariant does not speak of `lowlink`. -/
theorem lower (h : Sound adj gray s) (i : ℕ) : Sound adj gray (s.lower v i) :=
  { h with }
end Sound

/-! ## What a part of the search does -/

/-- What a search keeps: numbers that were given, what was on the stack, and the `lowlink` of the
nodes in `kept`. -/
structure Extends (kept : V → Prop) (s s' : Search V) : Prop where
  counter : s.indexCounter ≤ s'.indexCounter
  index : ∀ x i, s.index x = some i → s'.index x = some i
  stack : ∃ new, s'.stack = new ++ s.stack ∧ ∀ y ∈ new, s.indexCounter ≤ s'.num y
  lowlink : ∀ x, kept x → s'.lowlink x = s.lowlink x

namespace Extends

variable {kept kept' : V → Prop} {s s' s'' : Search V}

theorem refl : Extends kept s s := ⟨le_refl _, fun _ _ h => h, ⟨[], rfl, nofun⟩, fun _ _ => rfl⟩

theorem num (h : Extends kept s s') {x : V} (hx : s.index x ≠ none) : s'.num x = s.num x := by
  cases hi : s.index x with
  | none => exact absurd hi hx
  | some i => rw [Search.num_eq hi, Search.num_eq (h.index x i hi)]

theorem visited (h : Extends kept s s') {x : V} (hx : s.index x ≠ none) : s'.index x ≠ none := by
  cases hi : s.index x with
  | none => exact absurd hi hx
  | some i =>
  rw [h.index x i hi]
  exact nofun

theorem trans (h : Extends kept s s') (h' : Extends kept' s' s'') (hkept : ∀ x, kept x → kept' x)
    (hstack : ∀ y ∈ s'.stack, s'.index y ≠ none) : Extends kept s s'' := by
  obtain ⟨new, hnew, hnum⟩ := h.stack
  obtain ⟨new', hnew', hnum'⟩ := h'.stack
  refine ⟨h.counter.trans h'.counter, fun x i hi => h'.index x i (h.index x i hi),
    ⟨new' ++ new, by rw [hnew', hnew, append_assoc], fun y hy => ?_⟩,
    fun x hx => (h'.lowlink x (hkept x hx)).trans (h.lowlink x hx)⟩
  rcases mem_append.1 hy with hy | hy
  · exact h.counter.trans (hnum' y hy)
  have hy' : y ∈ s'.stack := hnew ▸ mem_append_left _ hy
  rw [h'.num (hstack y hy')]
  exact hnum y hy

end Extends

/-- What entering a node comes to, when it has been left again. -/
structure Entered (adj : V → List V) (gray : List V) (v : V)
    (s s' : Search V) : Prop where
  sound : Sound adj gray s'
  extends_ : Extends (fun x => s.index x ≠ none) s s'
  visited : s'.index v ≠ none
  low : (∃ z ∈ s'.stack, s'.num z = s'.lowlink v ∧ Reach adj v z) ∨ s.indexCounter ≤ s'.lowlink v
  low_edge : ∀ y ∈ s'.stack, y ∉ s.stack → ∀ w ∈ adj y, w ∈ s.stack → s'.lowlink v ≤ s.num w

/-- While the successors of `v` are looked at; `seen` are those that have been. -/
structure Scanning (adj : V → List V) (gray : List V) (v : V)
    (seen : List V) (s : Search V) : Prop where
  sound : Sound adj (v :: gray) s
  seen_visited : ∀ w ∈ seen, s.index w ≠ none
  low_le : s.lowlink v ≤ s.num v
  low_reach : ∃ z ∈ s.stack, s.num z = s.lowlink v ∧ Reach adj v z
  low_edge : ∀ y ∈ s.stack, s.num v ≤ s.num y → ∀ w ∈ adj y, w ∈ s.stack → (y = v → w ∈ seen) →
    s.lowlink v ≤ s.num w

variable [DecidableEq V] {gray : List V} {s s' : Search V} {v w : V}
  {seen : List V}

theorem lowlink_lower_self (s : Search V) (v : V) (i : ℕ) :
    (s.lower v i).lowlink v = min (s.lowlink v) i :=
  Function.update_self ..

theorem lowlink_lower_ne (s : Search V) {v w : V} (h : w ≠ v) (i : ℕ) :
    (s.lower v i).lowlink w = s.lowlink w :=
  Function.update_of_ne h ..

namespace Scanning

omit [DecidableEq V] in
theorem stack_self (h : Scanning adj gray v seen s) : v ∈ s.stack :=
  h.sound.gray_stack v mem_cons_self

/-- When nothing has been looked at. -/
theorem enter (h : Sound adj gray s) (hv : s.index v = none)
    (hgray : ∀ u ∈ gray.head?, v ∈ adj u) :
    Scanning adj gray v [] (s.enter v) := by
  have hsound := h.enter hv hgray
  have hlow : (s.enter v).lowlink v = (s.enter v).num v := by
    rw [Sound.num_enter_self]
    exact Function.update_self ..
  refine ⟨hsound, nofun, hlow.le, ⟨v, mem_cons_self, hlow.symm, .refl⟩, ?_⟩
  intro y hy hle w hw _ hseen
  -- only `v` has a number as high as that of `v`
  have hyv : y = v := by
    rcases mem_cons.1 hy with hy | hy
    · exact hy
    · exact absurd hle (not_le.2 ((pairwise_cons.1 hsound.sorted).1 y hy))
  exact nomatch hseen hyv

omit [DecidableEq V] in
theorem popped (h : Scanning adj gray v seen s) (hw : s.index w ≠ none)
    (hstack : w ∉ s.stack) : Scanning adj gray v (seen ++ [w]) s := by
  refine ⟨h.sound, fun x hx => ?_, h.low_le, h.low_reach, fun y hy hle x hx hx' hseen => ?_⟩
  · rcases mem_append.1 hx with hx | hx
    · exact h.seen_visited x hx
    · rw [mem_singleton.1 hx]
      exact hw
  refine h.low_edge y hy hle x hx hx' fun hyv => ?_
  refine (mem_append.1 (hseen hyv)).resolve_right fun hxw => ?_
  exact hstack (mem_singleton.1 hxw ▸ hx')

theorem onStack (h : Scanning adj gray v seen s) (hedge : w ∈ adj v) (hstack : w ∈ s.stack) :
    Scanning adj gray v (seen ++ [w]) (s.lower v (s.num w)) := by
  obtain ⟨z, hz, hzlow, hreach⟩ := h.low_reach
  refine ⟨h.sound.lower _, fun x hx => ?_, ?_, ?_, fun y hy hle x hx hx' hseen => ?_⟩
  · rcases mem_append.1 hx with hx | hx
    · exact h.seen_visited x hx
    · rw [mem_singleton.1 hx]
      exact (h.sound.visited w).2 (.inl hstack)
  · rw [lowlink_lower_self]
    exact (min_le_left _ _).trans h.low_le
  · rw [lowlink_lower_self]
    rcases le_total (s.lowlink v) (s.num w) with hle | hle
    · rw [min_eq_left hle]
      exact ⟨z, hz, hzlow, hreach⟩
    · rw [min_eq_right hle]
      exact ⟨w, hstack, rfl, .single hedge⟩
  rw [lowlink_lower_self]
  by_cases hxw : x = w
  · rw [hxw]
    exact min_le_right _ _
  · refine (min_le_left _ _).trans (h.low_edge y hy hle x hx hx' fun hyv => ?_)
    exact (mem_append.1 (hseen hyv)).resolve_right fun hmem => hxw (mem_singleton.1 hmem)

theorem entered (h : Scanning adj gray v seen s) (hedge : w ∈ adj v) (hw : s.index w = none)
    (hentered : Entered adj (v :: gray) w s s') :
    Scanning adj gray v (seen ++ [w]) (s'.lower v (s'.lowlink w)) := by
  have hvisited : s.index v ≠ none := (h.sound.visited v).2 (.inl h.stack_self)
  have hnum : ∀ x ∈ s.stack, s'.num x = s.num x := fun x hx =>
    hentered.extends_.num ((h.sound.visited x).2 (.inl hx))
  have hlowlink : s'.lowlink v = s.lowlink v := hentered.extends_.lowlink v hvisited
  have hlt : s.num v < s.indexCounter := h.sound.stack_lt h.stack_self
  obtain ⟨new, hnew, hnewNum⟩ := hentered.extends_.stack
  have hold : ∀ x ∈ s.stack, x ∈ s'.stack := fun x hx => hnew ▸ mem_append_right _ hx
  have hhigh : ∀ x ∈ s'.stack, x ∉ s.stack → s.indexCounter ≤ s'.num x := by
    intro x hx hx'
    rw [hnew] at hx
    exact hnewNum x ((mem_append.1 hx).resolve_right hx')
  refine ⟨hentered.sound.lower _, fun x hx => ?_, ?_, ?_, fun y hy hle x hx hx' hseen => ?_⟩
  · rcases mem_append.1 hx with hx | hx
    · exact hentered.extends_.visited (h.seen_visited x hx)
    · rw [mem_singleton.1 hx]
      exact hentered.visited
  · rw [lowlink_lower_self, hlowlink]
    refine (min_le_left _ _).trans ?_
    exact h.low_le.trans (hnum v h.stack_self).ge
  · rw [lowlink_lower_self, hlowlink]
    obtain ⟨z, hz, hzlow, hreach⟩ := h.low_reach
    have hsame : ∃ z ∈ s'.stack, s'.num z = s.lowlink v ∧ Reach adj v z :=
      ⟨z, hold z hz, (hnum z hz).trans hzlow, hreach⟩
    rcases le_total (s.lowlink v) (s'.lowlink w) with hle | hle
    · rw [min_eq_left hle]
      exact hsame
    rcases hentered.low with ⟨z', hz', hz'low, hreach'⟩ | hlow
    · rw [min_eq_right hle]
      exact ⟨z', hz', hz'low, .head hedge hreach'⟩
    · rw [min_eq_left (h.low_le.trans (hlt.le.trans hlow))]
      exact hsame
  change s'.num v ≤ s'.num y at hle
  change (s'.lower v (s'.lowlink w)).lowlink v ≤ s'.num x
  rw [lowlink_lower_self, hlowlink]
  by_cases hxold : x ∈ s.stack
  · by_cases hyold : y ∈ s.stack
    · rw [hnum v h.stack_self, hnum y hyold] at hle
      refine (min_le_left _ _).trans ?_
      rw [hnum x hxold]
      refine h.low_edge y hyold hle x hx hxold fun hyv => ?_
      refine (mem_append.1 (hseen hyv)).resolve_right fun hmem => ?_
      rw [mem_singleton.1 hmem] at hxold
      exact (h.sound.visited w).2 (.inl hxold) hw
    refine (min_le_right _ _).trans ?_
    rw [hnum x hxold]
    exact hentered.low_edge y hy hyold x hx hxold
  · exact (min_le_left _ _).trans (h.low_le.trans (hlt.le.trans (hhigh x hx' hxold)))

end Scanning

namespace Extends

/-- Entering a node. -/
theorem enter (hv : s.index v = none) : Extends (fun x => s.index x ≠ none) s (s.enter v) := by
  have hne : ∀ x, s.index x ≠ none → x ≠ v := by
    rintro x hx rfl
    exact hx hv
  refine ⟨Nat.le_succ _, fun x i hi => ?_, ⟨[v], rfl, fun y hy => ?_⟩, fun x hx => ?_⟩
  · rw [Sound.index_enter_ne s (hne x (by rw [hi]; exact nofun)), hi]
  · rw [mem_singleton.1 hy, Sound.num_enter_self]
  · exact Function.update_of_ne (hne x hx) ..

/-- Lowering the `lowlink` of a node. -/
theorem lower {kept : V → Prop} (h : Extends kept s s') (i : ℕ) :
    Extends (fun x => kept x ∧ x ≠ v) s (s'.lower v i) :=
  ⟨h.counter, h.index, h.stack, fun x hx =>
    (lowlink_lower_ne s' hx.2 i).trans (h.lowlink x hx.1)⟩

end Extends

/-! ## The whole search

The recursion is on the nodes that have not been entered yet, of which there are fewer at each
call. -/

/-- The nodes that have not been entered. -/
def unvisited (nodes : List V) (s : Search V) : ℕ := (nodes.filter fun x => s.index x = none).length

variable {nodes : List V} {n : ℕ}

omit [DecidableEq V] in
theorem Extends.filter_sublist {kept : V → Prop} (h : Extends kept s s') (nodes : List V) :
    (nodes.filter fun x => s'.index x = none).Sublist (nodes.filter fun x => s.index x = none) := by
  refine monotone_filter_right nodes fun x hx => ?_
  have hx : s'.index x = none := of_decide_eq_true hx
  refine decide_eq_true ?_
  by_contra hne
  exact h.visited hne hx

omit [DecidableEq V] in
theorem Extends.unvisited {kept : V → Prop} (h : Extends kept s s') :
    unvisited nodes s' ≤ unvisited nodes s :=
  (h.filter_sublist nodes).length_le

theorem unvisited_enter (hmem : v ∈ nodes) (hv : s.index v = none) :
    unvisited nodes (s.enter v) < unvisited nodes s := by
  have hsub := (Extends.enter hv).filter_sublist nodes
  refine lt_of_le_of_ne hsub.length_le fun hlen => ?_
  have hv' : v ∈ nodes.filter fun x => s.index x = none := mem_filter.2 ⟨hmem, decide_eq_true hv⟩
  rw [← hsub.eq_of_length hlen, mem_filter, Sound.index_enter_self] at hv'
  exact nomatch of_decide_eq_true hv'.2

/-- Looking at the successors of a node, where `rec` enters a node as it should. -/
theorem scan_spec {rec : V → Search V → Search V}
    (hrec : ∀ w s, Sound adj (v :: gray) s → w ∈ adj v → s.index w = none →
      unvisited nodes s ≤ n →
      Entered adj (v :: gray) w s (rec w s)) (rest : List V)
    (hadj : adj v = seen ++ rest) (h : Scanning adj gray v seen s)
    (hfuel : unvisited nodes s ≤ n) :
    Scanning adj gray v (adj v) (Search.scan rec v rest s) ∧
      Extends (fun x => s.index x ≠ none ∧ x ≠ v) s (Search.scan rec v rest s) := by
  induction rest generalizing seen s with
  | nil =>
    rw [hadj, append_nil]
    exact ⟨h, .refl⟩
  | cons w rest ih =>
  have hedge : w ∈ adj v := hadj ▸ mem_append_right _ mem_cons_self
  have hadj' : adj v = (seen ++ [w]) ++ rest := by rw [hadj, append_assoc]; rfl
  -- whatever is done about `w`, the rest follows by induction
  obtain ⟨s', hs', hscan, hext⟩ : ∃ s', Search.scan rec v (w :: rest) s =
      Search.scan rec v rest s' ∧ Scanning adj gray v (seen ++ [w]) s' ∧
      Extends (fun x => s.index x ≠ none ∧ x ≠ v) s s' := by
    cases hw : s.index w with
    | none =>
      have hentered := hrec w s h.sound hedge hw hfuel
      refine ⟨_, ?_, h.entered hedge hw hentered, hentered.extends_.lower _⟩
      rw [Search.scan, hw]
    | some i =>
    by_cases hstack : w ∈ s.stack
    · refine ⟨_, ?_, h.onStack hedge hstack, ?_⟩
      · rw [Search.scan, hw]
        simp only [hstack, if_true, Search.num_eq hw]
      · have hrefl : Extends (fun x => s.index x ≠ none) s s := .refl
        exact hrefl.lower _
    refine ⟨s, ?_, h.popped (by rw [hw]; exact nofun) hstack, .refl⟩
    rw [Search.scan, hw]
    simp only [hstack, if_false]
  rw [hs']
  obtain ⟨hdone, hext'⟩ := ih hadj' hscan (hext.unvisited.trans hfuel)
  refine ⟨hdone, hext.trans hext' (fun x hx => ⟨hext.visited hx.1, hx.2⟩) fun y hy => ?_⟩
  exact (hscan.sound.visited y).2 (.inl hy)

/-- Leaving a node, after its successors have been looked at. -/
theorem Scanning.leave {s₁ : Search V} (hscan : Scanning adj gray v (adj v) s₁)
    (hsound : Sound adj gray s) (hv : s.index v = none)
    (hext : Extends (fun x => (s.enter v).index x ≠ none ∧ x ≠ v) (s.enter v) s₁) :
    Entered adj gray v s (s₁.leave v) := by
  have hindex : s₁.index v = some (s₁.num v) := hscan.sound.stack_index hscan.stack_self
  have hnum : s₁.num v = s.indexCounter := by
    rw [hext.num (by rw [Sound.index_enter_self]; exact nofun), Sound.num_enter_self]
  have hext' : Extends (fun x => s.index x ≠ none) s s₁ := by
    refine (Extends.enter hv).trans hext (fun x hx => ?_) fun y hy => ?_
    · refine ⟨(Extends.enter hv).visited hx, ?_⟩
      rintro rfl
      exact hx hv
    rcases mem_cons.1 hy with rfl | hy
    · rw [Sound.index_enter_self]
      exact nofun
    · exact (Extends.enter hv).visited ((hsound.visited y).2 (.inl hy))
  have hlow : ∀ y ∈ s₁.stack, s₁.num v ≤ s₁.num y → ∀ w ∈ adj y, w ∈ s₁.stack →
      s₁.lowlink v ≤ s₁.num w := fun y hy hle w hw hw' =>
    hscan.low_edge y hy hle w hw hw' fun hyv => hyv ▸ hw
  obtain ⟨new, hnew, hhigh⟩ := hext.stack
  change s₁.stack = new ++ v :: s.stack at hnew
  rw [Search.leave, hindex]
  split
  · -- the node is the last of its component on the stack
    rename_i heq
    have heq : s₁.num v = s₁.lowlink v := Option.some.inj heq
    have hvnew : v ∉ new := by
      intro hmem
      have hnodup := (nodup_append.1 hscan.sound.nodup).1
      rw [hnew] at hnodup
      exact (nodup_append.1 hnodup).2.2 v hmem v mem_cons_self rfl
    rw [hnew, Sound.popTo_append hvnew]
    refine ⟨hscan.sound.leave_closed hscan.seen_visited hnew fun y hy hle w hw hw' => ?_,
      ?_, ?_, ?_, ?_⟩
    · rw [heq]
      exact hlow y hy hle w hw hw'
    · exact ⟨hext'.counter, hext'.index, ⟨[], rfl, nofun⟩, hext'.lowlink⟩
    · rw [hindex]
      exact nofun
    · exact .inr (by rw [← hnum, heq])
    · exact fun y hy hy' => absurd hy hy'
  rename_i hne
  have hlt : s₁.lowlink v < s₁.num v :=
    lt_of_le_of_ne hscan.low_le fun heq => hne (congrArg some heq.symm)
  obtain ⟨z, hz, hzlow, hreach⟩ := hscan.low_reach
  refine ⟨hscan.sound.leave_open hscan.seen_visited hz hreach (hzlow.trans_lt hlt), hext', ?_,
    .inl ⟨z, hz, hzlow, hreach⟩, fun y hy hy' w hw hw' => ?_⟩
  · rw [hindex]
    exact nofun
  have hle : s₁.num v ≤ s₁.num y := by
    rw [hnew] at hy
    rcases mem_append.1 hy with hy | hy
    · rw [hnum]
      exact (Nat.le_succ _).trans (hhigh y hy)
    rcases mem_cons.1 hy with rfl | hy
    · exact le_refl _
    · exact absurd hy hy'
  have hvisited : s.index w ≠ none := (hsound.visited w).2 (.inl hw')
  rw [← hext'.num hvisited]
  exact hlow y hy hle w hw (hnew ▸ mem_append_right _ (mem_cons_of_mem _ hw'))

variable {rest : List V} (hnodes : ∀ v ∈ nodes, ∀ w ∈ adj v, w ∈ nodes)

include hnodes in
/-- **Entering a node** finds the components that are reached through it and not known before, up to
one that may still grow. -/
theorem strongconnect_spec (n : ℕ) (h : Sound adj gray s) (hmem : v ∈ nodes)
    (hv : s.index v = none)
    (hgray : ∀ u ∈ gray.head?, v ∈ adj u)
    (hfuel : unvisited nodes s ≤ n) :
    Entered adj gray v s (strongconnect adj n v s) := by
  induction n generalizing v s gray with
  | zero =>
    have := unvisited_enter hmem hv
    omega
  | succ n ih =>
  have hfuel' : unvisited nodes (s.enter v) ≤ n := by
    have := unvisited_enter hmem hv
    omega
  obtain ⟨hscan, hext⟩ := scan_spec
    (fun w s' hs' hw hwhite hfuel'' => ih hs' (hnodes v hmem w hw) hwhite
      (fun u hu => by cases hu; exact hw) hfuel'') (adj v) (nil_append _).symm
    (Scanning.enter h hv hgray) hfuel'
  exact hscan.leave h hv hext

omit [DecidableEq V] in
/-- Between the nodes a search starts from everything that was entered has been popped. -/
theorem Sound.popped_of_visited (h : Sound adj [] s) (hv : s.index v ≠ none) :
    v ∈ s.result.flatten := by
  refine ((h.visited v).1 hv).resolve_left fun hstack => ?_
  obtain ⟨x, hx, -⟩ := h.back v hstack
  exact nomatch hx

include hnodes in
theorem search_spec (hfuel : unvisited nodes s ≤ n)
    {seen : List V} (hsplit : nodes = seen ++ rest) (h : Sound adj [] s)
    (hseen : ∀ v ∈ seen, s.index v ≠ none) :
    Sound adj [] (search adj n rest s) ∧
      ∀ v ∈ nodes, (search adj n rest s).index v ≠ none := by
  induction rest generalizing seen s with
  | nil =>
    rw [hsplit, append_nil]
    exact ⟨h, hseen⟩
  | cons w rest ih =>
  have hsplit' : nodes = (seen ++ [w]) ++ rest := by rw [hsplit, append_assoc]; rfl
  rw [search]
  split
  · rename_i hw
    have hmem : w ∈ nodes := hsplit ▸ mem_append_right _ mem_cons_self
    have hentered := strongconnect_spec hnodes n h hmem hw nofun hfuel
    refine ih (hentered.extends_.unvisited.trans hfuel) hsplit' hentered.sound fun v hv => ?_
    rcases mem_append.1 hv with hv | hv
    · exact hentered.extends_.visited (hseen v hv)
    · rw [mem_singleton.1 hv]
      exact hentered.visited
  rename_i hw
  refine ih hfuel hsplit' h fun v hv => ?_
  rcases mem_append.1 hv with hv | hv
  · exact hseen v hv
  · rw [mem_singleton.1 hv]
    exact hw

/-! ## Components -/

/-- What a list of components is to be: a partition of the nodes into classes of mutually reachable
ones, each after those it has edges to. -/
structure Condensation (adj : V → List V) (nodes : List V) (cs : List (List V)) : Prop where
  nodup : cs.flatten.Nodup
  nonempty : ∀ c ∈ cs, c ≠ []
  covers : ∀ v, v ∈ cs.flatten ↔ v ∈ nodes
  component : ∀ c ∈ cs, ∀ x ∈ c, ∀ y, y ∈ c ↔ Reach adj x y ∧ Reach adj y x
  order : ∀ before c after, cs = before ++ c :: after → ∀ x ∈ c, ∀ w ∈ adj x,
    w ∈ c ∨ w ∈ before.flatten

/-- Only nodes of the graph have been entered. -/
def Within (nodes : List V) (s : Search V) : Prop := ∀ x, s.index x ≠ none → x ∈ nodes

theorem Within.enter (h : Within nodes s) (hv : v ∈ nodes) : Within nodes (s.enter v) := by
  intro x hx
  by_cases hxv : x = v
  · exact hxv ▸ hv
  · rw [Sound.index_enter_ne s hxv] at hx
    exact h x hx

theorem Within.leave (h : Within nodes s) : Within nodes (s.leave v) := by
  rw [Search.leave]
  split <;> exact h

theorem Within.scan {rec : V → Search V → Search V}
    (hrec : ∀ w ∈ rest, ∀ s, Within nodes s → Within nodes (rec w s)) (h : Within nodes s) :
    Within nodes (Search.scan rec v rest s) := by
  induction rest generalizing s with
  | nil => exact h
  | cons w rest ih =>
  obtain ⟨hw, hrest⟩ := forall_mem_cons.1 hrec
  rw [Search.scan]
  refine ih hrest ?_
  split
  · exact hw s h
  · split <;> exact h

include hnodes

theorem Within.strongconnect (n : ℕ) (h : Within nodes s) (hv : v ∈ nodes) :
    Within nodes (strongconnect adj n v s) := by
  induction n generalizing v s with
  | zero => exact h
  | succ n ih =>
  rw [Tarjan.strongconnect]
  exact ((h.enter hv).scan fun w hw s hs => ih hs (hnodes v hv w hw)).leave

theorem Within.search (hrest : ∀ v ∈ rest, v ∈ nodes) (h : Within nodes s) :
    Within nodes (search adj n rest s) := by
  induction rest generalizing s with
  | nil => exact h
  | cons w rest ih =>
  obtain ⟨hw, hrest⟩ := forall_mem_cons.1 hrest
  rw [Tarjan.search]
  refine ih hrest ?_
  split
  · exact h.strongconnect hnodes n hw
  · exact h

/-- **The search finds the components.** -/
theorem condensation_components : Condensation adj nodes (components adj nodes) := by
  obtain ⟨hsound, hvisited⟩ := search_spec (n := nodes.length) hnodes (length_filter_le ..)
    (nil_append _).symm .start nofun
  have hwithin : Within nodes (search adj nodes.length nodes .start) :=
    Within.search hnodes (fun _ hv => hv) fun _ hx => absurd rfl hx
  refine ⟨(nodup_append.1 hsound.nodup).2.1, hsound.nonempty,
    fun v => ⟨fun hv => ?_, fun hv => ?_⟩, hsound.component, hsound.order⟩
  · exact hwithin v ((hsound.visited v).2 (.inr hv))
  · exact hsound.popped_of_visited (hvisited v hv)

end Skyr.Tarjan
