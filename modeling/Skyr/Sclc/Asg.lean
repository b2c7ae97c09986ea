import Skyr.Lib.Components
import Skyr.Sclc.Ast

/-!
# The graph of a program

The modules, globals and type declarations of a program are the nodes of a graph; there is an edge
where one refers to another.  The checker and the evaluator work on the strongly connected
components of this graph in the order `computeSccs` puts them in, so that what a component refers to
comes before it.
-/

namespace Skyr.Sclc

/-- A node of the graph. -/
inductive NodeId
  | module (raw : RawModuleId)
  | global (raw : RawModuleId) (name : String)
  | typeDecl (raw : RawModuleId) (name : String)
deriving DecidableEq

/-- A reference from a node to a node. -/
structure Edge where
  source : NodeId
  target : NodeId
deriving DecidableEq

/-- The keys of the maps that hold the nodes, in the order in which the maps yield them, and the
edges in the order in which they were added. -/
structure Asg where
  modules : List RawModuleId
  globals : List (RawModuleId × String)
  typeDecls : List (RawModuleId × String)
  edges : List Edge

namespace Asg

def allNodeIds (asg : Asg) : List NodeId :=
  asg.modules.map .module ++ asg.globals.map (fun k => .global k.1 k.2) ++
    asg.typeDecls.map fun k => .typeDecl k.1 k.2

/-- The targets of the edges from a node.  Edges to what is not a node are left out. -/
def adjacency (asg : Asg) (v : NodeId) : List NodeId :=
  asg.edges.filterMap fun e =>
    if e.source = v ∧ e.target ∈ asg.allNodeIds then some e.target else none

/-- The components, what they refer to before them. -/
def computeSccs (asg : Asg) : List (List NodeId) :=
  Tarjan.components asg.adjacency asg.allNodeIds

/-- One node refers to another. -/
def Refers (asg : Asg) (v w : NodeId) : Prop :=
  v ∈ asg.allNodeIds ∧ w ∈ asg.allNodeIds ∧ ⟨v, w⟩ ∈ asg.edges

/-- One node refers to another, perhaps by way of others. -/
abbrev Reach (asg : Asg) (v w : NodeId) : Prop := Relation.ReflTransGen asg.Refers v w

variable {asg : Asg}

theorem mem_adjacency {v w : NodeId} :
    w ∈ asg.adjacency v ↔ w ∈ asg.allNodeIds ∧ ⟨v, w⟩ ∈ asg.edges := by
  rw [adjacency, List.mem_filterMap]
  constructor
  · rintro ⟨⟨a, b⟩, hmem, he⟩
    split at he
    · rename_i h
      obtain ⟨rfl, hb⟩ := h
      cases he
      exact ⟨hb, hmem⟩
    · exact nomatch he
  · rintro ⟨hw, hmem⟩
    exact ⟨⟨v, w⟩, hmem, if_pos ⟨rfl, hw⟩⟩

theorem Reach.mem {v w : NodeId} (h : asg.Reach v w) (hv : v ∈ asg.allNodeIds) :
    w ∈ asg.allNodeIds := by
  cases h with
  | refl => exact hv
  | tail _ hedge => exact hedge.2.1

/-- The edges that count are those between nodes. -/
theorem reach_iff {v w : NodeId} (hv : v ∈ asg.allNodeIds) :
    Tarjan.Reach asg.adjacency v w ↔ asg.Reach v w := by
  constructor
  · intro h
    induction h with
    | refl => exact .refl
    | tail _ hedge ih =>
    obtain ⟨hw, hedge⟩ := mem_adjacency.1 hedge
    exact ih.tail ⟨ih.mem hv, hw, hedge⟩
  · intro h
    exact h.lift id fun a b hab => mem_adjacency.2 hab.2

theorem condensation_computeSccs (asg : Asg) :
    Tarjan.Condensation asg.adjacency asg.allNodeIds asg.computeSccs :=
  Tarjan.condensation_components fun _ _ _ hw => (mem_adjacency.1 hw).1

/-- **The components of a program's graph**: each node is in one of them, two nodes are in the same
one if they refer to each other, and edges lead to the same component or an earlier one. -/
theorem compute_sccs_correct (asg : Asg) :
    asg.computeSccs.flatten.Nodup ∧ (∀ v, v ∈ asg.computeSccs.flatten ↔ v ∈ asg.allNodeIds) ∧
      (∀ c ∈ asg.computeSccs, c ≠ [] ∧ ∀ v ∈ c, ∀ w, w ∈ c ↔ asg.Reach v w ∧ asg.Reach w v) ∧
      ∀ before c after, asg.computeSccs = before ++ c :: after → ∀ v ∈ c, ∀ w, asg.Refers v w →
        w ∉ c → w ∈ before.flatten := by
  have h := condensation_computeSccs asg
  refine ⟨h.nodup, h.covers, fun c hc => ⟨h.nonempty c hc, fun v hv w => ?_⟩, ?_⟩
  · have hnode : v ∈ asg.allNodeIds := (h.covers v).1 (List.mem_flatten_of_mem hc hv)
    rw [h.component c hc v hv w, reach_iff hnode]
    refine and_congr_right fun hvw => ?_
    rw [reach_iff (hvw.mem hnode)]
  · intro before c after hsplit v hv w hvw hw
    exact (h.order before c after hsplit v hv w (mem_adjacency.2 hvw.2)).resolve_left hw

end Asg

end Skyr.Sclc
