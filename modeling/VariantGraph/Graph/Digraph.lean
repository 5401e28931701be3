/-!
# Directed graphs: levels, reachability and cycles

A directed graph has numbered nodes and leads from each node to some others, possibly several times.
`peel` takes levels off it: a node is in the first level that comes after all nodes it leads to. What
no level takes is the core (`core`): every node on a cycle is in it, so a graph without cycles has
none and is all levels (`levels?`). `cycles` gives for every strongly connected component with a
cycle a shortest cycle through its lowest node.

| here | there (crates/lib/src) |
| --- | --- |
| `peel`, `levels?` | `VariantDag::waves` (graph/dag.rs:51-79) |
| `core`, `leadsComponent` | the components with a cycle, by reachability (graph/dag.rs:96-101) |
| `cycleThrough?`, `searchBack` | `cycle_through` (graph/dag.rs:109-146) |
| `cycles` | `find_cycles` (graph/dag.rs:95-107) |
-/
namespace VariantGraph

/-- Nodes in increasing order, and in the row of each node the nodes it leads to. -/
structure Digraph where
  nodes : List Nat
  rows : Array (List Nat)
  /-- Rows hold nodes only. -/
  closed : ∀ row ∈ rows, ∀ node ∈ row, node ∈ nodes

namespace Digraph

/-- The graph on some nodes with some rows, of which only the steps to these nodes count. -/
def ofRows (nodes : List Nat) (rows : List (List Nat)) : Digraph where
  nodes := nodes
  rows := (rows.map (List.filter (· ∈ nodes))).toArray
  closed := by
    intro row row_mem node node_mem
    simp only [List.mem_toArray, List.mem_map] at row_mem
    obtain ⟨whole, _, rfl⟩ := row_mem
    simpa using (List.mem_filter.mp node_mem).2

/-- The nodes that a node leads to. -/
def next (graph : Digraph) (node : Nat) : List Nat := graph.rows.getD node []

/-- A number put into an increasing list, unless it is there. -/
def insertOnce (node : Nat) : List Nat → List Nat
  | [] => [node]
  | first :: rest =>
    if node < first then node :: first :: rest
    else if node = first then first :: rest
    else first :: insertOnce node rest

/-- The nodes that a node leads to, in increasing order and each once. -/
def successors (graph : Digraph) (node : Nat) : List Nat := (graph.next node).foldr insertOnce []

/-! ## Levels -/

/-- Those of some remaining nodes that lead to none of them. -/
def ready (graph : Digraph) (remaining : List Nat) : List Nat :=
  remaining.filter fun node => (graph.next node).all (· ∉ remaining)

/-- Levels of remaining nodes, each level holding what leads to no node that is left, and the nodes
that are left in the end. -/
def peel (graph : Digraph) : Nat → List Nat → List (List Nat) × List Nat
  | 0, remaining => ([], remaining)
  | fuel + 1, remaining =>
    match graph.ready remaining with
    | [] => ([], remaining)
    | level =>
      let (levels, left) := peel graph fuel (remaining.filter (· ∉ level))
      (level :: levels, left)

/-- The levels of all nodes and what is left; every level takes a node, so there are no more levels
than nodes. -/
def peeled (graph : Digraph) : List (List Nat) × List Nat := graph.peel graph.nodes.length graph.nodes

/-- The nodes that are in no level. -/
def core (graph : Digraph) : List Nat := graph.peeled.2

/-- The levels of the graph, if it has no core. -/
def levels? (graph : Digraph) : Option (List (List Nat)) :=
  match graph.peeled with
  | (levels, []) => some levels
  | (_, _ :: _) => none

/-! ## Reachability -/

/-- Adds to the nodes seen whatever the nodes at hand lead to. -/
def explore (graph : Digraph) : Nat → List Nat → List Nat → List Nat
  | 0, seen, _ => seen
  | _, seen, [] => seen
  | fuel + 1, seen, node :: rest =>
    let fresh := (graph.successors node).filter (· ∉ seen)
    explore graph fuel (seen ++ fresh) (rest ++ fresh)

/-- The nodes that are reached from a node by one step or more. -/
def reachable (graph : Digraph) (node : Nat) : List Nat :=
  graph.explore graph.nodes.length (graph.successors node) (graph.successors node)

/-! ## Cycles -/

/-- Searches breadth first for a way back to the start. The queue holds the nodes to go on from, each
with the way that led to it, last node first. -/
def searchBack (graph : Digraph) (start : Nat) :
    Nat → List Nat → List (Nat × List Nat) → Option (List Nat)
  | 0, _, _ => none
  | _, _, [] => none
  | fuel + 1, seen, (node, way) :: queue =>
    let following := graph.successors node
    if start ∈ following then some ((start :: node :: way).reverse)
    else
      let fresh := following.filter (· ∉ seen)
      searchBack graph start fuel (seen ++ fresh) (queue ++ fresh.map (·, node :: way))

/-- A shortest cycle through a node, from the node back to itself. -/
def cycleThrough? (graph : Digraph) (start : Nat) : Option (List Nat) :=
  graph.searchBack start (graph.nodes.length + 1) [start] [(start, [])]

/-- Whether a node is on a cycle and no lower node is on one with it. -/
def leadsComponent (graph : Digraph) (node : Nat) : Bool :=
  let around := graph.reachable node
  node ∈ around && around.all fun other => node ≤ other || node ∉ graph.reachable other

/-- One shortest cycle for every strongly connected component that has any, through its lowest node;
the components by their lowest nodes. -/
def cycles (graph : Digraph) : List (List Nat) :=
  (graph.core.filter graph.leadsComponent).filterMap graph.cycleThrough?

end Digraph
end VariantGraph
