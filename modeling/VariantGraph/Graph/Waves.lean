import VariantGraph.Graph.Basic
import VariantGraph.Graph.Digraph
/-!
# Waves: the order in which variants are visited

In a bottom-up order every variant comes after all its targets. The waves are the levels of the
dependency relation on live variants: the variants of one wave do not depend on each other.

| here | there (crates/lib/src) |
| --- | --- |
| `dependencyGraph` | `VariantDag::build` (graph/dag.rs:28-49) |
| `findCycle?` | `VariantDag::cycle`, `find_cycle` (graph/dag.rs:81-86, 160-162) |
| `waves` | `bottom_up_waves` (graph/dag.rs:151-157) |
-/
namespace VariantGraph.Graph

/-- The dependency relation on live variants. -/
def dependencyGraph (graph : Graph) : Digraph :=
  .ofRows graph.liveIds (graph.variants.map (·.targets))

/-- The first dependency cycle: each variant depends on the next one, and the last is the first. -/
def findCycle? (graph : Graph) : Option (List VariantId) := graph.dependencyGraph.cycles.head?

/-- The live variants in waves, from those that depend on none; or a cycle. -/
def waves (graph : Graph) : Except (List VariantId) (List (List VariantId)) :=
  match graph.dependencyGraph.levels? with
  | some waves => .ok waves
  | none => .error (graph.findCycle?.getD [])

end VariantGraph.Graph
