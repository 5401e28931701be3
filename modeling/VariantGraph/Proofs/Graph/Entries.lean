import VariantGraph.Proofs.Graph.Access
import VariantGraph.Resolved
/-!
# The entries of a resolved graph

Entries come module by module: those of modules that are built, in the order of their numbers.
-/
namespace VariantGraph.Graph

/-- The entries of a module. -/
def entries (graph : Graph) (registry : Registry) (external : ExternalBuild) (m : ModuleId) : List ResolvedVariant :=
  (graph.module m).variants.map fun v =>
    ResolvedVariant.ofVariant graph registry external (graph.module m) (graph.variant v)

variable {graph : Graph} {registry : Registry} {external : ExternalBuild}

theorem variants_ofGraph : (ResolvedGraph.ofGraph graph registry external).variants =
    (graph.moduleIds.filter fun m => !(graph.module m).can .defaults).flatMap (graph.entries registry external) := by
  simp only [ResolvedGraph.ofGraph, modules_eq_map, List.filter_map, List.flatMap_map, Function.comp_def]
  rfl

theorem mem_variants_ofGraph {entry : ResolvedVariant} :
    entry ∈ (ResolvedGraph.ofGraph graph registry external).variants ↔
      ∃ m < graph.modules.length, (graph.module m).can .defaults = false ∧ ∃ v ∈ (graph.module m).variants,
        ResolvedVariant.ofVariant graph registry external (graph.module m) (graph.variant v) = entry := by
  simp only [variants_ofGraph, List.mem_flatMap, List.mem_filter, moduleIds, List.mem_range, entries, List.mem_map,
    Bool.not_eq_true', and_assoc]

end VariantGraph.Graph
