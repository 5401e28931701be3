import VariantGraph.Proofs.Graph.Split
import Mathlib.Data.List.Nodup
import Mathlib.Logic.Relation
/-!
# The graphs that the operations reach

Main statement (`edges_exact_of_reachable`): after any sequence of operations the targets that were
kept up to date are those found from scratch, and all lists are exact.
-/
namespace VariantGraph.Graph

/-- One operation on a graph. Dependencies are added to live variants and lead to modules that exist,
and only live variants are split. -/
inductive Step (graph : Graph) : Graph → Prop where
  | addModule (module : Module) (properties : Properties) : Step graph (graph.addModule module properties)
  | addDependency {source : VariantId} {target : ModuleId} (tag : Tag) (property : String) :
      graph.isLive source = true → target < graph.modules.length →
      Step graph (graph.addDependency source tag target property)
  | addCheckedDependency {source : VariantId} {target : ModuleId} (tag : Tag) (property : String) :
      graph.isLive source = true → target < graph.modules.length →
      Step graph (graph.addCheckedDependency source tag target property)
  | setProperties (id : VariantId) (properties : Properties) : Step graph (graph.setProperties id properties)
  | split {old : VariantId} (axis : String) (values : List (String × Properties)) :
      graph.isLive old = true → Step graph (graph.split old axis values)

/-- The graphs that any sequence of operations leads to. -/
def Reachable (graph : Graph) : Prop := Relation.ReflTransGen Step .empty graph

variable {graph : Graph}

theorem consistent_empty : Consistent .empty := by
  have hl : ∀ v, ¬ Graph.empty.isLive v = true := fun v h => by cases h
  have hm : ∀ m, ¬ m < Graph.empty.modules.length := fun m h => by cases h
  exact ⟨⟨fun v h => absurd h (hl v), fun v h => absurd h (hl v), fun m h => absurd h (hm m),
    fun v h => absurd h (hl v), fun m h => absurd h (hm m), fun m h => absurd h (hm m),
    fun m h => absurd h (hm m), fun v h => absurd h (hl v)⟩, fun v h => absurd h (hl v)⟩

theorem Consistent.step {graph' : Graph} (h : Consistent graph) (hs : Step graph graph') : Consistent graph' := by
  cases hs with
  | addModule module properties => exact h.addModule module properties
  | addDependency tag property hl ht => exact h.addDependency property hl ht
  | addCheckedDependency tag property hl ht => exact h.addCheckedDependency tag property hl ht
  | setProperties id properties => exact h.setProperties id properties
  | split axis values hl => exact h.split axis values hl

theorem Reachable.consistent (h : Reachable graph) : Consistent graph := by
  induction h with
  | refl => exact consistent_empty
  | tail _ hs ih => exact ih.step hs

/-- **Targets kept up to date equal targets found from scratch.** Whatever operations led to a graph:
every live variant's targets are the current variants of the module that its tag allows, in their
order; the dependents of a module are the live variants that hold a dependency on it; each live variant
is listed once, by its own module, and no other is listed; no module is without variants; and no two
dependencies of a live variant have one module and one tag. -/
theorem edges_exact_of_reachable (h : Reachable graph) :
    (∀ v, graph.isLive v = true → ∀ d ∈ (graph.variant v).dependencies,
      d.targets = (graph.module d.module).variants.filter fun t =>
        d.tag.allows (graph.variant v).variations (graph.variant t).variations) ∧
    (∀ m < graph.modules.length, ∀ v, v ∈ (graph.module m).dependents ↔
      graph.isLive v = true ∧ ∃ d ∈ (graph.variant v).dependencies, d.module = m) ∧
    ((∀ v, graph.isLive v = true → (graph.moduleOf v).variants.count v = 1) ∧
      (∀ m < graph.modules.length, ∀ v ∈ (graph.module m).variants,
        graph.isLive v = true ∧ (graph.variant v).module = m) ∧
      ∀ m < graph.modules.length, (graph.module m).variants ≠ []) ∧
    (∀ v, graph.isLive v = true → (graph.variant v).dependencies.Pairwise fun d d' =>
      ¬(d.module = d'.module ∧ d.tag = d'.tag)) := by
  have hc := h.consistent
  refine ⟨fun v hl d hd => hc.targets v hl d hd trivial, hc.dependents, ⟨?_, hc.current, hc.inhabited⟩, ?_⟩
  · intro v hl
    exact List.count_eq_one_of_mem (hc.once _ (hc.owner v hl)) (hc.listed v hl)
  · intro v hl
    refine (List.pairwise_map.1 (hc.distinct v hl)).imp ?_
    rintro d d' hne ⟨hm, ht⟩
    exact hne (Prod.ext hm ht)

/-- A module that depends on itself, split with a value that is repeated. -/
def selfSplit : Graph :=
  ((Graph.empty.addModule default []).addDependency 0 (.ofRole .dep) 0 "deps").split 0 "arch"
    [("arm", []), ("arm", []), ("x86", [])]

theorem edges_exact_selfSplit :
    Reachable selfSplit ∧ ∀ d ∈ (selfSplit.variant 2).dependencies,
      d.targets = (selfSplit.module d.module).variants.filter fun t =>
        d.tag.allows (selfSplit.variant 2).variations (selfSplit.variant t).variations := by
  have h : Reachable selfSplit :=
    ((Relation.ReflTransGen.refl.tail (.addModule default [])).tail
      (.addDependency (.ofRole .dep) "deps" rfl (Nat.lt_succ_self 0))).tail (.split "arch" _ rfl)
  exact ⟨h, (edges_exact_of_reachable h).1 2 rfl⟩

end VariantGraph.Graph
