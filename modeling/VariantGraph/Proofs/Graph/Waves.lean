import VariantGraph.Graph.Waves
import VariantGraph.Proofs.Digraph.Cycles
import VariantGraph.Proofs.Graph.Access
/-!
# Waves and cycles of a module graph

The waves of a graph hold each live variant once (`perm_of_waves`), and a variant comes in a later wave
than its targets (`lt_of_waves`). A graph without cycles has waves (`exists_waves`), and one in which no
cycle is found has none (`acyclic_of_findCycle?`).
-/
namespace VariantGraph.Graph

variable {graph : Graph}

/-- One live variant depends on another. -/
def DependsOn (graph : Graph) (v t : VariantId) : Prop :=
  graph.isLive v = true ∧ t ∈ (graph.variant v).targets ∧ graph.isLive t = true

theorem leads_dependencyGraph {v t : Nat} :
    graph.dependencyGraph.Leads v t ↔ t ∈ (graph.variant v).targets ∧ graph.isLive t = true := by
  have hd : (default : Variant).targets = [] := rfl
  simp only [Digraph.Leads, Digraph.next, dependencyGraph, Digraph.ofRows, Array.getD_eq_getD_getElem?,
    List.getElem?_toArray, List.map_map, List.getElem?_map, variant, List.getD_eq_getElem?_getD]
  cases graph.variants[v]? with
  | none => simp [hd]
  | some w => simp [mem_liveIds]

theorem levels?_of_waves {waves : List (List VariantId)} (h : graph.waves = .ok waves) :
    graph.dependencyGraph.levels? = some waves := by
  unfold Graph.waves at h
  cases hl : graph.dependencyGraph.levels? with
  | none => rw [hl] at h; cases h
  | some levels => rw [hl] at h; cases h; rfl

theorem perm_of_waves {waves : List (List VariantId)} (h : graph.waves = .ok waves) :
    waves.flatten.Perm graph.liveIds := Digraph.perm_of_levels? (levels?_of_waves h)

theorem lt_of_waves {waves : List (List VariantId)} (h : graph.waves = .ok waves) {i j : Nat} {v t : VariantId}
    {wave wave' : List VariantId} (hi : waves[i]? = some wave) (hv : v ∈ wave) (hj : waves[j]? = some wave')
    (ht : t ∈ wave') (hl : graph.dependencyGraph.Leads v t) : j < i :=
  Digraph.lt_of_leads (levels?_of_waves h) (nodup_liveIds graph) hi hv hj ht hl

/-- A path of the digraph is a chain of dependencies among live variants. -/
theorem dependsOn_of_path {v w : VariantId} (hv : graph.isLive v = true) (h : graph.dependencyGraph.Path v w) :
    Relation.TransGen graph.DependsOn v w ∧ graph.isLive w = true := by
  induction h with
  | single hl =>
    obtain ⟨ht, hlive⟩ := leads_dependencyGraph.1 hl
    exact ⟨.single ⟨hv, ht, hlive⟩, hlive⟩
  | tail _ hl ih =>
    obtain ⟨ht, hlive⟩ := leads_dependencyGraph.1 hl
    exact ⟨.tail ih.1 ⟨ih.2, ht, hlive⟩, hlive⟩

theorem path_of_dependsOn {v w : VariantId} (h : Relation.TransGen graph.DependsOn v w) :
    graph.dependencyGraph.Path v w := by
  induction h with
  | single hd => exact .single (leads_dependencyGraph.2 hd.2)
  | tail _ hd ih => exact .tail ih (leads_dependencyGraph.2 hd.2)

/-- There is a cycle in the digraph exactly if live variants depend on each other in one. -/
theorem exists_path_iff : (∃ v, graph.dependencyGraph.Path v v) ↔ ∃ v, Relation.TransGen graph.DependsOn v v :=
  ⟨fun ⟨v, hv⟩ => ⟨v, (dependsOn_of_path (mem_liveIds.1 hv.mem_nodes) hv).1⟩,
    fun ⟨v, hv⟩ => ⟨v, path_of_dependsOn hv⟩⟩

theorem exists_waves (h : ∀ v, ¬ Relation.TransGen graph.DependsOn v v) : ∃ waves, graph.waves = .ok waves := by
  have hacyclic : ∀ v, ¬ graph.dependencyGraph.Path v v := fun v hv =>
    h v (dependsOn_of_path (mem_liveIds.1 hv.mem_nodes) hv).1
  obtain ⟨levels, hlevels⟩ := Digraph.exists_levels? hacyclic
  exact ⟨levels, by rw [Graph.waves, hlevels]⟩

theorem acyclic_of_findCycle? (h : graph.findCycle? = none) (v : VariantId) :
    ¬ Relation.TransGen graph.DependsOn v v := fun hv =>
  Digraph.cycles_eq_nil_iff.1 (List.head?_eq_none_iff.1 h) v (path_of_dependsOn hv)

end VariantGraph.Graph
