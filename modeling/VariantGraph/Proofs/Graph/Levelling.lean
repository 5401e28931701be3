import VariantGraph.Proofs.Digraph.Longest
import VariantGraph.Proofs.Graph.Reachable
import VariantGraph.Proofs.Lookup.Waves
/-!
# Waves are the exact levels of the dependency relation

Main statement (`waves_exact`): a graph has waves unless live variants depend on each other in a cycle. The
waves, which are found by counting, hold each live variant once, and a variant is in the wave whose number is
the length of the longest chain of dependencies that starts at it. What depends on what is all that matters to
the waves, not by how many dependencies.
-/
namespace VariantGraph.Graph

variable {graph : Graph}

theorem increasing_liveIds (graph : Graph) : graph.liveIds.Pairwise (· < ·) :=
  List.pairwise_lt_range.sublist List.filter_sublist

/-- A way of the digraph that starts at a live variant is a chain of dependencies. -/
theorem isChain_leads_iff {v : VariantId} {way : List VariantId} (hv : graph.isLive v = true) :
    (v :: way).IsChain graph.dependencyGraph.Leads ↔ (v :: way).IsChain graph.DependsOn := by
  induction way generalizing v with
  | nil => exact iff_of_true (List.isChain_singleton v) (List.isChain_singleton v)
  | cons t way ih =>
    have hstep : graph.dependencyGraph.Leads v t ↔ graph.DependsOn v t :=
      leads_dependencyGraph.trans ⟨fun h => ⟨hv, h⟩, And.right⟩
    rw [List.isChain_cons_cons, List.isChain_cons_cons, hstep]
    exact and_congr_right fun h => ih h.2.2

theorem waves_eq_error_iff :
    (∃ path, graph.waves = .error path) ↔ graph.dependencyGraph.levels? = none := by
  unfold Graph.waves
  cases graph.dependencyGraph.levels? <;> simp

/-- Graphs with the same live variants that depend on the same ones have the same waves. -/
theorem waves_congr {graph' : Graph} (hlive : graph'.liveIds = graph.liveIds)
    (hdepends : ∀ v t, graph'.DependsOn v t ↔ graph.DependsOn v t) : graph'.waves = graph.waves := by
  have hsame : Digraph.SameSteps graph.dependencyGraph graph'.dependencyGraph := by
    refine ⟨hlive, fun v hv t => ?_⟩
    have hv : graph.isLive v = true := mem_liveIds.1 hv
    have hv' : graph'.isLive v = true := mem_liveIds.1 (hlive ▸ mem_liveIds.2 hv)
    rw [leads_dependencyGraph, leads_dependencyGraph]
    exact ⟨fun h => ((hdepends v t).1 ⟨hv', h⟩).2, fun h => ((hdepends v t).2 ⟨hv, h⟩).2⟩
  rw [Graph.waves, Graph.findCycle?, hsame.levels?, hsame.cycles]
  rfl

/-- The targets of a live variant are live, so each is in a wave. -/
theorem Consistent.target_in_lower_wave (hc : Consistent graph) {waves : List (List VariantId)}
    (h : graph.waves = .ok waves) {i : Nat} {wave : List VariantId} {v t : VariantId} (hi : waves[i]? = some wave)
    (hv : v ∈ wave) (ht : t ∈ (graph.variant v).targets) :
    ∃ j < i, ∃ lower, waves[j]? = some lower ∧ t ∈ lower := by
  have hlive : graph.isLive v = true :=
    mem_liveIds.1 ((perm_of_waves h).mem_iff.1 (List.mem_flatten.2 ⟨wave, List.mem_of_getElem? hi, hv⟩))
  obtain ⟨d, hd, htarget⟩ := List.mem_flatMap.1 ht
  have htlive := (hc.mem_targets hlive hd htarget).2.1
  obtain ⟨lower, hlower, hmem⟩ := List.mem_flatten.1 ((perm_of_waves h).mem_iff.2 (mem_liveIds.2 htlive))
  obtain ⟨j, hj⟩ := List.mem_iff_getElem?.1 hlower
  exact ⟨j, lt_of_waves h hi hv hj hmem (leads_dependencyGraph.2 ⟨ht, htlive⟩), lower, hj, hmem⟩

/-- **Waves are exact.** In every graph that the operations reach: the waves are those that counting finds.
There are none exactly if live variants depend on each other in a cycle, or one on itself. Otherwise every live
variant is in one wave, once, and nothing else is in any; no wave is empty, and each is in increasing order; the
number of a variant's wave is the length of the longest chain of dependencies that starts at it, so its targets
are all in lower waves. A graph with the same live variants that depend on the same ones, by however many
dependencies, has the same waves or the same cycle. -/
theorem waves_exact (h : Reachable graph) :
    Checked.waves graph = .ok graph.waves ∧
    ((∃ path, graph.waves = .error path) ↔ ∃ v, Relation.TransGen graph.DependsOn v v) ∧
    (∀ waves, graph.waves = .ok waves →
      waves.flatten.Nodup ∧ (∀ v, v ∈ waves.flatten ↔ graph.isLive v = true) ∧
      (∀ wave ∈ waves, wave ≠ [] ∧ wave.Pairwise (· < ·)) ∧
      ∀ i wave v, waves[i]? = some wave → v ∈ wave →
        IsGreatest {n | ∃ way : List VariantId, way.length = n ∧ (v :: way).IsChain graph.DependsOn} i ∧
        ∀ t ∈ (graph.variant v).targets, ∃ j < i, ∃ lower, waves[j]? = some lower ∧ t ∈ lower) ∧
    ∀ graph' : Graph, graph'.liveIds = graph.liveIds →
      (∀ v t, graph'.DependsOn v t ↔ graph.DependsOn v t) → graph'.waves = graph.waves := by
  refine ⟨Checked.waves_eq graph, ?_, fun waves hwaves => ?_, fun _ => waves_congr⟩
  · rw [waves_eq_error_iff, Digraph.levels?_eq_none_iff, exists_path_iff]
  · have hperm := perm_of_waves hwaves
    have hlevels := levels?_of_waves hwaves
    have hmem : ∀ v, v ∈ waves.flatten ↔ graph.isLive v = true := fun v => hperm.mem_iff.trans mem_liveIds
    refine ⟨hperm.nodup_iff.2 (nodup_liveIds graph), hmem, ?_, fun i wave v hi hv => ⟨?_, fun t => ?_⟩⟩
    · exact fun wave => Digraph.increasing_level (increasing_liveIds graph) hlevels
    · have hlive := (hmem v).1 (List.mem_flatten.2 ⟨wave, List.mem_of_getElem? hi, hv⟩)
      simp only [← isChain_leads_iff hlive]
      exact Digraph.isGreatest_level hlevels (nodup_liveIds graph) hi hv
    · exact h.consistent.target_in_lower_wave hwaves hi hv

/-- A module that depends on another one twice, by two tags, and is split. -/
def usedTwice : Graph :=
  ((((Graph.empty.addModule default []).addModule default []).addDependency 0 (.ofRole .dep) 1 "deps").addDependency
    0 (.ofRole .data) 1 "data").split 0 "arch" [("arm", []), ("x86", [])]

theorem waves_exact_usedTwice : Reachable usedTwice ∧ usedTwice.waves = .ok [[1], [2, 3]] ∧
    (usedTwice.variant 2).targets = [1, 1] ∧
    IsGreatest {n | ∃ way : List VariantId, way.length = n ∧ (2 :: way).IsChain usedTwice.DependsOn} 1 := by
  have h : Reachable usedTwice :=
    ((((Relation.ReflTransGen.refl.tail (.addModule default [])).tail (.addModule default [])).tail
      (.addDependency (.ofRole .dep) "deps" rfl (by decide))).tail
      (.addDependency (.ofRole .data) "data" rfl (by decide))).tail (.split "arch" _ rfl)
  have hwaves : usedTwice.waves = .ok [[1], [2, 3]] := by decide +kernel
  exact ⟨h, hwaves, by decide +kernel,
    (((waves_exact h).2.2.1 _ hwaves).2.2.2 1 [2, 3] 2 rfl (by decide)).1⟩

end VariantGraph.Graph
