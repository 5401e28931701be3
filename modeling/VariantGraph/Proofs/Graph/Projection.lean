import VariantGraph.Proofs.Graph.Reachable
import VariantGraph.Proofs.Graph.Waves
import VariantGraph.Proofs.Variations
/-!
# Projecting a graph onto one that is split less

When every live variant of a graph has an origin in another graph, of the same module, with the same keys of
dependencies and with no more values (`Projects`), then targets go to targets of the origin: a tag allows no more
where both sides have more values. So a cycle would go to a cycle (`Projects.acyclic`). A split projects onto the
graph before it (`projects_split`).
-/
namespace VariantGraph.Graph

/-- No live variants depend on each other in a cycle, and none on itself. -/
def Acyclic (graph : Graph) : Prop := ∀ v, ¬ Relation.TransGen graph.DependsOn v v

/-- Every live variant of a graph comes of one of a graph before. -/
structure Projects (origin : VariantId → VariantId) (before after : Graph) : Prop where
  live : ∀ w, after.isLive w = true → before.isLive (origin w) = true
  module : ∀ w, after.isLive w = true → (after.variant w).module = (before.variant (origin w)).module
  variations : ∀ w, after.isLive w = true →
    (after.variant w).variations.Refines (before.variant (origin w)).variations
  keys : ∀ w, after.isLive w = true → ∀ k ∈ (after.variant w).dependencies.map Dependency.key,
    k ∈ (before.variant (origin w)).dependencies.map Dependency.key

section Projects
variable {before after : Graph} {origin : VariantId → VariantId} (h : Projects origin before after)
  (hb : Consistent before) (ha : Consistent after)
include h hb ha

/-- The targets of a dependency come of targets of a dependency with the same key. -/
theorem Projects.targets {w : VariantId} (hw : after.isLive w = true) {d : Dependency}
    (hd : d ∈ (after.variant w).dependencies) :
    ∃ d' ∈ (before.variant (origin w)).dependencies, d'.key = d.key ∧ ∀ t ∈ d.targets, origin t ∈ d'.targets := by
  obtain ⟨d', hd', hkey⟩ := List.mem_map.1 (h.keys w hw _ (List.mem_map_of_mem hd))
  obtain ⟨hmodule, htag⟩ := Prod.mk.inj hkey
  refine ⟨d', hd', hkey, fun t ht => ?_⟩
  obtain ⟨-, htlive, htmodule⟩ := ha.mem_targets hw hd ht
  have hallows : d.tag.allows (after.variant w).variations (after.variant t).variations = true := by
    rw [ha.targets w hw d hd trivial] at ht
    exact (List.mem_filter.1 ht).2
  rw [hb.targets _ (h.live w hw) d' hd' trivial, htag, hmodule]
  refine List.mem_filter.2 ⟨?_, Tag.allows_of_refines (h.variations w hw) (h.variations t htlive) hallows⟩
  rw [← htmodule, h.module t htlive]
  exact hb.listed _ (h.live t htlive)

theorem Projects.dependsOn {w t : VariantId} (hwt : after.DependsOn w t) :
    before.DependsOn (origin w) (origin t) := by
  obtain ⟨hw, ht, htlive⟩ := hwt
  obtain ⟨d, hd, hmem⟩ := List.mem_flatMap.1 ht
  obtain ⟨d', hd', -, htargets⟩ := h.targets hb ha hw hd
  exact ⟨h.live w hw, List.mem_flatMap.2 ⟨d', hd', htargets t hmem⟩, h.live t htlive⟩

/-- A cycle would come of a cycle. -/
theorem Projects.acyclic (hacyclic : before.Acyclic) : after.Acyclic := fun v hv =>
  hacyclic (origin v) (hv.lift origin fun _ _ => h.dependsOn hb ha)

end Projects

/-! ## A split -/

variable {graph : Graph}

/-- The variant of which a variant comes after a split. -/
def originOf (graph : Graph) (old : VariantId) (values : List (String × Properties)) (w : VariantId) : VariantId :=
  if w ∈ graph.createdBy values then old else w

section Split
variable {old : VariantId} {axis : String} {values : List (String × Properties)}

theorem originOf_of_isLive {w : VariantId} (h : graph.isLive w = true) : graph.originOf old values w = w :=
  if_neg fun hmem => Nat.not_lt_of_le (mem_createdBy.1 hmem).1 (lt_of_isLive h)

/-- What is live after a split. -/
theorem isLive_split (hne : values ≠ []) {w : VariantId} : (graph.split old axis values).isLive w = true ↔
    (graph.isLive w = true ∧ w ≠ old) ∨ w ∈ graph.createdBy values := by
  rw [split_eq_refresh hne, isLive_eq, (sameKeys_refresh _ _ w).live, ← isLive_eq, isLive_grow]

/-- A split leaves the old variants but the one that is split, and makes new ones from that one. -/
theorem exists_split (hne : values ≠ []) {w : VariantId} (hw : (graph.split old axis values).isLive w = true) :
    ((graph.split old axis values).variant w).dependencies.map Dependency.key =
        (graph.variant (graph.originOf old values w)).dependencies.map Dependency.key ∧
      ((graph.split old axis values).variant w).module = (graph.variant (graph.originOf old values w)).module ∧
      (((graph.split old axis values).variant w).variations =
          (graph.variant (graph.originOf old values w)).variations ∨
        graph.originOf old values w = old ∧ ∃ value, ((graph.split old axis values).variant w).variations =
          (graph.variant old).variations.assign axis value) := by
  have hsame := sameKeys_refresh (graph.grow old axis values) (graph.variant old).module w
  have hvariations := variations_refreshFor (graph.grow old axis values) (graph.variant old).module
    ((graph.grow old axis values).module (graph.variant old).module).dependents w
  rw [isLive_split hne] at hw
  rw [split_eq_refresh hne, hsame.keys, hsame.module, refresh_eq_refreshFor, hvariations]
  rcases hw with ⟨hl, hn⟩ | hc
  · rw [originOf_of_isLive hl, variant_grow_of_isLive axis hl hn]
    exact ⟨rfl, rfl, Or.inl rfl⟩
  · obtain ⟨value, properties, -, he⟩ := exists_derive axis old hc
    rw [originOf, if_pos hc, he, keys_derive]
    exact ⟨rfl, rfl, Or.inr ⟨rfl, value, rfl⟩⟩

theorem projects_split (hlive : graph.isLive old = true)
    (hfree : (graph.variant old).variations.value? axis = none) (hne : values ≠ []) :
    Projects (graph.originOf old values) graph (graph.split old axis values) where
  live w hw := by
    rcases (isLive_split hne).1 hw with ⟨hl, -⟩ | hc
    · rwa [originOf_of_isLive hl]
    · rwa [originOf, if_pos hc]
  module w hw := (exists_split hne hw).2.1
  variations w hw := by
    rcases (exists_split hne hw).2.2 with he | ⟨horigin, value, he⟩
    · rw [he]
      exact .refl _
    · rw [he, horigin]
      exact Variations.refines_assign hfree value
  keys w hw k hk := (exists_split hne hw).1 ▸ hk

end Split
end VariantGraph.Graph
