import VariantGraph.Proofs.Graph.Consistent
/-!
# Dependencies that lead nowhere

A dependency is missed where it exists for a live variant and no variant of the module matches. Before
the first split nothing is missed (`Consistent.missing_eq_nil`).
-/
namespace VariantGraph

namespace Graph

variable {graph : Graph} {v : VariantId}

/-! ## What is missed -/

/-- A live variant has a dependency that exists for it and that no variant of the module matches. -/
structure Misses (graph : Graph) (v : VariantId) (k : ModuleId × Tag) : Prop where
  live : graph.isLive v = true
  held : k ∈ (graph.variant v).dependencies.map Dependency.key
  applies : k.2.appliesTo (graph.variant v).variations = true
  unmatched : ∀ t, graph.isLive t = true → (graph.variant t).module = k.1 →
    k.2.allows (graph.variant v).variations (graph.variant t).variations = false

theorem mem_missing {d : Dependency} : (v, d) ∈ graph.missing ↔ graph.isLive v = true ∧
    d ∈ (graph.variant v).dependencies ∧ d.targets = [] ∧
    d.tag.appliesTo (graph.variant v).variations = true := by
  simp only [missing, List.mem_flatMap, List.mem_map, List.mem_filter, mem_liveIds, Prod.mk.injEq,
    Bool.and_eq_true, List.isEmpty_iff]
  constructor
  · rintro ⟨_, hv, _, ⟨hd, ht, ha⟩, rfl, rfl⟩
    exact ⟨hv, hd, ht, ha⟩
  · rintro ⟨hv, hd, ht, ha⟩
    exact ⟨v, hv, d, ⟨hd, ht, ha⟩, rfl, rfl⟩

theorem Consistent.misses_of_mem (h : Consistent graph) {d : Dependency} (hd : (v, d) ∈ graph.missing) :
    graph.Misses v d.key := by
  obtain ⟨hv, hd, ht, ha⟩ := mem_missing.1 hd
  refine ⟨hv, List.mem_map_of_mem hd, ha, fun t hlive hm => ?_⟩
  rw [h.targets v hv d hd trivial] at ht
  have hlisted := h.listed t hlive
  rw [moduleOf, hm] at hlisted
  exact Bool.eq_false_iff.2 (List.filter_eq_nil_iff.1 ht t hlisted)

theorem Consistent.exists_mem_missing (h : Consistent graph) {k : ModuleId × Tag} (hm : graph.Misses v k) :
    ∃ d, (v, d) ∈ graph.missing := by
  obtain ⟨d, hd, rfl⟩ := List.mem_map.1 hm.held
  refine ⟨d, mem_missing.2 ⟨hm.live, hd, ?_, hm.applies⟩⟩
  rw [h.targets v hm.live d hd trivial]
  refine List.filter_eq_nil_iff.2 fun t ht => ?_
  obtain ⟨hlive, hmodule⟩ := h.current _ (h.bound v hm.live d hd) t ht
  exact Bool.eq_false_iff.1 (hm.unmatched t hlive hmodule)

/-- No variant has been split. -/
def Whole (graph : Graph) : Prop := ∀ v, graph.isLive v = true → (graph.variant v).variations = []

/-- Before the first split every dependency leads to all variants of its module, and there are some. -/
theorem Consistent.missing_eq_nil (h : Consistent graph) (hv : graph.Whole) : graph.missing = [] := by
  refine List.eq_nil_iff_forall_not_mem.2 fun ⟨v, d⟩ hmem => ?_
  have hm := h.misses_of_mem hmem
  obtain ⟨hlive, hd, -, ha⟩ := mem_missing.1 hmem
  obtain ⟨t, ht⟩ := List.exists_mem_of_ne_nil _ (h.inhabited _ (h.bound v hlive d hd))
  obtain ⟨htarget, hmodule⟩ := h.current _ (h.bound v hlive d hd) t ht
  have hnot := hm.unmatched t htarget hmodule
  rw [hv v hlive, hv t htarget] at hnot
  rw [hv v hlive] at ha
  simp [Dependency.key, Tag.allows, ha, Variations.compatible, Variations.value?, Table.find?] at hnot

end Graph
end VariantGraph
