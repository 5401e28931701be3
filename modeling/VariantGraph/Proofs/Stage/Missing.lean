import VariantGraph.Proofs.Graph.Missing
import VariantGraph.Proofs.Stage.Splitting
import VariantGraph.Proofs.Variations
/-!
# What splits do to missed dependencies

A match never comes back: a dependency that leads nowhere before a split leads nowhere after it
(`Transition.misses`). Whether it still exists is another matter. It may come from a branch that none of
the new variants selects; then it is idle.
-/
namespace VariantGraph
open VariantGraph.Graph

/-- None of the new variants into which a variant is to be split has a dependency with a tag. -/
def Graph.Idle (config : Config) (graph : Graph) (condition : Condition) (v : VariantId) (tag : Tag) : Prop :=
  (graph.moduleOf v).can condition.capability = true ∧
    ∀ choice ∈ condition.choices config (graph.variant v).variations (graph.variant v).properties,
      tag.appliesTo ((graph.variant v).variations.assign condition.axis choice.1) = false

variable {env : Environment} {start after : Graph} {condition : Condition}

/-! ## Variants that a split leaves -/

/-- A variant of the same module with the same values, and maybe more. -/
structure Variant.DescendsFrom (after before : Variant) : Prop where
  module : after.module = before.module
  variations : after.variations.Refines before.variations

theorem Variant.DescendsFrom.trans {a b c : Variant} (h : a.DescendsFrom b) (h' : b.DescendsFrom c) :
    a.DescendsFrom c := ⟨h.module.trans h'.module, h.variations.trans h'.variations⟩

/-- No variant has a value on an axis yet. -/
def Graph.Unsplit (graph : Graph) (axis : String) : Prop :=
  ∀ v, graph.isLive v = true → (graph.variant v).variations.value? axis = none

theorem Transition.descends (ht : Transition env condition.stage start after)
    (hunsplit : start.Unsplit condition.axis) {t : VariantId} (hl : after.isLive t = true) :
    ∃ u, start.isLive u = true ∧ (after.variant t).DescendsFrom (start.variant u) := by
  obtain ⟨u, hu, hturns, hm, -⟩ := ht.origin hl
  refine ⟨u, hu, hm.symm, ?_⟩
  rw [← Variant.bare_variations (after.variant t)]
  rcases hturns.variations_stage with he | ⟨value, he⟩
  · rw [he]; exact .refl _
  · rw [he]; exact Variations.refines_assign (hunsplit u hu) value

theorem Transition.unsplit (condition : Condition) (ht : Transition env condition.stage start after)
    {axis : String} (hne : condition.axis ≠ axis)
    (h : start.Unsplit axis) : after.Unsplit axis := by
  intro v hv
  obtain ⟨u, hu, hturns, -, -⟩ := ht.origin hv
  rw [← Variant.bare_variations (after.variant v)]
  rcases hturns.variations_stage with he | ⟨value, he⟩
  · rw [he]; exact h u hu
  · rw [he, Variations.value?_assign, if_neg hne]; exact h u hu

/-! ## Missed dependencies -/

section Misses
variable (ht : Transition env condition.stage start after) (hunsplit : start.Unsplit condition.axis)
  {v : VariantId} {k : ModuleId × Tag} (hm : start.Misses v k)
include ht hunsplit hm

/-- A variant that matched after a split would come of one that matched before. -/
theorem Transition.unmatched {w : VariantId} (hw : (after.variant w).DescendsFrom (start.variant v))
    {t : VariantId} (hl : after.isLive t = true) (hmodule : (after.variant t).module = k.1) :
    k.2.allows (after.variant w).variations (after.variant t).variations = false := by
  obtain ⟨u, hu, hdescends⟩ := ht.descends hunsplit hl
  refine Bool.eq_false_iff.2 fun hallows => ?_
  have hbefore := Tag.allows_of_refines hw.variations hdescends.variations hallows
  rw [hm.unmatched u hu (hdescends.module.symm.trans hmodule)] at hbefore
  cases hbefore

/-- A new variant that still has the dependency misses it. -/
theorem Transition.misses_of_applies {w : VariantId} (hl : after.isLive w = true)
    (hdescends : (after.variant w).DescendsFrom (start.variant v))
    (hkeys : (after.variant w).bare.dependencies = (start.variant v).bare.dependencies)
    (happlies : k.2.appliesTo (after.variant w).variations = true) : after.Misses w k := by
  refine ⟨hl, ?_, happlies, fun t => ht.unmatched hunsplit hm hdescends⟩
  rw [← Variant.keys_bare, hkeys, Variant.keys_bare]; exact hm.held

end Misses

/-- **What leads nowhere before a split leads nowhere after it**, in any new variant that still has the
dependency; and there is one unless the dependency is idle. -/
theorem Transition.misses (condition : Condition) (ht : Transition env condition.stage start after)
    (harchs : env.config.device.archs ≠ []) (hunsplit : start.Unsplit condition.axis) {v : VariantId}
    {k : ModuleId × Tag} (hm : start.Misses v k) (hidle : ¬ start.Idle env.config condition v k.2) :
    ∃ w, after.Misses w k ∧ (after.variant w).DescendsFrom (start.variant v) := by
  obtain ⟨effects, hv, hall⟩ := ht.complete v hm.live
  cases hcan : (start.moduleOf v).can condition.capability with
  | false =>
    obtain ⟨w, hl, hbare⟩ := hall _ ((hv.becomes_self hcan).2 rfl)
    have hvariations : (after.variant w).variations = (start.variant v).variations := by
      rw [← Variant.bare_variations, hbare]; rfl
    have hdescends : (after.variant w).DescendsFrom (start.variant v) := by
      refine ⟨by rw [← Variant.bare_module, hbare]; rfl, ?_⟩
      rw [hvariations]; exact .refl _
    exact ⟨w, ht.misses_of_applies hunsplit hm hl hdescends (by rw [hbare])
      (by rw [hvariations]; exact hm.applies), hdescends⟩
  | true =>
    obtain ⟨entries, -, hvalues, hbecomes⟩ := hv.becomes_children hcan harchs
    have happlies : ∃ choice ∈ condition.choices env.config (start.variant v).variations
        (start.variant v).properties,
        k.2.appliesTo ((start.variant v).variations.assign condition.axis choice.1) = true := by
      refine Classical.byContradiction fun hnone => hidle ⟨hcan, fun choice hc => ?_⟩
      exact Bool.eq_false_iff.2 fun ha => hnone ⟨choice, hc, ha⟩
    obtain ⟨choice, hchoice, happlies⟩ := happlies
    obtain ⟨entry, hentry, hvalue⟩ := List.mem_map.1 (hvalues ▸ List.mem_map_of_mem hchoice :
      choice.1 ∈ entries.map (·.1))
    obtain ⟨w, hl, hbare⟩ := hall _ ((hbecomes _).2 ⟨entry, hentry, rfl⟩)
    have hvariations : (after.variant w).variations =
        (start.variant v).variations.assign condition.axis choice.1 := by
      rw [← hvalue, ← Variant.bare_variations, hbare]; rfl
    have hdescends : (after.variant w).DescendsFrom (start.variant v) := by
      refine ⟨by rw [← Variant.bare_module, hbare]; rfl, ?_⟩
      rw [hvariations]; exact Variations.refines_assign (hunsplit v hm.live) choice.1
    exact ⟨w, ht.misses_of_applies hunsplit hm hl hdescends (by rw [hbare]; rfl)
      (by rw [hvariations]; exact happlies), hdescends⟩

end VariantGraph
