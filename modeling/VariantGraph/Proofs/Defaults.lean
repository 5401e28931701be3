import VariantGraph.Defaults
import VariantGraph.Proofs.Graph.Consistent
import VariantGraph.Proofs.Property.Merge
/-!
# Taking over defaults

Only properties change when defaults are taken over (`propagate_sameShape`), and they stay ordered and
as deep as they were (`neatBy_propagate`).
-/
namespace VariantGraph

/-- Two graphs that differ in properties only. -/
structure Graph.SameShape (a b : Graph) : Prop where
  modules : a.modules = b.modules
  variant : ∀ v, a.variant v = { b.variant v with properties := (a.variant v).properties }

namespace Graph

variable {a b c : Graph}

theorem SameShape.refl (graph : Graph) : SameShape graph graph := ⟨rfl, fun _ => rfl⟩

theorem SameShape.trans (h : SameShape a b) (h' : SameShape b c) : SameShape a c := by
  refine ⟨h.modules.trans h'.modules, fun v => ?_⟩
  rw [h.variant v, h'.variant v]

theorem SameShape.isLive (h : SameShape a b) (v : VariantId) : a.isLive v = b.isLive v := by
  rw [isLive_eq, isLive_eq, h.variant v]

theorem SameShape.module (h : SameShape a b) (m : ModuleId) : a.module m = b.module m :=
  module_congr h.modules m

theorem SameShape.consistent (h : SameShape a b) (hb : Consistent b) : Consistent a :=
  hb.congr h.modules fun v => by rw [h.variant v]; exact ⟨rfl, rfl, rfl, rfl⟩

theorem sameShape_setProperties (graph : Graph) (id : VariantId) (properties : Properties) :
    SameShape (graph.setProperties id properties) graph := by
  refine ⟨rfl, fun v => ?_⟩
  rw [setProperties, variant_modifyVariant]
  split <;> rfl

end Graph

namespace Defaults

theorem sameShape_store (settled : ModuleId → Except PropertyError Properties) (build : Build)
    (id : ModuleId) : (store settled build id).graph.SameShape build.graph := by
  unfold store
  split
  · exact Graph.sameShape_setProperties ..
  · exact .refl _

theorem sameShape_foldl_store (settled : ModuleId → Except PropertyError Properties) (ids : List ModuleId)
    (build : Build) : (ids.foldl (store settled) build).graph.SameShape build.graph := by
  induction ids generalizing build with
  | nil => exact .refl _
  | cons id ids ih => exact (ih _).trans (sameShape_store settled build id)

theorem propagate_sameShape (registry : Registry) (types : TypeTable) (graph : Graph) :
    (propagate registry types graph).graph.SameShape graph := by
  simp only [propagate]
  split
  · exact sameShape_foldl_store ..
  · exact .refl _

/-! ## Merged properties are neat -/

section Neat
variable {depth : String → Nat} {graph : Graph}
  (hg : ∀ v, (graph.variant v).properties.NeatBy depth)

theorem neatBy_inherit {schema? : Option Schema} {merged inherited : Properties}
    (hm : merged.NeatBy depth) (hi : inherited.NeatBy depth) :
    (inherit schema? merged inherited).state.NeatBy depth := by
  unfold inherit
  cases schema? with
  | some schema => exact hm.appendMatching schema _ hi
  | none => exact hm.appendAt "" (((hi.erase _).erase _).erase _)

theorem neatBy_inheritAll {schema? : Option Schema} {settled : ModuleId → Except PropertyError Properties}
    (hs : ∀ id properties, settled id = .ok properties → properties.NeatBy depth) {ids : List ModuleId}
    {merged properties : Properties} (hm : merged.NeatBy depth)
    (h : inheritAll schema? settled merged ids = .ok properties) : properties.NeatBy depth := by
  induction ids generalizing merged with
  | nil => injection h with h; exact h ▸ hm
  | cons id ids ih =>
    unfold inheritAll at h
    obtain ⟨inherited, hi, h⟩ := bind_eq_ok h
    dsimp only at h
    split at h
    · exact ih (neatBy_inherit hm (hs id inherited hi)) h
    · cases h

include hg

theorem neatBy_settle {types : TypeTable} {taken : Digraph}
    {settled : ModuleId → Except PropertyError Properties}
    (hs : ∀ id properties, settled id = .ok properties → properties.NeatBy depth) {id : ModuleId}
    {properties : Properties} (h : settle types graph taken settled id = .ok properties) :
    properties.NeatBy depth := by
  have hown : (ownProperties graph id).NeatBy depth := hg _
  simp only [settle] at h
  split at h
  · injection h with h; exact h ▸ hown
  · obtain ⟨merged, hi, h⟩ := bind_eq_ok h
    have hmerged := neatBy_inheritAll hs neatBy_nil hi
    split at h
    · injection h with h
      exact h ▸ hmerged.appendAt "" hown
    · cases h

theorem neatBy_settleAll (types : TypeTable) (taken : Digraph) (ids : List ModuleId) (id : ModuleId)
    (properties : Properties) (h : (settleAll types graph taken ids).of graph id = .ok properties) :
    properties.NeatBy depth := by
  -- what was settled so far is neat, so what is settled next is
  suffices hall : ∀ settled : Settled,
      (∀ id properties, settled.of graph id = .ok properties → properties.NeatBy depth) →
      ∀ id properties, Settled.of graph (ids.foldl (fun settled id =>
        (id, settle types graph taken (settled.of graph) id) :: settled) settled) id = .ok properties →
        properties.NeatBy depth by
    refine hall [] ?_ id properties h
    intro id properties hp
    injection hp with hp
    exact hp ▸ hg _
  clear h
  induction ids with
  | nil => exact fun settled hs => hs
  | cons next ids ih =>
    intro settled hs
    refine ih _ ?_
    intro id properties hp
    unfold Settled.of at hp
    rw [List.lookup_cons] at hp
    split at hp
    · exact neatBy_settle hg hs hp
    · exact hs id properties hp

theorem neatBy_propagate (registry : Registry) (types : TypeTable) (v : VariantId) :
    ((propagate registry types graph).graph.variant v).properties.NeatBy depth := by
  have hstore : ∀ (settled : ModuleId → Except PropertyError Properties),
      (∀ id properties, settled id = .ok properties → properties.NeatBy depth) →
      ∀ (ids : List ModuleId) (build : Build), (∀ v, (build.graph.variant v).properties.NeatBy depth) →
      ∀ v, ((ids.foldl (store settled) build).graph.variant v).properties.NeatBy depth := by
    intro settled hs ids
    induction ids with
    | nil => exact fun _ hb => hb
    | cons id ids ih =>
      intro build hb
      refine ih _ fun v => ?_
      unfold store
      split
      · next properties hp =>
        show ((build.graph.setProperties _ properties).variant v).properties.NeatBy depth
        rw [Graph.setProperties, Graph.variant_modifyVariant]
        split
        · exact hs id properties hp
        · exact hb v
      · exact hb v
  simp only [propagate]
  split
  · exact hstore _ (fun id properties hp => neatBy_settleAll hg types _ _ id properties hp) _ _ hg v
  · exact hg v

end Neat

end Defaults
end VariantGraph
