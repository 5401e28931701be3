import VariantGraph.Graph.Waves
import VariantGraph.Proofs.Graph.Entries
import VariantGraph.Proofs.Graph.Waves
import VariantGraph.Proofs.Stage.Faces
import Mathlib.Logic.Equiv.Defs
/-!
# Graphs that differ in their numbers only

The numbers of modules and variants tell in which order they came into being and mean nothing else.
`Renamed σ φ a b` says that the second graph is the first one with `σ` on the numbers of modules and `φ`
on those of variants. It asks for nothing about targets and dependents: in consistent graphs these follow
(`Renamed.variant`, `Renamed.mem_dependents`), which is why it is easy to keep.
-/
namespace VariantGraph

/-! ## Other numbers -/

section Rename
variable (σ φ : Equiv.Perm Nat)

/-- A dependency with other numbers. -/
def Dependency.rename (dependency : Dependency) : Dependency :=
  { dependency with module := σ dependency.module, targets := dependency.targets.map φ }

/-- A variant with other numbers. -/
def Variant.rename (variant : Variant) : Variant :=
  { variant with
    module := σ variant.module
    dependencies := variant.dependencies.map (Dependency.rename σ φ) }

@[simp] theorem Variant.bare_rename (variant : Variant) : (variant.rename σ φ).bare = variant.bare.rename σ φ := by
  simp only [bare, rename, List.map_map]
  rfl

@[simp] theorem Variant.live_rename (variant : Variant) : (variant.rename σ φ).live = variant.live := rfl

@[simp] theorem Variant.module_rename (variant : Variant) : (variant.rename σ φ).module = σ variant.module := rfl

@[simp] theorem Variant.variations_rename (variant : Variant) :
    (variant.rename σ φ).variations = variant.variations := rfl

@[simp] theorem Variant.properties_rename (variant : Variant) :
    (variant.rename σ φ).properties = variant.properties := rfl

@[simp] theorem Variant.targets_rename (variant : Variant) :
    (variant.rename σ φ).targets = variant.targets.map φ := by
  simp only [targets, rename, List.flatMap_map, List.map_flatMap, Dependency.rename]

theorem Variant.rename_refl (variant : Variant) : variant.rename (Equiv.refl _) (Equiv.refl _) = variant := by
  have hd : Dependency.rename (Equiv.refl _) (Equiv.refl _) = id := by
    funext d
    simp [Dependency.rename]
  simp [rename, hd]

theorem Variant.rename_rename (σ' φ' : Equiv.Perm Nat) (variant : Variant) :
    (variant.rename σ φ).rename σ' φ' = variant.rename (σ.trans σ') (φ.trans φ') := by
  have hd : Dependency.rename σ' φ' ∘ Dependency.rename σ φ = Dependency.rename (σ.trans σ') (φ.trans φ') := by
    funext d
    simp only [Function.comp_apply, Dependency.rename, List.map_map]
    rfl
  simp only [rename, List.map_map, hd]
  rfl

/-- The children of a variant with other numbers are those of the variant, with other numbers. -/
theorem Variant.child_rename (variant : Variant) (axis value : String) (properties : Properties) :
    (variant.rename σ φ).child axis value properties = (variant.child axis value properties).rename σ φ := rfl

theorem Variant.link_rename (variant : Variant) (tag : Tag) (target : ModuleId) (property : String) :
    (variant.rename σ φ).link tag (σ target) property = (variant.link tag target property).rename σ φ := by
  have hon : ∀ d : Dependency, Graph.Dependency.isOn (d.rename σ φ) tag (σ target) =
      Graph.Dependency.isOn d tag target := fun d => by
    simp only [Graph.Dependency.isOn, Dependency.rename]
    congr 1
    exact decide_eq_decide.2 σ.injective.eq_iff
  have hmark : ∀ ds : List Dependency,
      (ds.map (Dependency.rename σ φ)).map (fun d =>
          if Graph.Dependency.isOn d tag (σ target) then { d with checked := true } else d) =
        (ds.map fun d => if Graph.Dependency.isOn d tag target then { d with checked := true } else d).map
          (Dependency.rename σ φ) := by
    intro ds
    rw [List.map_map, List.map_map]
    refine List.map_congr_left fun d _ => ?_
    simp only [Function.comp_apply, hon]
    split <;> rfl
  have hany : (variant.dependencies.map (Dependency.rename σ φ)).any (Graph.Dependency.isOn · tag (σ target)) =
      variant.dependencies.any (Graph.Dependency.isOn · tag target) := by
    simp only [List.any_map, Function.comp_def, hon]
  simp only [link, rename, hany, ← hmark]
  split
  · rfl
  · rw [List.map_append (f := Dependency.rename σ φ)]
    rfl

end Rename

/-- A permutation that leaves everything from a number on keeps the numbers below it. -/
theorem perm_lt_iff {π : Equiv.Perm Nat} {n : Nat} (h : ∀ k, n ≤ k → π k = k) {k : Nat} : π k < n ↔ k < n := by
  constructor
  · intro hk
    by_contra hge
    rw [h k (Nat.le_of_not_lt hge)] at hk
    exact hge hk
  · intro hk
    by_contra hge
    have hfix := π.injective (h (π k) (Nat.le_of_not_lt hge))
    rw [hfix] at hge
    exact hge hk

namespace Graph

/-- A live variant of a consistent graph is known by what it is without targets. -/
theorem Consistent.dependencies_eq {graph : Graph} (h : Consistent graph) {v : VariantId}
    (hv : graph.isLive v = true) : (graph.variant v).dependencies =
      (graph.variant v).bare.dependencies.map (graph.retarget (graph.variant v).variations) := by
  rw [Variant.bare, List.map_map]
  conv_lhs => rw [← List.map_id (graph.variant v).dependencies]
  refine List.map_congr_left fun d hd => ?_
  show d = { d with targets := graph.matching (graph.variant v).variations d.tag d.module }
  rw [← h.targets v hv d hd trivial]

/-- The second graph is the first one with other numbers, but for targets and dependents. -/
structure Renamed (σ φ : Equiv.Perm Nat) (a b : Graph) : Prop where
  modules : b.modules.length = a.modules.length
  variants : b.variants.length = a.variants.length
  /-- Numbers that are not taken yet stay. -/
  freeModules : ∀ m, a.modules.length ≤ m → σ m = m
  freeVariants : ∀ v, a.variants.length ≤ v → φ v = v
  header : ∀ m, (b.module (σ m)).header = (a.module m).header
  /-- Variants stand in the same order. -/
  rows : ∀ m, (b.module (σ m)).variants = (a.module m).variants.map φ
  bare : ∀ v < a.variants.length, (b.variant (φ v)).bare = (a.variant v).bare.rename σ φ

namespace Renamed

theorem refl (graph : Graph) : Renamed (Equiv.refl _) (Equiv.refl _) graph graph where
  modules := rfl
  variants := rfl
  freeModules _ _ := rfl
  freeVariants _ _ := rfl
  header _ := rfl
  rows m := by simp
  bare v _ := (Variant.rename_refl _).symm

variable {σ φ : Equiv.Perm Nat} {a b : Graph} (h : Renamed σ φ a b)
include h

theorem module_lt_iff {m : ModuleId} : σ m < a.modules.length ↔ m < a.modules.length := perm_lt_iff h.freeModules

theorem variant_lt_iff {v : VariantId} : φ v < a.variants.length ↔ v < a.variants.length :=
  perm_lt_iff h.freeVariants

theorem trans {σ' φ' : Equiv.Perm Nat} {c : Graph} (h' : Renamed σ' φ' b c) :
    Renamed (σ.trans σ') (φ.trans φ') a c where
  modules := h'.modules.trans h.modules
  variants := h'.variants.trans h.variants
  freeModules m hm := by
    rw [Equiv.trans_apply, h.freeModules m hm]
    exact h'.freeModules m (by rw [h.modules]; exact hm)
  freeVariants v hv := by
    rw [Equiv.trans_apply, h.freeVariants v hv]
    exact h'.freeVariants v (by rw [h.variants]; exact hv)
  header m := (h'.header _).trans (h.header m)
  rows m := by
    rw [Equiv.trans_apply, h'.rows, h.rows, List.map_map]
    rfl
  bare v hv := by
    rw [Equiv.trans_apply, h'.bare _ (by rw [h.variants]; exact h.variant_lt_iff.2 hv), h.bare v hv,
      Variant.rename_rename]

/-! ## Single variants -/

theorem variant_of_le {v : VariantId} (hv : a.variants.length ≤ v) :
    b.variant (φ v) = default ∧ a.variant v = default := by
  have hb : b.variants.length ≤ φ v := by rw [h.variants, h.freeVariants v hv]; exact hv
  simp only [Graph.variant, List.getD_eq_getElem?_getD, List.getElem?_eq_none hb, List.getElem?_eq_none hv,
    Option.getD_none, and_self]

theorem variations (v : VariantId) : (b.variant (φ v)).variations = (a.variant v).variations := by
  rcases Nat.lt_or_ge v a.variants.length with hv | hv
  · rw [← Variant.bare_variations, h.bare v hv, Variant.variations_rename, Variant.bare_variations]
  · rw [(h.variant_of_le hv).1, (h.variant_of_le hv).2]

theorem properties (v : VariantId) : (b.variant (φ v)).properties = (a.variant v).properties := by
  rcases Nat.lt_or_ge v a.variants.length with hv | hv
  · rw [← Variant.bare_properties, h.bare v hv, Variant.properties_rename, Variant.bare_properties]
  · rw [(h.variant_of_le hv).1, (h.variant_of_le hv).2]

theorem isLive (v : VariantId) : b.isLive (φ v) = a.isLive v := by
  rw [isLive_eq, isLive_eq]
  rcases Nat.lt_or_ge v a.variants.length with hv | hv
  · rw [← Variant.bare_live, h.bare v hv, Variant.live_rename, Variant.bare_live]
  · rw [(h.variant_of_le hv).1, (h.variant_of_le hv).2]

theorem owner {v : VariantId} (hv : v < a.variants.length) : (b.variant (φ v)).module = σ (a.variant v).module := by
  rw [← Variant.bare_module, h.bare v hv, Variant.module_rename, Variant.bare_module]

theorem moduleOf_header {v : VariantId} (hv : v < a.variants.length) :
    (b.moduleOf (φ v)).header = (a.moduleOf v).header := by
  unfold moduleOf
  rw [h.owner hv, h.header]

theorem can (m : ModuleId) (capability : Capability) :
    (b.module (σ m)).can capability = (a.module m).can capability := Module.can_congr (h.header m) capability

theorem perm_liveIds : b.liveIds.Perm (a.liveIds.map φ) := by
  refine (List.perm_ext_iff_of_nodup (nodup_liveIds b) ((nodup_liveIds a).map φ.injective)).2 fun v => ?_
  obtain ⟨u, rfl⟩ := φ.surjective v
  rw [mem_liveIds, h.isLive, List.mem_map_of_injective φ.injective, mem_liveIds]

/-! ## Targets and dependents -/

/-- What a tag leads to is found with the same numbers. -/
theorem matching (variations : Variations) (tag : Tag) (m : ModuleId) :
    b.matching variations tag (σ m) = (a.matching variations tag m).map φ := by
  unfold Graph.matching
  rw [h.rows, List.filter_map]
  congr 1
  refine List.filter_congr fun v _ => ?_
  rw [Function.comp_apply, h.variations]

/-- In consistent graphs live variants are the same altogether. -/
theorem variant (ha : Consistent a) (hb : Consistent b) {v : VariantId} (hv : a.isLive v = true) :
    b.variant (φ v) = (a.variant v).rename σ φ := by
  have hbare := h.bare v (lt_of_isLive hv)
  have hvb : b.isLive (φ v) = true := (h.isLive v).trans hv
  have hdeps : (b.variant (φ v)).dependencies = ((a.variant v).rename σ φ).dependencies := by
    rw [hb.dependencies_eq hvb, hbare, h.variations, Variant.rename, Variant.rename]
    conv_rhs => rw [ha.dependencies_eq hv]
    rw [List.map_map, List.map_map]
    refine List.map_congr_left fun d _ => ?_
    simp only [Function.comp_apply, retarget, Dependency.rename, h.matching]
  calc b.variant (φ v)
      = { (b.variant (φ v)).bare with dependencies := (b.variant (φ v)).dependencies } := rfl
    _ = { (a.variant v).bare.rename σ φ with dependencies := ((a.variant v).rename σ φ).dependencies } := by
      rw [hbare, hdeps]
    _ = (a.variant v).rename σ φ := rfl

theorem targets (ha : Consistent a) (hb : Consistent b) {v : VariantId} (hv : a.isLive v = true) :
    (b.variant (φ v)).targets = (a.variant v).targets.map φ := by
  rw [h.variant ha hb hv, Variant.targets_rename]

theorem mem_dependents (ha : Consistent a) (hb : Consistent b) {m : ModuleId} (hm : m < a.modules.length)
    (v : VariantId) : φ v ∈ (b.module (σ m)).dependents ↔ v ∈ (a.module m).dependents := by
  rw [hb.dependents _ (by rw [h.modules]; exact h.module_lt_iff.2 hm), ha.dependents m hm, h.isLive]
  refine and_congr_right fun hv => ?_
  rw [h.variant ha hb hv]
  simp [Variant.rename, Dependency.rename]

/-- Dependencies that lead nowhere are the same. -/
theorem missing_eq_nil (ha : Consistent a) (hb : Consistent b) : b.missing = [] ↔ a.missing = [] := by
  simp only [Graph.missing, List.flatMap_eq_nil_iff, List.map_eq_nil_iff, List.filter_eq_nil_iff, mem_liveIds]
  constructor
  · intro hnone v hv d hd
    have hmem : d.rename σ φ ∈ (b.variant (φ v)).dependencies := by
      rw [h.variant ha hb hv]
      exact List.mem_map_of_mem hd
    have := hnone (φ v) ((h.isLive v).trans hv) _ hmem
    rw [h.variations] at this
    simpa [Dependency.rename] using this
  · intro hnone w hw d hd
    obtain ⟨v, rfl⟩ := φ.surjective w
    have hv : a.isLive v = true := (h.isLive v).symm.trans hw
    rw [h.variant ha hb hv] at hd
    obtain ⟨d', hd', rfl⟩ := List.mem_map.1 hd
    have := hnone v hv d' hd'
    rw [h.variations]
    simpa [Dependency.rename] using this

/-! ## What is handed on -/

/-- The entries of a module do not depend on numbers. -/
theorem entries (ha : Consistent a) (hb : Consistent b) {registry registry' : Registry}
    (hr : ∀ own package, registry'.effectiveRules own package = registry.effectiveRules own package)
    (external : ExternalBuild) {m : ModuleId} (hm : m < a.modules.length) :
    b.entries registry' external (σ m) = a.entries registry external m := by
  have hhead := h.header m
  have hname := Module.name_congr hhead
  have htype := Module.moduleType_congr hhead
  have hpackage := Module.package_congr hhead
  unfold Graph.entries
  rw [h.rows, List.map_map]
  refine List.map_congr_left fun v hv => ?_
  have hlive := (ha.current m hm v hv).1
  rw [Function.comp_apply, h.variant ha hb hlive]
  have htarget : ∀ d ∈ (a.variant v).dependencies, ∀ t ∈ d.targets,
      ResolvedDependency.ofTarget b d.tag.role (φ t) = ResolvedDependency.ofTarget a d.tag.role t := by
    intro d hd t ht
    rw [ha.targets v hlive d hd trivial] at ht
    have hlt := lt_of_isLive (ha.current _ (ha.bound v hlive d hd) t (List.mem_filter.1 ht).1).1
    have ht := h.moduleOf_header hlt
    simp only [ResolvedDependency.ofTarget, h.variations, Module.name_congr ht, Module.package_congr ht]
  have hdeps : (((a.variant v).rename σ φ).dependencies.flatMap fun d =>
        d.targets.map (ResolvedDependency.ofTarget b d.tag.role)) =
      (a.variant v).dependencies.flatMap fun d => d.targets.map (ResolvedDependency.ofTarget a d.tag.role) := by
    rw [Variant.rename, List.flatMap_map]
    refine List.flatMap_congr fun d hd => ?_
    simp only [Dependency.rename, List.map_map]
    exact List.map_congr_left fun t ht => htarget d hd t ht
  have hchecked : ((a.variant v).rename σ φ).dependencies.all (·.checked) =
      (a.variant v).dependencies.all (·.checked) := by
    simp only [Variant.rename, List.all_map, Function.comp_def, Dependency.rename]
  have hstatus : external.status (b.module (σ m)) ((a.variant v).rename σ φ) =
      external.status (a.module m) (a.variant v) := by
    show external.status (b.module (σ m)).header (a.variant v) = external.status (a.module m).header (a.variant v)
    rw [hhead]
  simp only [ResolvedVariant.ofVariant, hdeps, hchecked, hstatus, hname, htype, hpackage, hr,
    Module.visibility_congr hhead, Variant.properties_rename, Variant.variations_rename]

theorem perm_moduleIds : b.moduleIds.Perm (a.moduleIds.map σ) := by
  unfold moduleIds
  refine (List.perm_ext_iff_of_nodup List.nodup_range (List.nodup_range.map σ.injective)).2 fun m => ?_
  obtain ⟨m, rfl⟩ := σ.surjective m
  rw [List.mem_map_of_injective σ.injective, List.mem_range, List.mem_range, h.modules, h.module_lt_iff]

/-- **What is handed on is the same**, in the order of the numbers. -/
theorem perm_resolved (ha : Consistent a) (hb : Consistent b) {registry registry' : Registry}
    (hr : ∀ own package, registry'.effectiveRules own package = registry.effectiveRules own package)
    (external : ExternalBuild) : (ResolvedGraph.ofGraph a registry external).variants.Perm
      (ResolvedGraph.ofGraph b registry' external).variants := by
  rw [variants_ofGraph, variants_ofGraph]
  refine List.Perm.trans (List.Perm.of_eq ?_) ((h.perm_moduleIds.symm.filter _).flatMap_right _)
  rw [List.filter_map, List.flatMap_map]
  simp only [Function.comp_def, h.can]
  refine List.flatMap_congr fun m hm => ?_
  exact (h.entries ha hb hr external (List.mem_range.1 (List.mem_filter.1 hm).1)).symm

end Renamed

end Graph
end VariantGraph
