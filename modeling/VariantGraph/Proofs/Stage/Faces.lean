import VariantGraph.Proofs.Graph.Split
/-!
# What a visit can see of a variant, and what it can do to it

A stage changes the variant it visits: its properties, its dependencies, and by a split how many of
it there are. All other variants only get other targets. So each operation is described here by what
it does to variants without their targets (`Variant.bare`) and to modules without their lists
(`Module.header`, which nothing changes).
-/
namespace VariantGraph

/-- A dependency without its targets. -/
def Dependency.bare (dependency : Dependency) : Dependency := { dependency with targets := [] }

/-- A variant without the targets of its dependencies. -/
def Variant.bare (variant : Variant) : Variant :=
  { variant with dependencies := variant.dependencies.map Dependency.bare }

/-- A module without its variants and dependents. -/
def Module.header (module : Module) : Module := { module with variants := [], dependents := [] }

/-- A variant with a checked dependency on a module; one with that tag is not doubled. -/
def Variant.link (variant : Variant) (tag : Tag) (target : ModuleId) (property : String) : Variant :=
  let dependencies :=
    if variant.dependencies.any (Graph.Dependency.isOn · tag target) then variant.dependencies
    else variant.dependencies ++ [⟨tag, target, property, [], true⟩]
  { variant with dependencies := dependencies.map fun dependency =>
      if Graph.Dependency.isOn dependency tag target then { dependency with checked := true }
      else dependency }

/-- A new variant that a split makes of a variant. -/
def Variant.child (variant : Variant) (axis value : String) (properties : Properties) : Variant :=
  { variant with variations := variant.variations.assign axis value, properties, live := true }

section Header
variable {a b : Module} (h : a.header = b.header)
include h

theorem Module.name_congr : a.name = b.name :=
  show a.header.name = b.header.name by rw [h]

theorem Module.package_congr : a.package = b.package :=
  show a.header.package = b.header.package by rw [h]

theorem Module.moduleType_congr : a.moduleType = b.moduleType :=
  show a.header.moduleType = b.header.moduleType by rw [h]

theorem Module.visibility_congr : a.visibility = b.visibility :=
  show a.header.visibility = b.header.visibility by rw [h]

theorem Module.can_congr (capability : Capability) : a.can capability = b.can capability :=
  show a.header.can capability = b.header.can capability by rw [h]

end Header

@[simp] theorem Variant.bare_module (variant : Variant) : variant.bare.module = variant.module := rfl
@[simp] theorem Variant.bare_variations (variant : Variant) :
    variant.bare.variations = variant.variations := rfl
@[simp] theorem Variant.bare_properties (variant : Variant) :
    variant.bare.properties = variant.properties := rfl
@[simp] theorem Variant.bare_live (variant : Variant) : variant.bare.live = variant.live := rfl

/-- Targets do not tell dependencies apart. -/
@[simp] theorem Variant.keys_bare (variant : Variant) :
    variant.bare.dependencies.map Dependency.key = variant.dependencies.map Dependency.key := by
  simp only [bare, List.map_map]; rfl

namespace Graph

variable {graph : Graph}

/-! ## Modules keep their headers -/

theorem header_addCheckedDependency (graph : Graph) (source : VariantId) (tag : Tag) (target : ModuleId)
    (property : String) (m : ModuleId) :
    ((graph.addCheckedDependency source tag target property).module m).header =
      (graph.module m).header := by
  rw [addCheckedDependency, markChecked, module_modifyVariant, addDependency]
  split
  · rfl
  · rw [module_modifyModule]
    split <;> rfl

theorem header_split (graph : Graph) (old : Nat) (axis : String) (values : List (String × Properties))
    {m : Nat} (hm : m < graph.modules.length) :
    ((graph.split old axis values).module m).header = (graph.module m).header := by
  by_cases hne : values = []
  · subst hne; rw [split_nil]
  · rw [split_eq_refresh hne, module_refresh, module_grow hm]; rfl

@[simp] theorem length_modules_addCheckedDependency (graph : Graph) (source : VariantId) (tag : Tag)
    (target : ModuleId) (property : String) :
    (graph.addCheckedDependency source tag target property).modules.length = graph.modules.length := by
  rw [addCheckedDependency, markChecked, modules_modifyVariant, length_modules_addDependency]

@[simp] theorem length_modules_split (graph : Graph) (old : VariantId) (axis : String)
    (values : List (String × Properties)) :
    (graph.split old axis values).modules.length = graph.modules.length := by
  by_cases hne : values = []
  · subst hne; rw [split_nil]
  · rw [split_eq_refresh hne, modules_refresh, length_modules_grow]

/-! ## Properties and dependencies change on one variant -/

theorem bare_setProperties {id : Nat} (hl : graph.isLive id = true) (properties : Properties) (v : Nat) :
    ((graph.setProperties id properties).variant v).bare =
      if v = id then { (graph.variant id).bare with properties } else (graph.variant v).bare := by
  rw [setProperties, variant_modifyVariant]
  by_cases he : v = id
  · subst he; rw [if_pos ⟨rfl, lt_of_isLive hl⟩, if_pos rfl]; rfl
  · rw [if_neg fun h => he h.1, if_neg he]

theorem isLive_setProperties (graph : Graph) (id : Nat) (properties : Properties) (v : Nat) :
    (graph.setProperties id properties).isLive v = graph.isLive v := by
  rw [isLive_eq, isLive_eq, setProperties, variant_modifyVariant]
  split <;> rfl

theorem isLive_addCheckedDependency (graph : Graph) (source : Nat) (tag : Tag) (target : Nat)
    (property : String) (v : Nat) :
    (graph.addCheckedDependency source tag target property).isLive v = graph.isLive v := by
  have hmark : (graph.addCheckedDependency source tag target property).isLive v =
      (graph.addDependency source tag target property).isLive v := by
    rw [isLive_eq, isLive_eq, addCheckedDependency, markChecked, variant_modifyVariant]
    split <;> rfl
  rw [hmark, isLive_addDependency]

theorem isOn_bare (dependency : Dependency) (tag : Tag) (target : ModuleId) :
    Dependency.isOn dependency.bare tag target = Dependency.isOn dependency tag target := rfl

theorem bare_addCheckedDependency {source : Nat} (hl : graph.isLive source = true) (tag : Tag)
    (target : Nat) (property : String) (v : Nat) :
    ((graph.addCheckedDependency source tag target property).variant v).bare =
      if v = source then (graph.variant source).bare.link tag target property
      else (graph.variant v).bare := by
  rw [addCheckedDependency, markChecked, variant_modifyVariant]
  have hlive : (graph.addDependency source tag target property).isLive source = graph.isLive source :=
    isLive_addDependency property source
  by_cases he : v = source
  · subst he
    rw [if_pos ⟨rfl, lt_of_isLive (hlive.trans hl)⟩, if_pos rfl]
    have hany : (graph.variant v).bare.dependencies.any (Dependency.isOn · tag target) =
        graph.hasDependency v tag target := by
      rw [hasDependency, Variant.bare, List.any_map]; rfl
    have hmark : ∀ ds : List Dependency,
        (ds.map fun d => if Dependency.isOn d tag target then { d with checked := true } else d).map
            Dependency.bare =
          (ds.map Dependency.bare).map fun d =>
            if Dependency.isOn d tag target then { d with checked := true } else d := by
      intro ds
      rw [List.map_map, List.map_map]
      apply List.map_congr_left
      intro d _
      simp only [Function.comp_apply]
      rw [isOn_bare]
      by_cases hd : Dependency.isOn d tag target = true
      · rw [if_pos hd, if_pos hd]; rfl
      · rw [if_neg hd, if_neg hd]
    unfold Variant.link
    rw [hany]
    cases hn : graph.hasDependency v tag target with
    | true =>
      rw [addDependency_of_has property hn]
      simp only [Variant.bare, hmark, if_true]
    | false =>
      rw [variant_addDependency property hl hn, if_pos rfl]
      simp only [Variant.bare, hmark, Bool.false_eq_true, if_false, List.map_append, List.map_cons,
        List.map_nil]
      simp [Dependency.bare, Dependency.isOn]
  · rw [if_neg fun h => he h.1, if_neg he]
    cases hn : graph.hasDependency source tag target with
    | true => rw [addDependency_of_has property hn]
    | false => rw [variant_addDependency property hl hn, if_neg he]

/-! ## A split retires one variant and makes others like it -/

theorem bare_refresh (graph : Graph) (m v : Nat) :
    ((graph.refresh m).variant v).bare = (graph.variant v).bare := by
  rw [variant_refresh]
  split
  · simp only [Variant.bare, refreshed, List.map_map]
    congr 1
    apply List.map_congr_left
    intro d _
    simp only [Function.comp_apply]
    split <;> rfl
  · rfl

theorem isLive_refresh (graph : Graph) (m v : Nat) : (graph.refresh m).isLive v = graph.isLive v := by
  rw [isLive_eq, isLive_eq, (sameKeys_refresh graph m v).live]

theorem bare_derive (graph : Graph) (parent : Variant) (axis value : String) (properties : Properties) :
    (graph.derive parent axis value properties).bare = parent.bare.child axis value properties := by
  simp only [derive, Variant.bare, Variant.child, List.map_map]
  rfl

section Split
variable {old : Nat} {axis : String} {values : List (String × Properties)} (hne : values ≠ [])
include hne

theorem isLive_split_of_ne {v : Nat} (hl : graph.isLive v = true) (hv : v ≠ old) :
    (graph.split old axis values).isLive v = true := by
  rw [split_eq_refresh hne, isLive_refresh]
  exact (isLive_grow axis).2 (Or.inl ⟨hl, hv⟩)

theorem bare_split_of_ne {v : Nat} (hl : graph.isLive v = true) (hv : v ≠ old) :
    ((graph.split old axis values).variant v).bare = (graph.variant v).bare := by
  rw [split_eq_refresh hne, bare_refresh, variant_grow_of_isLive axis hl hv]

/-- What is live after a split was live before or is a new variant for one of the values. -/
theorem cases_of_isLive_split {v : Nat} (h : (graph.split old axis values).isLive v = true) :
    (graph.isLive v = true ∧ v ≠ old) ∨ ∃ value properties, (value, properties) ∈ values ∧
      ((graph.split old axis values).variant v).bare =
        (graph.variant old).bare.child axis value properties := by
  rw [split_eq_refresh hne, isLive_refresh] at h
  rcases (isLive_grow axis).1 h with h | hc
  · exact Or.inl h
  · obtain ⟨value, properties, hmem, he⟩ := exists_derive axis old hc
    refine Or.inr ⟨value, properties, hmem, ?_⟩
    rw [split_eq_refresh hne, bare_refresh, he, bare_derive]

/-- Every value has a new variant. -/
theorem exists_child_split (old : Nat) (axis : String) {value : String} {properties : Properties}
    (h : (value, properties) ∈ values) :
    ∃ v, graph.isLive v = false ∧ (graph.split old axis values).isLive v = true ∧
      ((graph.split old axis values).variant v).bare =
        (graph.variant old).bare.child axis value properties := by
  obtain ⟨k, hk, he⟩ := List.getElem_of_mem h
  refine ⟨graph.variants.length + k, ?_, ?_, ?_⟩
  · rw [Bool.eq_false_iff]
    intro hl
    have := lt_of_isLive hl
    omega
  · rw [split_eq_refresh hne, isLive_refresh]
    exact (isLive_grow axis).2 (Or.inr (mem_createdBy.2 ⟨by omega, by omega⟩))
  · rw [split_eq_refresh hne, bare_refresh, variant_grow_created hk, bare_derive, he]

end Split

end Graph
end VariantGraph
