import VariantGraph.Proofs.Graph.Access
/-!
# Consistent graphs: targets kept up to date equal targets found from scratch

Targets are stored with each dependency and only brought up to date for the neighbours of a module
that is split, which are found through its list of dependents. `Consistent` says that nothing is ever
missed: every live variant's targets are what `matching` gives for the graph as it stands, the lists
of dependents and of variants are exact, and no two dependencies of a variant have one module and one
tag. It is cut in two, since a split breaks the targets on the split module and mends them last:
`Linked` is everything but the targets, `TargetsOn` the targets on some modules. This file has the
operations that split nothing.
-/
namespace VariantGraph

/-- What tells the dependencies of a variant apart. -/
def Dependency.key (dependency : Dependency) : ModuleId × Tag := (dependency.module, dependency.tag)

/-- A dependency but for where it comes from and what was found about it. -/
def Dependency.link (dependency : Dependency) : ModuleId × Tag × List VariantId :=
  (dependency.module, dependency.tag, dependency.targets)

namespace Graph

/-- Modules, variants and dependencies list each other exactly. -/
structure Linked (graph : Graph) : Prop where
  owner : ∀ v, graph.isLive v = true → (graph.variant v).module < graph.modules.length
  bound : ∀ v, graph.isLive v = true → ∀ d ∈ (graph.variant v).dependencies, d.module < graph.modules.length
  /-- The dependents of a module are the live variants that hold a dependency on it. -/
  dependents : ∀ m < graph.modules.length, ∀ v, v ∈ (graph.module m).dependents ↔
    graph.isLive v = true ∧ ∃ d ∈ (graph.variant v).dependencies, d.module = m
  listed : ∀ v, graph.isLive v = true → v ∈ (graph.moduleOf v).variants
  /-- No module lists a retired variant, or one of another module. -/
  current : ∀ m < graph.modules.length, ∀ v ∈ (graph.module m).variants,
    graph.isLive v = true ∧ (graph.variant v).module = m
  once : ∀ m < graph.modules.length, (graph.module m).variants.Nodup
  inhabited : ∀ m < graph.modules.length, (graph.module m).variants ≠ []
  distinct : ∀ v, graph.isLive v = true → ((graph.variant v).dependencies.map Dependency.key).Nodup

/-- The targets on some modules are those that the graph as it stands gives. -/
def TargetsOn (graph : Graph) (p : ModuleId → Prop) : Prop :=
  ∀ v, graph.isLive v = true → ∀ d ∈ (graph.variant v).dependencies, p d.module →
    d.targets = graph.matching (graph.variant v).variations d.tag d.module

structure Consistent (graph : Graph) : Prop extends Linked graph where
  targets : TargetsOn graph fun _ => True

variable {graph : Graph}

/-! ## What the targets depend on -/

/-- Targets only depend on the list of the module and on the variations of what it lists. -/
theorem matching_congr {graph graph' : Graph} {m : Nat} (variations : Variations) (tag : Tag)
    (hm : (graph'.module m).variants = (graph.module m).variants)
    (hv : ∀ t ∈ (graph.module m).variants, (graph'.variant t).variations = (graph.variant t).variations) :
    graph'.matching variations tag m = graph.matching variations tag m := by
  unfold matching
  rw [hm]
  apply List.filter_congr
  intro t ht
  rw [hv t ht]

/-- Two variants with the same place in the graph and dependencies with the same keys. -/
structure SameKeys (a b : Variant) : Prop where
  module : a.module = b.module
  live : a.live = b.live
  keys : a.dependencies.map Dependency.key = b.dependencies.map Dependency.key

theorem SameKeys.symm {a b : Variant} (h : SameKeys a b) : SameKeys b a :=
  ⟨h.module.symm, h.live.symm, h.keys.symm⟩

theorem SameKeys.mem {a b : Variant} (h : SameKeys a b) {d : Dependency} (hd : d ∈ a.dependencies) :
    ∃ d' ∈ b.dependencies, d'.module = d.module ∧ d'.tag = d.tag := by
  have hm := List.mem_map_of_mem (f := Dependency.key) hd
  rw [h.keys, List.mem_map] at hm
  obtain ⟨d', hd', he⟩ := hm
  simp only [Dependency.key, Prod.mk.injEq] at he
  exact ⟨d', hd', he⟩

/-- Only the keys of dependencies matter to the lists. -/
theorem Linked.congr {graph graph' : Graph} (h : Linked graph) (hm : graph'.modules = graph.modules)
    (hv : ∀ v, SameKeys (graph'.variant v) (graph.variant v)) : Linked graph' := by
  have live : ∀ v, graph'.isLive v = graph.isLive v := fun v => by
    rw [isLive_eq, isLive_eq, (hv v).live]
  have mod : ∀ m, graph'.module m = graph.module m := module_congr hm
  refine ⟨?_, ?_, ?_, ?_, ?_, ?_, ?_, ?_⟩
  · intro v hl
    rw [(hv v).module, hm]; exact h.owner v (live v ▸ hl)
  · intro v hl d hd
    obtain ⟨d', hd', he, -⟩ := (hv v).mem hd
    rw [hm, ← he]; exact h.bound v (live v ▸ hl) d' hd'
  · intro m hlt v
    rw [mod, h.dependents m (hm ▸ hlt), live]
    apply and_congr_right
    intro _
    constructor
    · rintro ⟨d, hd, rfl⟩
      obtain ⟨d', hd', he, -⟩ := (hv v).symm.mem hd
      exact ⟨d', hd', he⟩
    · rintro ⟨d, hd, rfl⟩
      obtain ⟨d', hd', he, -⟩ := (hv v).mem hd
      exact ⟨d', hd', he⟩
  · intro v hl
    unfold moduleOf
    rw [mod, (hv v).module]; exact h.listed v (live v ▸ hl)
  · intro m hlt v hmem
    rw [live, (hv v).module]
    exact h.current m (hm ▸ hlt) v (mod m ▸ hmem)
  · intro m hlt
    rw [mod]; exact h.once m (hm ▸ hlt)
  · intro m hlt
    rw [mod]; exact h.inhabited m (hm ▸ hlt)
  · intro v hl
    rw [(hv v).keys]; exact h.distinct v (live v ▸ hl)

/-- Two variants that differ in properties and checks only. -/
structure SameLinks (a b : Variant) : Prop where
  module : a.module = b.module
  variations : a.variations = b.variations
  live : a.live = b.live
  links : a.dependencies.map Dependency.link = b.dependencies.map Dependency.link

theorem SameLinks.sameKeys {a b : Variant} (h : SameLinks a b) : SameKeys a b := by
  have hk : Dependency.key = (fun l => (l.1, l.2.1)) ∘ Dependency.link := rfl
  exact ⟨h.module, h.live, by rw [hk, ← List.map_map, h.links, List.map_map]⟩

/-- Properties and checks do not matter to consistency. -/
theorem Consistent.congr {graph graph' : Graph} (h : Consistent graph) (hm : graph'.modules = graph.modules)
    (hv : ∀ v, SameLinks (graph'.variant v) (graph.variant v)) : Consistent graph' := by
  refine ⟨h.toLinked.congr hm fun v => (hv v).sameKeys, ?_⟩
  intro v hl d hd _
  have hlink := List.mem_map_of_mem (f := Dependency.link) hd
  rw [(hv v).links, List.mem_map] at hlink
  obtain ⟨d', hd', he⟩ := hlink
  simp only [Dependency.link, Prod.mk.injEq] at he
  obtain ⟨hmod, htag, htargets⟩ := he
  rw [isLive_eq, (hv v).live, ← isLive_eq] at hl
  rw [← htargets, h.targets v hl d' hd' trivial, hmod, htag, (hv v).variations]
  exact (matching_congr _ _ (by rw [module_congr hm]) fun t _ => (hv t).variations).symm

/-- Targets are current variants of the module that is depended on. -/
theorem Consistent.mem_targets (h : Consistent graph) {v : VariantId} (hv : graph.isLive v = true)
    {d : Dependency} (hd : d ∈ (graph.variant v).dependencies) {t : VariantId} (ht : t ∈ d.targets) :
    t ∈ (graph.module d.module).variants ∧ graph.isLive t = true ∧ (graph.variant t).module = d.module := by
  rw [h.targets v hv d hd trivial] at ht
  have hmem := (List.mem_filter.1 ht).1
  exact ⟨hmem, h.current _ (h.bound v hv d hd) t hmem⟩

/-! ## Properties and checks -/

theorem Consistent.setProperties (h : Consistent graph) (id : VariantId) (properties : Properties) :
    Consistent (graph.setProperties id properties) := by
  refine h.congr rfl fun v => ?_
  rw [Graph.setProperties, variant_modifyVariant]
  split <;> exact ⟨rfl, rfl, rfl, rfl⟩

theorem Consistent.markChecked (h : Consistent graph) (source : VariantId) (tag : Tag) (target : ModuleId) :
    Consistent (graph.markChecked source tag target) := by
  refine h.congr rfl fun v => ?_
  rw [Graph.markChecked, variant_modifyVariant]
  split
  · refine ⟨rfl, rfl, rfl, ?_⟩
    rw [List.map_map]
    apply List.map_congr_left
    intro d _
    simp only [Function.comp_apply]
    split <;> rfl
  · exact ⟨rfl, rfl, rfl, rfl⟩

/-! ## Adding a module -/

theorem isLive_addModule (module : Module) (properties : Properties) (v : Nat) :
    (graph.addModule module properties).isLive v = true ↔ v = graph.variants.length ∨ graph.isLive v = true := by
  rw [isLive_eq, variant_addModule, isLive_eq]
  split <;> simp_all

section AddModule
variable (module : Module) (properties : Properties)

theorem variant_addModule_new : (graph.addModule module properties).variant graph.variants.length =
    ⟨graph.modules.length, [], properties, [], true⟩ := by rw [variant_addModule, if_pos rfl]

theorem module_addModule_new : (graph.addModule module properties).module graph.modules.length =
    { module with variants := [graph.variants.length], dependents := [] } := by
  rw [module_addModule, if_pos rfl]

/-- A number that was live before is not the new one. -/
theorem variant_addModule_of_isLive {v : Nat} (hl : graph.isLive v = true) :
    (graph.addModule module properties).variant v = graph.variant v := by
  have := lt_of_isLive hl
  rw [variant_addModule, if_neg (by omega)]

theorem module_addModule_of_lt {m : Nat} (hm : m < graph.modules.length) :
    (graph.addModule module properties).module m = graph.module m := by
  rw [module_addModule, if_neg (by omega)]

theorem lt_or_eq_of_lt_addModule {m : Nat} (hm : m < (graph.addModule module properties).modules.length) :
    m < graph.modules.length ∨ m = graph.modules.length := by
  rw [length_modules_addModule] at hm
  exact Nat.lt_succ_iff_lt_or_eq.1 hm

/-- All dependencies are old ones. -/
theorem mem_dependencies_addModule {v : Nat} {d : Dependency}
    (hl : (graph.addModule module properties).isLive v = true)
    (hd : d ∈ ((graph.addModule module properties).variant v).dependencies) :
    graph.isLive v = true ∧ d ∈ (graph.variant v).dependencies := by
  rcases (isLive_addModule ..).1 hl with rfl | hl
  · rw [variant_addModule_new] at hd; cases hd
  · exact ⟨hl, by rwa [variant_addModule_of_isLive module properties hl] at hd⟩

theorem Linked.dependents_addModule (h : Linked graph) {m : Nat}
    (hm : m < (graph.addModule module properties).modules.length) (v : Nat) :
    v ∈ ((graph.addModule module properties).module m).dependents ↔
      (graph.addModule module properties).isLive v = true ∧
        ∃ d ∈ ((graph.addModule module properties).variant v).dependencies, d.module = m := by
  rcases lt_or_eq_of_lt_addModule module properties hm with hm | rfl
  · rw [module_addModule_of_lt module properties hm, h.dependents m hm]
    constructor
    · rintro ⟨hl, hd⟩
      exact ⟨(isLive_addModule ..).2 (Or.inr hl), by rwa [variant_addModule_of_isLive module properties hl]⟩
    · rintro ⟨hl, d, hd, he⟩
      obtain ⟨hold, hd⟩ := mem_dependencies_addModule module properties hl hd
      exact ⟨hold, d, hd, he⟩
  · rw [module_addModule_new]
    refine ⟨fun hv => absurd hv List.not_mem_nil, ?_⟩
    rintro ⟨hl, d, hd, he⟩
    obtain ⟨hold, hd⟩ := mem_dependencies_addModule module properties hl hd
    exact absurd (h.bound v hold d hd) (by rw [he]; exact Nat.lt_irrefl _)

theorem Linked.current_addModule (h : Linked graph) {m : Nat}
    (hm : m < (graph.addModule module properties).modules.length) {v : Nat}
    (hv : v ∈ ((graph.addModule module properties).module m).variants) :
    (graph.addModule module properties).isLive v = true ∧
      ((graph.addModule module properties).variant v).module = m := by
  rcases lt_or_eq_of_lt_addModule module properties hm with hm | rfl
  · rw [module_addModule_of_lt module properties hm] at hv
    obtain ⟨hl, he⟩ := h.current m hm v hv
    exact ⟨(isLive_addModule ..).2 (Or.inr hl), by rwa [variant_addModule_of_isLive module properties hl]⟩
  · rw [module_addModule_new] at hv
    obtain rfl := List.mem_singleton.1 hv
    exact ⟨(isLive_addModule ..).2 (Or.inl rfl), by rw [variant_addModule_new]⟩

theorem Linked.addModule (h : Linked graph) : Linked (graph.addModule module properties) where
  owner v hl := by
    rw [length_modules_addModule]
    rcases (isLive_addModule ..).1 hl with rfl | hl
    · rw [variant_addModule_new]; exact Nat.lt_succ_self _
    · rw [variant_addModule_of_isLive module properties hl]; exact Nat.lt_succ_of_lt (h.owner v hl)
  bound v hl d hd := by
    rw [length_modules_addModule]
    obtain ⟨hold, hd⟩ := mem_dependencies_addModule module properties hl hd
    exact Nat.lt_succ_of_lt (h.bound v hold d hd)
  dependents m hm := h.dependents_addModule module properties hm
  listed v hl := by
    unfold moduleOf
    rcases (isLive_addModule ..).1 hl with rfl | hl
    · rw [variant_addModule_new, module_addModule_new]; exact List.mem_singleton.2 rfl
    · rw [variant_addModule_of_isLive module properties hl,
        module_addModule_of_lt module properties (h.owner v hl)]
      exact h.listed v hl
  current m hm v hv := h.current_addModule module properties hm hv
  once m hm := by
    rcases lt_or_eq_of_lt_addModule module properties hm with hm | rfl
    · rw [module_addModule_of_lt module properties hm]; exact h.once m hm
    · rw [module_addModule_new]; simp
  inhabited m hm := by
    rcases lt_or_eq_of_lt_addModule module properties hm with hm | rfl
    · rw [module_addModule_of_lt module properties hm]; exact h.inhabited m hm
    · rw [module_addModule_new]; exact List.cons_ne_nil _ _
  distinct v hl := by
    rcases (isLive_addModule ..).1 hl with rfl | hl
    · rw [variant_addModule_new]; exact List.nodup_nil
    · rw [variant_addModule_of_isLive module properties hl]; exact h.distinct v hl

theorem Consistent.addModule (h : Consistent graph) : Consistent (graph.addModule module properties) := by
  refine ⟨h.toLinked.addModule module properties, fun v hl d hd _ => ?_⟩
  obtain ⟨hold, hd⟩ := mem_dependencies_addModule module properties hl hd
  rw [h.targets v hold d hd trivial, variant_addModule_of_isLive module properties hold]
  have hm := h.bound v hold d hd
  exact (matching_congr _ _ (by rw [module_addModule_of_lt module properties hm]) fun t ht => by
    rw [variant_addModule_of_isLive module properties (h.current d.module hm t ht).1]).symm

end AddModule

/-! ## Adding a dependency -/

theorem addDependency_of_has {source target : Nat} {tag : Tag} (property : String)
    (h : graph.hasDependency source tag target = true) :
    graph.addDependency source tag target property = graph := by
  rw [addDependency, if_pos h]

theorem hasDependency_iff {source target : Nat} {tag : Tag} :
    graph.hasDependency source tag target = true ↔
      (target, tag) ∈ (graph.variant source).dependencies.map Dependency.key := by
  simp [hasDependency, Dependency.isOn, Dependency.key]

/-- A number put at the end of a list unless it is there. -/
theorem mem_ensure {x v : Nat} (l : List Nat) : v ∈ (if x ∈ l then l else l ++ [x]) ↔ v ∈ l ∨ v = x := by
  split
  · next h => exact ⟨Or.inl, fun hv => hv.elim id fun he => he ▸ h⟩
  · simp

section AddDependency
variable {source target : Nat} {tag : Tag} (property : String)

theorem variant_addDependency (hs : graph.isLive source = true)
    (hn : graph.hasDependency source tag target = false) (v : Nat) :
    (graph.addDependency source tag target property).variant v =
      if v = source then
        { graph.variant source with
          dependencies := (graph.variant source).dependencies ++
            [⟨tag, target, property, graph.matching (graph.variant source).variations tag target, false⟩] }
      else graph.variant v := by
  have hlt := lt_of_isLive hs
  simp only [addDependency, hn, Bool.false_eq_true, if_false, variant_modifyModule,
    variant_modifyVariant]
  by_cases he : v = source
  · subst he; simp [hlt]
  · simp [he]

theorem module_addDependency (ht : target < graph.modules.length)
    (hn : graph.hasDependency source tag target = false) (m : Nat) :
    (graph.addDependency source tag target property).module m =
      if m = target then
        { graph.module target with
          dependents := if source ∈ (graph.module target).dependents then (graph.module target).dependents
            else (graph.module target).dependents ++ [source] }
      else graph.module m := by
  rw [addDependency, if_neg (by simp [hn])]
  by_cases he : m = target
  · rw [if_pos he, module_modifyModule, if_pos ⟨he, he ▸ ht⟩, he]; rfl
  · rw [if_neg he, module_modifyModule, if_neg fun h => he h.1]; rfl

@[simp] theorem length_modules_addDependency :
    (graph.addDependency source tag target property).modules.length = graph.modules.length := by
  unfold addDependency; split <;> simp

theorem isLive_addDependency (v : Nat) :
    (graph.addDependency source tag target property).isLive v = graph.isLive v := by
  unfold addDependency
  split
  · rfl
  · rw [isLive_eq, isLive_eq, variant_modifyModule, variant_modifyVariant]
    split <;> rfl

theorem variants_addDependency (ht : target < graph.modules.length)
    (hn : graph.hasDependency source tag target = false) (m : Nat) :
    ((graph.addDependency source tag target property).module m).variants = (graph.module m).variants := by
  rw [module_addDependency property ht hn]; split <;> simp_all

section New
variable (hs : graph.isLive source = true) (hn : graph.hasDependency source tag target = false)
include hs hn

/-- A new dependency comes behind the old ones of its variant, with all that matches now. -/
theorem mem_dependencies_addDependency {v : Nat} {d : Dependency} :
    d ∈ ((graph.addDependency source tag target property).variant v).dependencies ↔
      d ∈ (graph.variant v).dependencies ∨ v = source ∧
        d = ⟨tag, target, property, graph.matching (graph.variant source).variations tag target, false⟩ := by
  rw [variant_addDependency property hs hn]
  by_cases he : v = source
  · subst he; simp
  · simp [he]

theorem variations_addDependency (v : Nat) :
    ((graph.addDependency source tag target property).variant v).variations = (graph.variant v).variations := by
  rw [variant_addDependency property hs hn]; split <;> simp_all

theorem owner_addDependency (v : Nat) :
    ((graph.addDependency source tag target property).variant v).module = (graph.variant v).module := by
  rw [variant_addDependency property hs hn]; split <;> simp_all

theorem nodup_addDependency (v : Nat) (h : ((graph.variant v).dependencies.map Dependency.key).Nodup) :
    (((graph.addDependency source tag target property).variant v).dependencies.map Dependency.key).Nodup := by
  rw [variant_addDependency property hs hn]
  by_cases he : v = source
  · subst he
    have hnew : (target, tag) ∉ (graph.variant v).dependencies.map Dependency.key := by
      rw [← hasDependency_iff, hn]; exact Bool.false_ne_true
    rw [if_pos rfl, List.map_append, List.nodup_append]
    refine ⟨h, by simp, ?_⟩
    rintro k hk k' hk' rfl
    obtain rfl := List.mem_singleton.1 hk'
    exact hnew hk
  · rw [if_neg he]; exact h

variable (ht : target < graph.modules.length)
include ht

theorem Linked.dependents_addDependency (h : Linked graph) {m : Nat} (hm : m < graph.modules.length) (v : Nat) :
    v ∈ ((graph.addDependency source tag target property).module m).dependents ↔
      graph.isLive v = true ∧
        ∃ d ∈ ((graph.addDependency source tag target property).variant v).dependencies, d.module = m := by
  have hold := h.dependents m hm v
  rw [module_addDependency property ht hn]
  simp only [mem_dependencies_addDependency property hs hn]
  by_cases he : m = target
  · subst he
    rw [if_pos rfl]
    refine (mem_ensure (graph.module m).dependents).trans ?_
    rw [hold]
    constructor
    · rintro (⟨hl, d, hd, he⟩ | rfl)
      · exact ⟨hl, d, Or.inl hd, he⟩
      · exact ⟨hs, _, Or.inr ⟨rfl, rfl⟩, rfl⟩
    · rintro ⟨hl, d, hd | ⟨rfl, rfl⟩, he⟩
      · exact Or.inl ⟨hl, d, hd, he⟩
      · exact Or.inr rfl
  · rw [if_neg he, hold]
    constructor
    · rintro ⟨hl, d, hd, hd'⟩; exact ⟨hl, d, Or.inl hd, hd'⟩
    · rintro ⟨hl, d, hd | ⟨rfl, rfl⟩, hd'⟩
      · exact ⟨hl, d, hd, hd'⟩
      · exact absurd hd'.symm he

theorem Linked.addDependency (h : Linked graph) :
    Linked (graph.addDependency source tag target property) where
  owner v hl := by
    rw [isLive_addDependency] at hl
    rw [owner_addDependency property hs hn, length_modules_addDependency]; exact h.owner v hl
  bound v hl d hd := by
    rw [isLive_addDependency] at hl
    rw [length_modules_addDependency]
    rcases (mem_dependencies_addDependency property hs hn).1 hd with hd | ⟨-, rfl⟩
    · exact h.bound v hl d hd
    · exact ht
  dependents m hm v := by
    rw [length_modules_addDependency] at hm
    rw [isLive_addDependency]
    exact h.dependents_addDependency property hs hn ht hm v
  listed v hl := by
    rw [isLive_addDependency] at hl
    unfold moduleOf
    rw [owner_addDependency property hs hn, variants_addDependency property ht hn]; exact h.listed v hl
  current m hm v hv := by
    rw [length_modules_addDependency] at hm
    rw [variants_addDependency property ht hn] at hv
    rw [isLive_addDependency, owner_addDependency property hs hn]
    exact h.current m hm v hv
  once m hm := by
    rw [variants_addDependency property ht hn]; exact h.once m (by simpa using hm)
  inhabited m hm := by
    rw [variants_addDependency property ht hn]; exact h.inhabited m (by simpa using hm)
  distinct v hl := by
    rw [isLive_addDependency] at hl
    exact nodup_addDependency property hs hn v (h.distinct v hl)

end New

theorem Consistent.addDependency (h : Consistent graph) (hs : graph.isLive source = true)
    (ht : target < graph.modules.length) :
    Consistent (graph.addDependency source tag target property) := by
  cases hn : graph.hasDependency source tag target with
  | true => rw [addDependency_of_has property hn]; exact h
  | false =>
    refine ⟨h.toLinked.addDependency property hs hn ht, fun v hl d hd _ => ?_⟩
    rw [isLive_addDependency] at hl
    rw [matching_congr _ _ (variants_addDependency property ht hn _) fun t _ =>
      variations_addDependency property hs hn t, variations_addDependency property hs hn]
    rcases (mem_dependencies_addDependency property hs hn).1 hd with hd | ⟨rfl, rfl⟩
    · exact h.targets v hl d hd trivial
    · rfl

end AddDependency

theorem Consistent.addCheckedDependency (h : Consistent graph) {source target : Nat} (tag : Tag)
    (property : String) (hs : graph.isLive source = true) (ht : target < graph.modules.length) :
    Consistent (graph.addCheckedDependency source tag target property) :=
  (h.addDependency property hs ht).markChecked ..

end Graph
end VariantGraph
