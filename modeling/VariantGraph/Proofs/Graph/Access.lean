import VariantGraph.Graph.Split
/-!
# What the operations of a graph do to its modules and variants

For every operation, what stands under each number afterwards. A split is a `grow` (the old variant is
retired, the new ones are appended, the lists of modules are updated) followed by a `refresh` of the
targets on the module that was split; the lemmas treat the two halves apart.
-/
namespace VariantGraph.Graph

variable {graph : Graph}

/-! ## Live variants -/

theorem isLive_eq (graph : Graph) (id : Nat) : graph.isLive id = (graph.variant id).live := by
  unfold isLive variant? variant
  rw [List.getD_eq_getElem?_getD]
  cases graph.variants[id]? <;> rfl

theorem lt_of_isLive {id : Nat} (h : graph.isLive id = true) : id < graph.variants.length := by
  unfold isLive variant? at h
  rcases Nat.lt_or_ge id graph.variants.length with hlt | hge
  · exact hlt
  · rw [List.getElem?_eq_none hge] at h; cases h

theorem mem_liveIds {id : Nat} : id ∈ graph.liveIds ↔ graph.isLive id = true := by
  simp only [liveIds, List.mem_filter, List.mem_range, and_iff_right_iff_imp]
  exact lt_of_isLive

theorem nodup_liveIds (graph : Graph) : graph.liveIds.Nodup := List.nodup_range.filter _

theorem module_congr {a b : Graph} (h : a.modules = b.modules) (m : ModuleId) : a.module m = b.module m := by
  unfold module; rw [h]

/-- There is nothing under a number that is not taken. -/
theorem module_of_le {m : ModuleId} (h : graph.modules.length ≤ m) : graph.module m = default := by
  rw [module, List.getD_eq_getElem?_getD, List.getElem?_eq_none h, Option.getD_none]

theorem modules_eq_map (graph : Graph) : graph.modules = graph.moduleIds.map graph.module := by
  refine List.ext_getElem (by simp [moduleIds]) fun m hm _ => ?_
  simp [moduleIds, module, List.getD_eq_getElem?_getD, hm]

/-- Graphs with the same modules and with the same variant under every number are the same. -/
theorem eq_of_variant {a b : Graph} (hm : a.modules = b.modules) (hl : a.variants.length = b.variants.length)
    (hv : ∀ i < a.variants.length, a.variant i = b.variant i) : a = b := by
  obtain ⟨modules, variants⟩ := a
  obtain ⟨modules', variants'⟩ := b
  obtain rfl : modules = modules' := hm
  refine congrArg (Graph.mk modules) (List.ext_getElem hl fun i hi hi' => ?_)
  simpa [variant, List.getD_eq_getElem?_getD, hi, show i < variants'.length from hi'] using hv i hi

/-! ## Changing one entry -/

theorem variant_modifyVariant (graph : Graph) (id i : Nat) (change : Variant → Variant) :
    (graph.modifyVariant id change).variant i =
      if i = id ∧ i < graph.variants.length then change (graph.variant i) else graph.variant i := by
  simp only [modifyVariant, variant, List.getD_eq_getElem?_getD, List.getElem?_modify]
  by_cases hi : i < graph.variants.length
  · by_cases he : id = i <;> simp [he, hi, eq_comm]
  · simp [hi]

theorem module_modifyModule (graph : Graph) (id i : Nat) (change : Module → Module) :
    (graph.modifyModule id change).module i =
      if i = id ∧ i < graph.modules.length then change (graph.module i) else graph.module i := by
  simp only [modifyModule, module, List.getD_eq_getElem?_getD, List.getElem?_modify]
  by_cases hi : i < graph.modules.length
  · by_cases he : id = i <;> simp [he, hi, eq_comm]
  · simp [hi]

@[simp] theorem module_modifyVariant (graph : Graph) (id : Nat) (change : Variant → Variant)
    (i : Nat) : (graph.modifyVariant id change).module i = graph.module i := rfl

@[simp] theorem variant_modifyModule (graph : Graph) (id : Nat) (change : Module → Module)
    (i : Nat) : (graph.modifyModule id change).variant i = graph.variant i := rfl

@[simp] theorem modules_modifyVariant (graph : Graph) (id : Nat) (change : Variant → Variant) :
    (graph.modifyVariant id change).modules = graph.modules := rfl

@[simp] theorem length_variants_modifyVariant (graph : Graph) (id : Nat)
    (change : Variant → Variant) :
    (graph.modifyVariant id change).variants.length = graph.variants.length := by
  simp [modifyVariant]

@[simp] theorem length_modules_modifyModule (graph : Graph) (id : Nat)
    (change : Module → Module) :
    (graph.modifyModule id change).modules.length = graph.modules.length := by
  simp [modifyModule]

/-! ## Adding a module -/

theorem module_addModule (graph : Graph) (module : Module) (properties : Properties) (i : Nat) :
    (graph.addModule module properties).module i =
      if i = graph.modules.length then
        { module with variants := [graph.variants.length], dependents := [] }
      else graph.module i := by
  simp only [addModule, Graph.module, List.getD_eq_getElem?_getD, List.getElem?_append]
  split
  · next h => rw [if_neg (by omega)]
  · next h =>
    split
    · next he => subst he; simp
    · next he =>
      rw [List.getElem?_eq_none (by simp; omega), List.getElem?_eq_none (by omega)]

theorem variant_addModule (graph : Graph) (module : Module) (properties : Properties) (i : Nat) :
    (graph.addModule module properties).variant i =
      if i = graph.variants.length then ⟨graph.modules.length, [], properties, [], true⟩
      else graph.variant i := by
  simp only [addModule, variant, List.getD_eq_getElem?_getD, List.getElem?_append]
  split
  · next h => rw [if_neg (by omega)]
  · next h =>
    split
    · next he => subst he; simp
    · next he =>
      rw [List.getElem?_eq_none (by simp; omega), List.getElem?_eq_none (by omega)]

@[simp] theorem length_modules_addModule (graph : Graph) (module : Module) (properties : Properties) :
    (graph.addModule module properties).modules.length = graph.modules.length + 1 := by
  simp [addModule]

/-! ## The two halves of a split -/

/-- The graph after a split, with the targets on the module that was split not yet found anew. -/
def grow (graph : Graph) (old : Nat) (axis : String) (values : List (String × Properties)) :
    Graph where
  modules := graph.modules.mapIdx (moduleAfterSplit (graph.variant old) old (graph.createdBy values))
  variants := graph.variants.modify old (fun variant => { variant with live := false }) ++
    values.map fun (value, properties) => graph.derive (graph.variant old) axis value properties

theorem split_nil (graph : Graph) (old : Nat) (axis : String) :
    graph.split old axis [] = graph := by simp [split]

theorem split_eq_refresh {old : Nat} {axis : String} {values : List (String × Properties)}
    (h : values ≠ []) :
    graph.split old axis values = (graph.grow old axis values).refresh (graph.variant old).module := by
  rw [split, if_neg h]; rfl

theorem mem_createdBy {values : List (String × Properties)} {id : Nat} :
    id ∈ graph.createdBy values ↔
      graph.variants.length ≤ id ∧ id < graph.variants.length + values.length := by
  simp [createdBy, List.mem_range']
  constructor
  · rintro ⟨i, hi, rfl⟩; omega
  · rintro ⟨h1, h2⟩; exact ⟨id - graph.variants.length, by omega, by omega⟩

theorem nodup_createdBy (graph : Graph) (values : List (String × Properties)) :
    (graph.createdBy values).Nodup := List.nodup_range'

@[simp] theorem length_modules_grow (graph : Graph) (old : Nat) (axis : String)
    (values : List (String × Properties)) :
    (graph.grow old axis values).modules.length = graph.modules.length := by
  simp [grow]

@[simp] theorem length_variants_grow (graph : Graph) (old : Nat) (axis : String)
    (values : List (String × Properties)) :
    (graph.grow old axis values).variants.length = graph.variants.length + values.length := by
  simp [grow]

theorem module_grow {old : Nat} {axis : String} {values : List (String × Properties)}
    {i : Nat} (h : i < graph.modules.length) :
    (graph.grow old axis values).module i =
      moduleAfterSplit (graph.variant old) old (graph.createdBy values) i (graph.module i) := by
  simp [grow, Graph.module, List.getD_eq_getElem?_getD, h]

/-- A variant that was there before keeps everything; only the old one is retired. -/
theorem variant_grow_of_lt {old : Nat} {axis : String} {values : List (String × Properties)}
    {i : Nat} (h : i < graph.variants.length) :
    (graph.grow old axis values).variant i =
      if i = old then { graph.variant i with live := false } else graph.variant i := by
  simp only [grow, variant, List.getD_eq_getElem?_getD]
  rw [List.getElem?_append_left (by simpa using h), List.getElem?_modify]
  by_cases he : old = i <;> simp [he, h, eq_comm]

theorem variant_grow_created {old : Nat} {axis : String} {values : List (String × Properties)}
    {k : Nat} (h : k < values.length) :
    (graph.grow old axis values).variant (graph.variants.length + k) =
      graph.derive (graph.variant old) axis values[k].1 values[k].2 := by
  simp only [grow, variant, List.getD_eq_getElem?_getD]
  rw [List.getElem?_append_right (by simp)]
  simp [h]

/-- Whatever stands under a number after the first half of a split was there before or is new. -/
theorem lt_or_created_of_grow {old : Nat} {axis : String} {values : List (String × Properties)}
    {i : Nat} (h : (graph.grow old axis values).isLive i = true) :
    (i < graph.variants.length ∧ i ≠ old ∧ graph.isLive i = true) ∨
      ∃ k, k < values.length ∧ i = graph.variants.length + k := by
  have hlt := lt_of_isLive h
  rw [length_variants_grow] at hlt
  by_cases hi : i < graph.variants.length
  · rw [isLive_eq, variant_grow_of_lt hi] at h
    by_cases he : i = old
    · rw [if_pos he] at h; simp at h
    · rw [if_neg he] at h; exact Or.inl ⟨hi, he, by rw [isLive_eq]; exact h⟩
  · exact Or.inr ⟨i - graph.variants.length, by omega, by omega⟩

@[simp] theorem modules_refresh (graph : Graph) (id : Nat) :
    (graph.refresh id).modules = graph.modules := rfl

@[simp] theorem module_refresh (graph : Graph) (id i : Nat) :
    (graph.refresh id).module i = graph.module i := rfl

@[simp] theorem length_variants_refresh (graph : Graph) (id : Nat) :
    (graph.refresh id).variants.length = graph.variants.length := by
  simp [refresh]

/-- A variant with its targets on one module found anew. -/
def refreshed (graph : Graph) (id : Nat) (variant : Variant) : Variant :=
  { variant with dependencies := variant.dependencies.map fun dependency =>
      if dependency.module = id then graph.retarget variant.variations dependency else dependency }

/-- The graph in which some variants have had their targets on one module found anew. -/
def refreshFor (graph : Graph) (id : Nat) (sources : List Nat) : Graph :=
  { graph with
    variants := graph.variants.mapIdx fun source variant =>
      if variant.live && source ∈ sources then graph.refreshed id variant else variant }

theorem refresh_eq_refreshFor (graph : Graph) (id : Nat) :
    graph.refresh id = graph.refreshFor id (graph.module id).dependents := rfl

@[simp] theorem length_variants_refreshFor (graph : Graph) (id : Nat) (sources : List Nat) :
    (graph.refreshFor id sources).variants.length = graph.variants.length := by
  simp [refreshFor]

theorem variant_refreshFor (graph : Graph) (id : Nat) (sources : List Nat) (i : Nat) :
    (graph.refreshFor id sources).variant i =
      if graph.isLive i = true ∧ i ∈ sources then graph.refreshed id (graph.variant i) else graph.variant i := by
  simp only [refreshFor, isLive_eq, variant, List.getD_eq_getElem?_getD, List.getElem?_mapIdx]
  cases h : graph.variants[i]? with
  | none =>
    have hd : (default : Variant).live = false := rfl
    simp [hd]
  | some v => simp [Bool.and_eq_true]

theorem variant_refresh (graph : Graph) (id : Nat) (i : Nat) :
    (graph.refresh id).variant i =
      if graph.isLive i = true ∧ i ∈ (graph.module id).dependents then
        graph.refreshed id (graph.variant i)
      else graph.variant i := variant_refreshFor ..

end VariantGraph.Graph
