import VariantGraph.Pipeline
import VariantGraph.Proofs.Graph.Missing
import VariantGraph.Proofs.Graph.Split
import VariantGraph.Proofs.Lookup.Found
/-!
# Looking up modules and variants

The operations of a graph, written so that every access to a module or a variant by its number is a look-up
that may fail. In linked graphs none fails when the variants at hand are live and the modules exist, and the
operations come to what they come to when all that is looked up is taken to be there (`addDependency_eq`,
`split_eq`).
-/
namespace VariantGraph.Checked
open VariantGraph.Graph (Linked)

variable {graph : Graph}

/-! ## Reading -/

/-- The module of a number. -/
def module (graph : Graph) (id : ModuleId) : Found Module := find (.module id) graph.modules[id]?

/-- The variant of a number. -/
def variant (graph : Graph) (id : VariantId) : Found Variant := find (.variant id) graph.variants[id]?

/-- The module of a variant. -/
def moduleOf (graph : Graph) (id : VariantId) : Found Module := do module graph (← variant graph id).module

/-- A variant in words. -/
def describe (graph : Graph) (id : VariantId) : Found String := do
  let shape ← variant graph id
  let owner ← module graph shape.module
  return if shape.variations = [] then owner.name else owner.name ++ shape.variations.render

/-- The current variants of a module to which a tag leads from a variant with some variations. -/
def matching (graph : Graph) (variations : Variations) (tag : Tag) (id : ModuleId) : Found (List VariantId) := do
  let target ← module graph id
  keep (fun id => return tag.allows variations (← variant graph id).variations) target.variants

theorem module_eq {id : ModuleId} (h : id < graph.modules.length) : module graph id = .ok (graph.module id) := by
  simp [module, find, Graph.module, h]

theorem variant_eq {id : VariantId} (h : id < graph.variants.length) : variant graph id = .ok (graph.variant id) := by
  simp [variant, find, Graph.variant, h]

theorem variant_of_isLive {id : VariantId} (h : graph.isLive id = true) :
    variant graph id = .ok (graph.variant id) := variant_eq (Graph.lt_of_isLive h)

theorem moduleOf_eq (hg : Linked graph) {id : VariantId} (h : graph.isLive id = true) :
    moduleOf graph id = .ok (graph.moduleOf id) := by
  rw [moduleOf, variant_of_isLive h, ok_bind]
  exact module_eq (hg.owner id h)

theorem describe_eq {id : VariantId} (h : id < graph.variants.length)
    (hm : (graph.variant id).module < graph.modules.length) : describe graph id = .ok (graph.describe id) := by
  rw [describe, variant_eq h, ok_bind, module_eq hm, ok_bind]
  rfl

theorem describe_of_isLive (hg : Linked graph) {id : VariantId} (h : graph.isLive id = true) :
    describe graph id = .ok (graph.describe id) := describe_eq (Graph.lt_of_isLive h) (hg.owner id h)

example : describe .empty 0 = .error (.variant 0) := rfl

theorem matching_eq (hg : Linked graph) (variations : Variations) (tag : Tag) {id : ModuleId}
    (h : id < graph.modules.length) : matching graph variations tag id = .ok (graph.matching variations tag id) := by
  rw [matching, module_eq h, ok_bind]
  refine keep_eq_ok fun target ht => ?_
  rw [variant_of_isLive (hg.current id h target ht).1]
  rfl

/-! ## Writing -/

/-- Applies a change to a variant, which has to be there. -/
def modifyVariant (graph : Graph) (id : VariantId) (change : Variant → Variant) : Found Graph := do
  let _ ← variant graph id
  return graph.modifyVariant id change

/-- Replaces the properties of a variant. -/
def setProperties (graph : Graph) (id : VariantId) (properties : Properties) : Found Graph :=
  modifyVariant graph id fun variant => { variant with properties }

/-- Adds a dependency of a variant on a module, unless there is one with the same tag. -/
def addDependency (graph : Graph) (source : VariantId) (tag : Tag) (target : ModuleId) (property : String) :
    Found Graph := do
  let user ← variant graph source
  if user.dependencies.any (Graph.Dependency.isOn · tag target) then return graph
  else
    let targets ← matching graph user.variations tag target
    -- both ends are named in the log
    let _ ← describe graph source
    let _ ← module graph target
    let added ← modifyVariant graph source fun variant =>
      { variant with dependencies := variant.dependencies ++ [⟨tag, target, property, targets, false⟩] }
    return added.modifyModule target fun module =>
      { module with dependents :=
          if source ∈ module.dependents then module.dependents else module.dependents ++ [source] }

/-- Adds a dependency on a module that was found to be visible. -/
def addCheckedDependency (graph : Graph) (source : VariantId) (tag : Tag) (target : ModuleId) (property : String) :
    Found Graph := do
  let added ← addDependency graph source tag target property
  modifyVariant added source fun variant =>
    { variant with dependencies := variant.dependencies.map fun dependency =>
        if Graph.Dependency.isOn dependency tag target then { dependency with checked := true } else dependency }

theorem modifyVariant_eq {id : VariantId} (h : id < graph.variants.length) (change : Variant → Variant) :
    modifyVariant graph id change = .ok (graph.modifyVariant id change) := by
  rw [modifyVariant, variant_eq h, ok_bind]
  rfl

theorem setProperties_eq {id : VariantId} (h : id < graph.variants.length) (properties : Properties) :
    setProperties graph id properties = .ok (graph.setProperties id properties) := modifyVariant_eq h _

section
variable (hg : Linked graph) {source : VariantId} (hs : graph.isLive source = true) (tag : Tag) {target : ModuleId}
  (ht : target < graph.modules.length) (property : String)
include hg hs ht

theorem addDependency_eq :
    addDependency graph source tag target property = .ok (graph.addDependency source tag target property) := by
  rw [addDependency, variant_of_isLive hs, ok_bind, Graph.addDependency, Graph.hasDependency]
  split
  · rfl
  · rw [matching_eq hg _ tag ht, ok_bind, describe_of_isLive hg hs, ok_bind, module_eq ht, ok_bind,
      modifyVariant_eq (Graph.lt_of_isLive hs), ok_bind]
    rfl

theorem addCheckedDependency_eq : addCheckedDependency graph source tag target property =
    .ok (graph.addCheckedDependency source tag target property) := by
  have hlive : (graph.addDependency source tag target property).isLive source = true := by
    rw [Graph.isLive_addDependency]; exact hs
  rw [addCheckedDependency, addDependency_eq hg hs tag ht, ok_bind, modifyVariant_eq (Graph.lt_of_isLive hlive)]
  rfl

end

/-! ## Splitting -/

/-- A dependency with its targets found anew. -/
def retarget (graph : Graph) (variations : Variations) (dependency : Dependency) : Found Dependency := do
  let targets ← matching graph variations dependency.tag dependency.module
  return { dependency with targets }

/-- One new variant of a split. -/
def derive (graph : Graph) (parent : Variant) (axis value : String) (properties : Properties) : Found Variant := do
  let variations := parent.variations.assign axis value
  let dependencies ← parent.dependencies.mapM (retarget graph variations)
  return { module := parent.module, variations, properties, dependencies, live := true }

/-- All new variants of a split. -/
def deriveAll (graph : Graph) (parent : Variant) (axis : String) (values : List (String × Properties)) :
    Found (List Variant) :=
  values.mapM fun (value, properties) => derive graph parent axis value properties

/-- Finds the targets on a module anew for one variant, if it is live. -/
def refreshOne (id : ModuleId) (graph : Graph) (dependent : VariantId) : Found Graph := do
  let shape ← variant graph dependent
  if shape.live then
    let dependencies ← shape.dependencies.mapM fun dependency =>
      if dependency.module = id then retarget graph shape.variations dependency else return dependency
    modifyVariant graph dependent fun variant => { variant with dependencies }
  else return graph

/-- Finds the targets on a module anew for its dependents, one after another. -/
def refresh (graph : Graph) (id : ModuleId) : Found Graph :=
  (graph.module id).dependents.foldlM (refreshOne id) graph

/-- Splits a variant on an axis, one new variant per value. -/
def split (graph : Graph) (old : VariantId) (axis : String) (values : List (String × Properties)) : Found Graph := do
  if values = [] then return graph
  else
    let parent ← variant graph old
    let derived ← deriveAll graph parent axis values
    let retired ← modifyVariant graph old fun variant => { variant with live := false }
    let _ ← module graph parent.module
    let grown ← refresh
      { modules := graph.modules.mapIdx (Graph.moduleAfterSplit parent old (graph.createdBy values))
        variants := retired.variants ++ derived } parent.module
    -- the variant that was split is named in the log
    let _ ← describe grown old
    return grown

theorem retarget_eq (hg : Linked graph) (variations : Variations) {dependency : Dependency}
    (h : dependency.module < graph.modules.length) :
    retarget graph variations dependency = .ok (graph.retarget variations dependency) := by
  rw [retarget, matching_eq hg variations _ h, ok_bind]
  rfl

theorem derive_eq (hg : Linked graph) {parent : Variant}
    (h : ∀ d ∈ parent.dependencies, d.module < graph.modules.length) (axis value : String) (properties : Properties) :
    derive graph parent axis value properties = .ok (graph.derive parent axis value properties) := by
  rw [derive, mapM_eq_ok fun d hd => retarget_eq hg (parent.variations.assign axis value) (h d hd), ok_bind]
  rfl

theorem deriveAll_eq (hg : Linked graph) {parent : Variant}
    (h : ∀ d ∈ parent.dependencies, d.module < graph.modules.length) (axis : String)
    (values : List (String × Properties)) : deriveAll graph parent axis values =
      .ok (values.map fun (value, properties) => graph.derive parent axis value properties) :=
  mapM_eq_ok fun _ _ => derive_eq hg h ..

/-! ### Targets found anew in place -/

section Refresh
variable (id : ModuleId) (done : List VariantId)

theorem linked_refreshFor (hg : Linked graph) : Linked (graph.refreshFor id done) :=
  hg.congr rfl fun source => Graph.sameKeys_refreshFor graph id done source

/-- Targets that were found anew are right already. -/
theorem refreshed_refreshed (shape : Variant) :
    graph.refreshed id (graph.refreshed id shape) = graph.refreshed id shape := by
  simp only [Graph.refreshed, List.map_map]
  congr 1
  refine List.map_congr_left fun d _ => ?_
  by_cases h : d.module = id <;> simp [h, Graph.retarget]

/-- One variant more; it may have been done before. -/
theorem refreshFor_append {source : VariantId} (hs : graph.isLive source = true) {change : Variant → Variant}
    (hc : change ((graph.refreshFor id done).variant source) = graph.refreshed id (graph.variant source)) :
    (graph.refreshFor id done).modifyVariant source change = graph.refreshFor id (done ++ [source]) := by
  refine Graph.eq_of_variant rfl (by simp) fun i hi => ?_
  rw [Graph.length_variants_modifyVariant] at hi
  rw [Graph.variant_modifyVariant, Graph.variant_refreshFor graph id (done ++ [source])]
  by_cases he : i = source
  · subst he
    rw [if_pos ⟨rfl, hi⟩, hc, if_pos ⟨hs, by simp⟩]
  · rw [if_neg fun h => he h.1, Graph.variant_refreshFor]
    simp [he]

theorem refreshOne_eq (hg : Linked graph) (hid : id < graph.modules.length) {source : VariantId}
    (hs : graph.isLive source = true) :
    refreshOne id (graph.refreshFor id done) source = .ok (graph.refreshFor id (done ++ [source])) := by
  have hlive : (graph.refreshFor id done).isLive source = true := by
    rw [Graph.isLive_eq, (Graph.sameKeys_refreshFor graph id done source).live, ← Graph.isLive_eq]; exact hs
  have hdependencies : ∀ d ∈ ((graph.refreshFor id done).variant source).dependencies,
      (if d.module = id then
          retarget (graph.refreshFor id done) ((graph.refreshFor id done).variant source).variations d
        else return d) =
        .ok (if d.module = id then graph.retarget (graph.variant source).variations d else d) := by
    intro d _
    split
    · next hd =>
      rw [retarget_eq (linked_refreshFor id done hg) _ (hd ▸ hid), Graph.variations_refreshFor, Graph.retarget,
        Graph.matching_refreshFor]
      rfl
    · rfl
  rw [refreshOne, variant_of_isLive hlive, ok_bind, if_pos (by rw [← Graph.isLive_eq]; exact hlive),
    mapM_eq_ok hdependencies, ok_bind, modifyVariant_eq (Graph.lt_of_isLive hlive)]
  refine congrArg _ (refreshFor_append id done hs ?_)
  rw [Graph.variant_refreshFor]
  split
  · exact refreshed_refreshed id _
  · rfl

theorem foldlM_refreshOne (hg : Linked graph) (hid : id < graph.modules.length) :
    ∀ (rest done : List VariantId), (∀ source ∈ rest, graph.isLive source = true) →
      rest.foldlM (refreshOne id) (graph.refreshFor id done) = .ok (graph.refreshFor id (done ++ rest))
  | [], done, _ => by rw [List.append_nil]; rfl
  | source :: rest, done, h => by
    rw [List.foldlM_cons, refreshOne_eq id done hg hid (h source List.mem_cons_self), ok_bind,
      foldlM_refreshOne hg hid rest _ fun other ho => h other (List.mem_cons_of_mem source ho), List.append_assoc]
    rfl

end Refresh

theorem refresh_eq (hg : Linked graph) {id : ModuleId} (hid : id < graph.modules.length) :
    refresh graph id = .ok (graph.refresh id) := by
  have hstart : graph.refreshFor id [] = graph := Graph.eq_of_variant rfl (by simp) fun i _ => by
    rw [Graph.variant_refreshFor, if_neg fun h => List.not_mem_nil h.2]
  have hall := foldlM_refreshOne id hg hid (graph.module id).dependents [] fun source hmem =>
    ((hg.dependents id hid source).1 hmem).1
  rwa [hstart] at hall

theorem split_eq (hg : Linked graph) {old : VariantId} (ho : graph.isLive old = true) (axis : String)
    (values : List (String × Properties)) : split graph old axis values = .ok (graph.split old axis values) := by
  by_cases hne : values = []
  · rw [split, if_pos hne, Graph.split, if_pos hne]
    rfl
  have hlt := Graph.lt_of_isLive ho
  have hparent := hg.owner old ho
  have hrefresh : refresh (graph.grow old axis values) (graph.variant old).module =
      .ok (graph.split old axis values) := by
    rw [Graph.split_eq_refresh hne]
    exact refresh_eq (hg.grow axis ho hne) (by rw [Graph.length_modules_grow]; exact hparent)
  have hdescribe : describe (graph.split old axis values) old = .ok ((graph.split old axis values).describe old) := by
    rw [Graph.split_eq_refresh hne]
    refine describe_eq ?_ ?_
    · rw [Graph.length_variants_refresh, Graph.length_variants_grow]
      exact Nat.lt_add_right _ hlt
    · rw [(Graph.sameKeys_refresh ..).module, Graph.variant_grow_of_lt hlt, if_pos rfl, Graph.modules_refresh,
        Graph.length_modules_grow]
      exact hparent
  rw [split, if_neg hne, variant_of_isLive ho, ok_bind, deriveAll_eq hg (hg.bound old ho), ok_bind,
    modifyVariant_eq hlt, ok_bind, module_eq hparent, ok_bind]
  show (refresh (graph.grow old axis values) _ >>= _) = _
  rw [hrefresh, ok_bind, hdescribe, ok_bind]
  rfl

/-! ## Reporting -/

/-- The errors for dependencies that exist and lead nowhere. -/
def missingErrors (graph : Graph) : Found (List BuildError) :=
  graph.missing.mapM fun (id, dependency) => do
    let owner ← moduleOf graph id
    let shape ← variant graph id
    let target ← module graph dependency.module
    return .missingVariant ⟨owner.name, owner.package⟩ shape.variations.render dependency.property target.name

/-- The error for a dependency cycle. -/
def cycleError (graph : Graph) (path : List VariantId) : Found BuildError := do
  return .dependencyCycle (← path.mapM (describe graph))

theorem missingErrors_eq (hg : Linked graph) : missingErrors graph = .ok graph.missingErrors := by
  refine mapM_eq_ok fun ⟨id, dependency⟩ hmem => ?_
  obtain ⟨hlive, hd, -, -⟩ := Graph.mem_missing.1 hmem
  dsimp only
  rw [moduleOf_eq hg hlive, ok_bind, variant_of_isLive hlive, ok_bind, module_eq (hg.bound id hlive _ hd), ok_bind]
  rfl

theorem cycleError_eq (hg : Linked graph) {path : List VariantId} (h : ∀ id ∈ path, graph.isLive id = true) :
    cycleError graph path = .ok (graph.cycleError path) := by
  rw [cycleError, mapM_eq_ok fun id hmem => describe_of_isLive hg (h id hmem), ok_bind]
  rfl

end VariantGraph.Checked
