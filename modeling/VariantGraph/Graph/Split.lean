import VariantGraph.Graph.Basic
/-!
# Splitting a variant

A split retires a variant and makes one new variant per value of an axis, each with properties of its
own. The new variants take over the dependencies, narrowed to the targets that they allow, and stand
in the place of the old one; every live variant that depends on the module gets its targets anew.

| here | there (crates/lib/src) |
| --- | --- |
| `derive` | the loop over the new values (graph/mod.rs:161-172) |
| `moduleAfterSplit`, `replaceBy` | what becomes of the variants and the dependents of modules (graph/mod.rs:174-186) |
| `refresh`, `retarget` | `refresh_targets` for all dependents (graph/mod.rs:188-195, 247-262) |
| `split` | `ModuleGraph::split` (graph/mod.rs:153-204) |
-/
namespace VariantGraph.Graph

/-- The dependency with its targets found anew. -/
def retarget (graph : Graph) (variations : Variations) (dependency : Dependency) : Dependency :=
  { dependency with targets := graph.matching variations dependency.tag dependency.module }

/-- One new variant of a split. -/
def derive (graph : Graph) (parent : Variant) (axis value : String) (properties : Properties) : Variant :=
  let variations := parent.variations.assign axis value
  { module := parent.module
    variations
    properties
    dependencies := parent.dependencies.map (graph.retarget variations)
    live := true }

/-- Puts new variants in the place of an old one, in a list of variants. -/
def replaceBy (old : VariantId) (created variants : List VariantId) : List VariantId :=
  variants.flatMap fun id => if id = old then created else [id]

/-- A module after the split of a variant: its variants if it is the module that was split, its
dependents if the variant depends on it. -/
def moduleAfterSplit (parent : Variant) (old : VariantId) (created : List VariantId) (id : ModuleId)
    (module : Module) : Module :=
  { module with
    variants :=
      if id = parent.module then replaceBy old created module.variants else module.variants
    dependents :=
      if parent.dependencies.any (·.module = id) then module.dependents.filter (· ≠ old) ++ created
      else module.dependents }

/-- The targets on one module found anew for every live variant that depends on it. -/
def refresh (graph : Graph) (id : ModuleId) : Graph :=
  let dependents := (graph.module id).dependents
  { graph with
    variants := graph.variants.mapIdx fun source variant =>
      if variant.live && source ∈ dependents then
        { variant with dependencies := variant.dependencies.map fun dependency =>
            if dependency.module = id then graph.retarget variant.variations dependency
            else dependency }
      else variant }

/-- The numbers of the variants that a split makes. -/
def createdBy (graph : Graph) (values : List (String × Properties)) : List VariantId :=
  List.range' graph.variants.length values.length

/-- Splits a variant on an axis, one new variant per value. With no value nothing changes. -/
def split (graph : Graph) (old : VariantId) (axis : String) (values : List (String × Properties)) : Graph :=
  if values = [] then graph
  else
    let parent := graph.variant old
    let created := graph.createdBy values
    let retired := graph.variants.modify old fun variant => { variant with live := false }
    let derived := values.map fun (value, properties) => graph.derive parent axis value properties
    let grown : Graph :=
      { modules := graph.modules.mapIdx (moduleAfterSplit parent old created)
        variants := retired ++ derived }
    grown.refresh parent.module

end VariantGraph.Graph
