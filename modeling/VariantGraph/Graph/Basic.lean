import VariantGraph.Graph.Id
import VariantGraph.Graph.Tag
import VariantGraph.ModuleType.Basic
import VariantGraph.Namespace.Visibility
import VariantGraph.Property.Value
/-!
# The graph of modules and variants

A module starts with one variant. Splitting a variant retires it and makes new ones, so that a module
lists its current variants in split order. A dependency leads from a variant to a module and is kept
together with its targets: the current variants of that module which its tag allows
(`Graph.matching`). Each module also lists the variants that depend on it.

| here | there (crates/lib/src) |
| --- | --- |
| `Module`, `Dependency`, `Variant` | the same (graph/types.rs:189-201, 231-250) |
| `Module.dependents` | an entry of `ModuleGraph.dependents` (graph/mod.rs:31) |
| `Graph`, `addModule` | `ModuleGraph`, `add_module` (graph/mod.rs:27-47) |
| `module`, `variant`, `moduleOf`, `liveIds` | `module`, `variant`, `module_of`, `live_variants` (graph/mod.rs:49-77) |
| `describe` | `describe` (graph/mod.rs:84-92) |
| `matching` | `matching_targets` (graph/mod.rs:238-245) |
| `addDependency`, `addCheckedDependency` | `add_dependency`, `add_checked_dependency` (graph/mod.rs:98-144) |
| `missing` | `missing_variants` (graph/mod.rs:207-217) |
-/
namespace VariantGraph

/-- A dependency of a variant on a module. -/
structure Dependency where
  tag : Tag
  module : ModuleId
  /-- The property in which the module is named. -/
  property : String
  /-- The variants of the module that the dependency leads to. -/
  targets : List VariantId
  /-- Whether the module was found to be visible. -/
  checked : Bool
  deriving DecidableEq, Repr

/-- One shape of a module. -/
structure Variant where
  module : ModuleId
  variations : Variations
  properties : Properties
  dependencies : List Dependency
  /-- Whether the variant was not split any further. -/
  live : Bool
  deriving Inhabited

/-- The targets of a variant, over all its dependencies. -/
def Variant.targets (variant : Variant) : List VariantId := variant.dependencies.flatMap (·.targets)

/-- A declared module. -/
structure Module where
  name : String
  moduleType : String
  package : String
  /-- The namespace in which the module is registered. -/
  scope : String
  capabilities : List Capability
  /-- The module's own visibility rules. -/
  visibility : Option (List VisibilityRule)
  /-- The rules for modules that want to take their defaults from this one. -/
  defaultsVisibility : Option (List VisibilityRule)
  /-- The current variants, in split order. -/
  variants : List VariantId
  /-- The variants that hold a dependency on this module. -/
  dependents : List VariantId
  deriving Inhabited

/-- Whether a module has a capability. -/
def Module.can (module : Module) (capability : Capability) : Bool := capability ∈ module.capabilities

/-- Modules and variants by their numbers. -/
structure Graph where
  modules : List Module
  variants : List Variant

namespace Graph

def empty : Graph := ⟨[], []⟩

/-! ## Access -/

def variant? (graph : Graph) (id : VariantId) : Option Variant := graph.variants[id]?

/-- A module that is known to exist. -/
def module (graph : Graph) (id : ModuleId) : Module := graph.modules.getD id default

/-- A variant that is known to exist. -/
def variant (graph : Graph) (id : VariantId) : Variant := graph.variants.getD id default

/-- The module of a variant. -/
def moduleOf (graph : Graph) (id : VariantId) : Module := graph.module (graph.variant id).module

def moduleIds (graph : Graph) : List ModuleId := List.range graph.modules.length

/-- Whether a variant exists and is live. -/
def isLive (graph : Graph) (id : VariantId) : Bool := (graph.variant? id).any (·.live)

/-- The live variants, by number. -/
def liveIds (graph : Graph) : List VariantId := (List.range graph.variants.length).filter graph.isLive

/-- A variant in words: the name of its module and its variations. -/
def describe (graph : Graph) (id : VariantId) : String :=
  let variant := graph.variant id
  let name := (graph.module variant.module).name
  if variant.variations = [] then name else name ++ variant.variations.render

/-- The current variants of a module to which a tag leads from a variant with some variations. -/
def matching (graph : Graph) (variations : Variations) (tag : Tag) (id : ModuleId) : List VariantId :=
  (graph.module id).variants.filter fun target => tag.allows variations (graph.variant target).variations

/-! ## Growing -/

/-- Applies a change to one module. -/
def modifyModule (graph : Graph) (id : ModuleId) (change : Module → Module) : Graph :=
  { graph with modules := graph.modules.modify id change }

/-- Applies a change to one variant. -/
def modifyVariant (graph : Graph) (id : VariantId) (change : Variant → Variant) : Graph :=
  { graph with variants := graph.variants.modify id change }

/-- Replaces the properties of a variant. -/
def setProperties (graph : Graph) (id : VariantId) (properties : Properties) : Graph :=
  graph.modifyVariant id fun variant => { variant with properties }

/-- Adds a module with one variant that has some properties. The new module has the number that was
free. -/
def addModule (graph : Graph) (module : Module) (properties : Properties) : Graph where
  modules := graph.modules ++ [{ module with variants := [graph.variants.length], dependents := [] }]
  variants := graph.variants ++ [⟨graph.modules.length, [], properties, [], true⟩]

/-- Whether a dependency is the one on a module with a tag. -/
def Dependency.isOn (dependency : Dependency) (tag : Tag) (target : ModuleId) : Bool :=
  dependency.module = target && dependency.tag = tag

/-- Whether a variant depends on a module with a tag already. -/
def hasDependency (graph : Graph) (source : VariantId) (tag : Tag) (target : ModuleId) : Bool :=
  (graph.variant source).dependencies.any (Dependency.isOn · tag target)

/-- Adds a dependency of a variant on a module, unless there is one with the same tag. -/
def addDependency (graph : Graph) (source : VariantId) (tag : Tag) (target : ModuleId)
    (property : String) : Graph :=
  if graph.hasDependency source tag target then graph
  else
    let targets := graph.matching (graph.variant source).variations tag target
    let added := graph.modifyVariant source fun variant =>
      { variant with dependencies := variant.dependencies ++ [⟨tag, target, property, targets, false⟩] }
    added.modifyModule target fun module =>
      { module with dependents :=
          if source ∈ module.dependents then module.dependents else module.dependents ++ [source] }

/-- Marks the dependency of a variant on a module with a tag as checked. -/
def markChecked (graph : Graph) (source : VariantId) (tag : Tag) (target : ModuleId) : Graph :=
  graph.modifyVariant source fun variant =>
    { variant with dependencies := variant.dependencies.map fun dependency =>
        if Dependency.isOn dependency tag target then { dependency with checked := true }
        else dependency }

/-- Adds a dependency on a module that was found to be visible. -/
def addCheckedDependency (graph : Graph) (source : VariantId) (tag : Tag) (target : ModuleId)
    (property : String) : Graph :=
  (graph.addDependency source tag target property).markChecked source tag target

/-! ## Targets that are missing -/

/-- The dependencies that exist for their live variant and yet lead nowhere. -/
def missing (graph : Graph) : List (VariantId × Dependency) :=
  graph.liveIds.flatMap fun id =>
    let variant := graph.variant id
    (variant.dependencies.filter fun dependency =>
      dependency.targets.isEmpty && dependency.tag.appliesTo variant.variations).map (id, ·)

end Graph
end VariantGraph
