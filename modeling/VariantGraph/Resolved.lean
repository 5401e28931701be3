import VariantGraph.Delegation
import VariantGraph.Digest.Sha256
import VariantGraph.Json.Compact
/-!
# The resolved graph

What a finished graph is handed on as: an entry for every current variant of every module that is
built, in the order of declaration and then of splitting. It names modules, packages and variations
only and holds no numbers. `ResolvedGraph.text` is its compact JSON text, of which the hash is taken.

| here | there (crates/lib/src) |
| --- | --- |
| `ResolvedDependency`, `ResolvedVariant`, `ResolvedGraph` | the same (resolved.rs:18-44) |
| `ofGraph`, `ofVariant`, `ofTarget` | `from_graph` (resolved.rs:50-95) |
| `variantsOf`, `edgeCount` | `variants_of`, `edge_count` (resolved.rs:98-105) |
| `shortHash` | `hash_bytes` (util/hash.rs:39-44) with `OBJ_HASH_PREFIX_LEN` (consts.rs:13) |
| `hash` | `compute_hash` (util/hash.rs:32-35) |
-/
namespace VariantGraph

/-- A dependency on one variant. -/
structure ResolvedDependency where
  role : Role
  name : String
  package : String
  variations : Variations
  deriving DecidableEq, Repr

/-- A final variant. -/
structure ResolvedVariant where
  name : String
  moduleType : String
  package : String
  variations : Variations
  properties : Properties
  dependencies : List ResolvedDependency
  /-- The rules in force for the module, as labels. -/
  visibility : List String
  /-- Whether every dependency was found to be visible. -/
  visibilityChecked : Bool
  external : ExternalStatus

structure ResolvedGraph where
  variants : List ResolvedVariant

namespace ResolvedDependency

/-- The dependency on a variant of a graph. -/
def ofTarget (graph : Graph) (role : Role) (id : VariantId) : ResolvedDependency :=
  let module := graph.moduleOf id
  ⟨role, module.name, module.package, (graph.variant id).variations⟩

def toJson (dependency : ResolvedDependency) : Json :=
  .object [
    ("role", .string dependency.role.key),
    ("name", .string dependency.name),
    ("package", .string dependency.package),
    ("variations", .object (dependency.variations.mapValues .string))]

end ResolvedDependency

/-- The status as JSON; no label is left out. -/
def ExternalStatus.toJson (status : ExternalStatus) : Json :=
  .object (
    [("converted", .bool status.converted), ("delegated", .bool status.delegated)] ++
      (status.label.map fun label => ("label", Json.string label)).toList)

namespace ResolvedVariant

/-- The entry of a variant of a graph. -/
def ofVariant (graph : Graph) (registry : Registry) (external : ExternalBuild) (module : Module)
    (variant : Variant) : ResolvedVariant :=
  { name := module.name
    moduleType := module.moduleType
    package := module.package
    variations := variant.variations
    properties := variant.properties
    dependencies := variant.dependencies.flatMap fun dependency =>
      dependency.targets.map (ResolvedDependency.ofTarget graph dependency.tag.role)
    visibility := (registry.effectiveRules module.visibility module.package).map (·.label)
    visibilityChecked := variant.dependencies.all (·.checked)
    external := external.status module variant }

def toJson (variant : ResolvedVariant) : Json :=
  .object [
    ("name", .string variant.name),
    ("module_type", .string variant.moduleType),
    ("package", .string variant.package),
    ("variations", .object (variant.variations.mapValues .string)),
    ("properties", variant.properties.toJson),
    ("deps", .array (variant.dependencies.map (·.toJson))),
    ("visibility", .ofStrings variant.visibility),
    ("visibility_checked", .bool variant.visibilityChecked),
    ("external_build", variant.external.toJson)]

end ResolvedVariant

namespace ResolvedGraph

/-- The resolved form of a graph. -/
def ofGraph (graph : Graph) (registry : Registry) (external : ExternalBuild) : ResolvedGraph where
  variants := (graph.modules.filter fun module => !module.can .defaults).flatMap fun module =>
    module.variants.map fun id =>
      ResolvedVariant.ofVariant graph registry external module (graph.variant id)

/-- The entries of the modules with a name. -/
def variantsOf (graph : ResolvedGraph) (name : String) : List ResolvedVariant :=
  graph.variants.filter (·.name = name)

/-- The number of dependencies over all entries. -/
def edgeCount (graph : ResolvedGraph) : Nat := (graph.variants.flatMap (·.dependencies)).length

def toJson (graph : ResolvedGraph) : Json :=
  .object [("variants", .array (graph.variants.map (·.toJson)))]

/-- The text that is hashed. -/
def text (graph : ResolvedGraph) : String := graph.toJson.compact

end ResolvedGraph

/-- The first twenty digits of the hash of a text. -/
def shortHash (text : String) : String := String.ofList ((Sha256.hex text).toList.take 20)

/-- The hash of a resolved graph. -/
def ResolvedGraph.hash (graph : ResolvedGraph) : String := shortHash graph.text

end VariantGraph
