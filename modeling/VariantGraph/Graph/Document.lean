import VariantGraph.Graph.Basic
/-!
# Graphs as documents

The whole content of a graph with its numbers, for inspection, and its edges in words. The variants
shown are those that are live and those that a module lists.
-/
namespace VariantGraph

/-- Numbers as a list. -/
def Json.ofNats (numbers : List Nat) : Json := .array (numbers.map fun n : Nat => .int (n : Int))

namespace Variations

def toJson (variations : Variations) : Json := .object (variations.mapValues .string)

def ofJson? (json : Json) : Option Variations :=
  json.object?.bind fun members =>
    members.mapM fun (axis, value) => value.string?.map (axis, ·)

end Variations

namespace Tag

def toJson (tag : Tag) : Json :=
  .object [
    ("role", .string tag.role.key),
    ("far", .bool tag.far),
    ("require", tag.required.toJson),
    ("from", tag.origin.toJson)]

/-- Reads a tag; all but the role may be left out. -/
def ofJson? (json : Json) : Option Tag := do
  let role ← Role.ofKey? (← (← json.member? "role").string?)
  let far ← ((json.member? "far").getD (.bool false)).bool?
  let required ← Variations.ofJson? ((json.member? "require").getD (.object []))
  let origin ← Variations.ofJson? ((json.member? "from").getD (.object []))
  return ⟨role, far, required, origin⟩

end Tag

/-- The labels of some rules. -/
def VisibilityRule.labels (rules : List VisibilityRule) : Json := .ofStrings (rules.map (·.label))

def Module.toJson (id : ModuleId) (module : Module) : Json :=
  .object [
    ("id", .int id),
    ("name", .string module.name),
    ("type", .string module.moduleType),
    ("package", .string module.package),
    ("namespace", .string module.scope),
    ("capabilities", .ofStrings (module.capabilities.map Capability.name)),
    ("variants", .ofNats module.variants),
    ("visibility", .ofOption VisibilityRule.labels module.visibility),
    ("defaults_visibility", .ofOption VisibilityRule.labels module.defaultsVisibility)]

def Dependency.toJson (dependency : Dependency) : Json :=
  .object [
    ("tag", dependency.tag.toJson),
    ("module", .int dependency.module),
    ("property", .string dependency.property),
    ("targets", .ofNats dependency.targets),
    ("checked", .bool dependency.checked)]

def Variant.toJson (id : VariantId) (variant : Variant) : Json :=
  .object [
    ("id", .int id),
    ("display", .string ("#" ++ toString id)),
    ("module", .int variant.module),
    ("live", .bool variant.live),
    ("variations", variant.variations.toJson),
    ("properties", variant.properties.toJson),
    ("deps", .array (variant.dependencies.map Dependency.toJson))]

namespace Graph

/-- The whole content of a graph. -/
def toJson (graph : Graph) : Json :=
  let listed := graph.modules.flatMap (·.variants)
  let shown := (List.range graph.variants.length).filter fun id => graph.isLive id || id ∈ listed
  .object [
    ("modules", .array (graph.modules.mapIdx Module.toJson)),
    ("variants", .array (shown.map fun id => Variant.toJson id (graph.variant id))),
    ("live", .int graph.liveIds.length)]

/-- Some variants in words. -/
def describeAll (graph : Graph) (ids : List VariantId) : Json := .ofStrings (ids.map graph.describe)

/-- Every live variant in words, with its dependencies: role, property and targets of each. -/
def edgesToJson (graph : Graph) : Json :=
  .array (graph.liveIds.map fun id =>
    .array [
      .string (graph.describe id),
      .array ((graph.variant id).dependencies.map fun dependency =>
        .array [.string dependency.tag.role.key, .string dependency.property,
          graph.describeAll dependency.targets])])

/-- Every live variant in words, with its properties. -/
def propertiesToJson (graph : Graph) : Json :=
  .array (graph.liveIds.map fun id =>
    .array [.string (graph.describe id), (graph.variant id).properties.toJson])

end Graph
end VariantGraph
