import VariantGraph.Defaults
import VariantGraph.ModuleType.Builtin
import VariantGraph.Package.Record
import VariantGraph.Property.Populate
import VariantGraph.Resolved
import VariantGraph.Stage.Builtin
/-!
# Workspaces: from records to the resolved graph

A workspace holds the configuration, the module types, the stages, the names and the graph of one
build. Packages are loaded into it, the stages are run over it, and the resolved graph is read off.

| here | there (crates/lib/src) |
| --- | --- |
| `Workspace`, `empty` | `Context`, `Context::new` (context.rs:19-38) |
| `declare` | `add_package` (context.rs:85-112) |
| `rulesOf` | `visibility_rules` (context.rs:178-195) |
| `addModule`, `nameError` | `add_module` (context.rs:115-154) |
| `addPackages`, `declareAll`, `importError`, `addModules` | `add_packages` (context.rs:52-83) |
| `run`, `resolved` | `run`, `resolved` (context.rs:157-169) |
| `resolvePackages` | `resolve_packages` (context.rs:198-202) |
-/
namespace VariantGraph

structure Workspace where
  config : Config
  types : TypeTable
  stages : List Stage
  registry : Registry
  graph : Graph

namespace Workspace

/-- A workspace with the built-in types and stages, and no package. -/
def empty (config : Config) : Workspace :=
  ⟨config, Builtin.types, Stage.builtin, .empty config.precedence, .empty⟩

/-! ## Loading -/

/-- Declares a package and, if it has one, its namespace. What was declared before an error stays. -/
def declare (registry : Registry) (record : PackageRecord) : Registry × Option BuildError :=
  match record.defaultVisibility.mapM (VisibilityRule.parse record.path) with
  | .error cause => (registry, some (.invalidDefaultVisibility record.path cause))
  | .ok rules =>
    match record.imports.elim (.ok registry) (registry.addNamespace record.path) with
    | .error cause => (registry, some (.declaration record.path cause))
    | .ok registry =>
      match registry.addPackage record.path rules with
      | .error cause => (registry, some (.declaration record.path cause))
      | .ok registry => (registry, none)

/-- The error for an import that leads nowhere, blamed on the package of its namespace. -/
def importError : RegistryError → BuildError
  | .unknownImport scope imported => .declaration scope (.unknownImport scope imported)
  | cause => .declaration "" cause

/-- The visibility rules that a module lists in a property, if it does. -/
def rulesOf (origin : Origin) (properties : Properties) (property : String) :
    Except BuildError (Option (List VisibilityRule)) :=
  if properties.isSet property then
    match VisibilityRule.parse origin.package (properties.getList property) with
    | .ok rules => .ok (some rules)
    | .error cause => .error (.invalidVisibility origin property cause)
  else .ok none

/-- Why a name could not be registered, as an error of a build. -/
def nameError (graph : Graph) (package : String) : RegistryError → BuildError
  | .duplicateModule name scope existing =>
    .duplicateName name scope package (graph.module existing).package
  | cause => .declaration package cause

/-- Adds a module to a package; its number. If that fails, nothing is added. -/
def addModule (workspace : Workspace) (package : String) (record : ModuleRecord) :
    Except BuildError (ModuleId × Workspace) := do
  let origin : Origin := ⟨record.name, package⟩
  match workspace.types.find? record.moduleType with
  | none => .error (.unknownType origin record.moduleType)
  | some type =>
    let properties ← (populate type.schema record.properties).mapError (.invalidProperty origin)
    let visibility ← rulesOf origin properties "visibility"
    let defaultsVisibility ← rulesOf origin properties "defaults_visibility"
    let id := workspace.graph.modules.length
    let (scope, registry) ←
      (workspace.registry.register package record.name id).mapError (nameError workspace.graph package)
    let module : Module :=
      { name := record.name
        moduleType := record.moduleType
        package
        scope
        capabilities := type.capabilities
        visibility
        defaultsVisibility
        variants := []
        dependents := [] }
    return (id, { workspace with registry, graph := workspace.graph.addModule module properties })

/-- Declares packages one after another, collecting errors. -/
def declareAll (registry : Registry) (records : List PackageRecord) : Registry × List BuildError :=
  records.foldl (fun (registry, errors) record =>
    let (registry, error) := declare registry record
    (registry, errors ++ error.toList)) (registry, [])

/-- Adds modules one after another, each to its package, collecting errors. -/
def addModules (workspace : Workspace) (modules : List (String × ModuleRecord)) :
    Workspace × List BuildError :=
  modules.foldl (fun (workspace, errors) (package, record) =>
    match workspace.addModule package record with
    | .ok (_, workspace) => (workspace, errors)
    | .error error => (workspace, errors ++ [error])) (workspace, [])

/-- Loads packages. All namespaces are declared before any module is added, so the namespace of a
module does not depend on the order of the packages. -/
def addPackages (workspace : Workspace) (records : List PackageRecord) : Workspace × List BuildError :=
  let (registry, faults) := declareAll workspace.registry records
  let modules := records.flatMap fun record => record.modules.map (record.path, ·)
  let (workspace, errors) := { workspace with registry }.addModules modules
  (workspace, faults ++ registry.importErrors.map importError ++ errors)

/-! ## Running -/

/-- What the stages can look up. -/
def environment (workspace : Workspace) : Environment :=
  ⟨workspace.config, workspace.types, workspace.registry⟩

/-- Takes over defaults and runs all stages; the workspace as the last step left it, and its errors. -/
def run (workspace : Workspace) : Workspace × List BuildError :=
  let build := Stage.runWithDefaults workspace.environment workspace.stages workspace.graph
  ({ workspace with graph := build.graph }, build.errors)

/-- The resolved graph as it stands. -/
def resolved (workspace : Workspace) : ResolvedGraph :=
  .ofGraph workspace.graph workspace.registry workspace.config.external

/-- Loads packages into an empty workspace and runs all stages. -/
def resolvePackages (config : Config) (records : List PackageRecord) :
    Except (List BuildError) ResolvedGraph :=
  match (empty config).addPackages records with
  | (workspace, []) =>
    match workspace.run with
    | (workspace, []) => .ok workspace.resolved
    | (_, errors) => .error errors
  | (_, errors) => .error errors

end Workspace
end VariantGraph
