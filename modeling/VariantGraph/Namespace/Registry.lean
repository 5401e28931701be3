import VariantGraph.Graph.Id
import VariantGraph.Namespace.Reference
import VariantGraph.Namespace.Visibility
import VariantGraph.Table
/-!
# Namespaces, packages and the search for names

A package may declare a namespace for itself and all packages below it. A module is registered in the
namespace of its package: that of the deepest package at or above it which declares one, else the
global namespace, whose name is empty. A plain name is searched for in the namespace of the package
that uses it, then in the namespaces which that one imports, then in the global namespace.

| here | there (crates/lib/src) |
| --- | --- |
| `RegistryError`, `ResolveError` | `NamespaceError`, `ResolveError` (namespace/mod.rs:23-63) |
| `describeNamespace` | `describe_namespace` (namespace/mod.rs:66-72) |
| `ImportPrecedence`, `Namespace`, `Package` | the same (namespace/registry.rs:18-59) |
| `Registry`, `empty` | `NamespaceRegistry`, `new` (namespace/registry.rs:63-87) |
| `addNamespace`, `addPackage` | `add_namespace`, `add_package` (namespace/registry.rs:94-118) |
| `importErrors` | `validate_imports` (namespace/registry.rs:121-135) |
| `enclosing`, `register` | `enclosing_namespace`, `register_module` (namespace/registry.rs:151-177) |
| `resolve`, `resolvePlain`, `importedMatches` | `resolve`, `resolve_unqualified` (namespace/registry.rs:180-254) |
| `defaultVisibility?` | `default_visibility` (namespace/registry.rs:258-269) |
| `effectiveRules`, `deniedBy?` | `effective`, `check` (namespace/registry.rs:290-307) |
-/
namespace VariantGraph

/-- The name of the global namespace. -/
def globalNamespace : String := ""

/-- A namespace in words. -/
def describeNamespace (name : String) : String :=
  if name = globalNamespace then "the global namespace" else "namespace " ++ Text.quoted name

/-- Why a namespace, a package or a name could not be registered. -/
inductive RegistryError where
  | duplicateNamespace (scope : String)
  | duplicatePackage (path : String)
  | unknownImport (scope imported : String)
  | unknownNamespace (scope : String)
  | duplicateModule (name scope : String) (existing : ModuleId)
  deriving DecidableEq, Repr

def RegistryError.message : RegistryError → String
  | duplicateNamespace scope => "namespace " ++ Text.quoted scope ++ " is declared twice"
  | duplicatePackage path => "package " ++ Text.quoted path ++ " is declared twice"
  | unknownImport scope imported =>
    "namespace " ++ Text.quoted scope ++ " imports unknown namespace " ++ Text.quoted imported
  | unknownNamespace scope => "namespace " ++ Text.quoted scope ++ " does not exist"
  | duplicateModule name scope _ =>
    "module " ++ Text.quoted name ++ " already defined in " ++ describeNamespace scope

/-- Why a reference leads to no module. -/
inductive ResolveError where
  | invalidReference (text : String)
  | unknownNamespace (scope : String)
  | unknownModule (name : String) (searched : List String)
  | ambiguousModule (name : String) (found : List String)
  deriving DecidableEq, Repr

def ResolveError.message : ResolveError → String
  | invalidReference text => "invalid module reference " ++ Text.quoted text
  | unknownNamespace scope => "namespace " ++ Text.quoted scope ++ " does not exist"
  | unknownModule name searched =>
    "module " ++ Text.quoted name ++ " not found in " ++
      Text.join ", " (searched.map describeNamespace)
  | ambiguousModule name found =>
    "module " ++ Text.quoted name ++ " is ambiguous: found in " ++
      Text.join ", " (found.map describeNamespace)

/-- What a plain name means when an imported namespace and the global one both hold it. -/
inductive ImportPrecedence where
  /-- The imported module. -/
  | preferImports
  /-- Nothing: the name is ambiguous. -/
  | strict
  deriving DecidableEq, Repr

/-- A namespace: where else its plain names are searched for, and the modules it holds. -/
structure Namespace where
  imports : List String
  modules : Table ModuleId
  deriving Inhabited

/-- A package: the rules for modules in and below it that set none. -/
structure Package where
  defaultVisibility : Option (List VisibilityRule)

/-- All namespaces and packages. -/
structure Registry where
  precedence : ImportPrecedence
  namespaces : Table Namespace
  packages : Table Package

namespace Registry

/-- The registry with no package and only the global namespace. -/
def empty (precedence : ImportPrecedence) : Registry :=
  ⟨precedence, [(globalNamespace, ⟨[], []⟩)], []⟩

/-! ## Registering -/

/-- Declares the namespace of a package. -/
def addNamespace (registry : Registry) (path : String) (imports : List String) :
    Except RegistryError Registry :=
  if path = globalNamespace || registry.namespaces.has path then .error (.duplicateNamespace path)
  else .ok { registry with namespaces := registry.namespaces.insert path ⟨imports, []⟩ }

/-- Adds a package. -/
def addPackage (registry : Registry) (path : String) (rules : Option (List VisibilityRule)) :
    Except RegistryError Registry :=
  if registry.packages.has path then .error (.duplicatePackage path)
  else .ok { registry with packages := registry.packages.insert path ⟨rules⟩ }

/-- The imports that name no declared namespace, an error for each. -/
def importErrors (registry : Registry) : List RegistryError :=
  registry.namespaces.flatMap fun (scope, entry) =>
    (entry.imports.filter fun imported =>
      imported = globalNamespace || !registry.namespaces.has imported).map (.unknownImport scope)

/-- The namespace of a package: the deepest declared one at or above it, else the global one. -/
def enclosing (registry : Registry) (package : String) : String :=
  ((PackagePath.ancestors package).find? fun path =>
    path ≠ globalNamespace && registry.namespaces.has path).getD globalNamespace

/-- The module that a namespace holds under a name. -/
def lookup? (registry : Registry) (scope name : String) : Option ModuleId :=
  (registry.namespaces.find? scope).bind (·.modules.find? name)

/-- Enters a name into the namespace of a package; the name of that namespace. -/
def register (registry : Registry) (package name : String) (id : ModuleId) :
    Except RegistryError (String × Registry) :=
  let scope := registry.enclosing package
  match registry.namespaces.find? scope with
  | none => .error (.unknownNamespace scope)
  | some entry =>
    match entry.modules.find? name with
    | some existing => .error (.duplicateModule name scope existing)
    | none =>
      let entry := { entry with modules := entry.modules.insert name id }
      .ok (scope, { registry with namespaces := registry.namespaces.insert scope entry })

/-! ## Searching -/

/-- The imported namespaces that hold a name, in the order of the imports, with what they hold. -/
def importedMatches (registry : Registry) (imports : List String) (name : String) :
    List (String × ModuleId) :=
  imports.filterMap fun scope => (registry.lookup? scope name).map (scope, ·)

/-- Searches for a plain name that is used in a package. -/
def resolvePlain (registry : Registry) (package name : String) : Except ResolveError ModuleId :=
  let home := registry.enclosing package
  match registry.lookup? home name with
  | some id => .ok id
  | none =>
    let imports := ((registry.namespaces.find? home).map (·.imports)).getD []
    let inGlobal := if home = globalNamespace then none else registry.lookup? globalNamespace name
    match registry.importedMatches imports name with
    | [(scope, id)] =>
      if registry.precedence = .strict && inGlobal.isSome then
        .error (.ambiguousModule name [scope, globalNamespace])
      else .ok id
    | [] =>
      match inGlobal with
      | some id => .ok id
      | none =>
        .error (.unknownModule name
          (home :: imports ++ if home = globalNamespace then [] else [globalNamespace]))
    | several => .error (.ambiguousModule name (several.map (·.1)))

/-- Finds the module that a reference in a package means. -/
def resolve (registry : Registry) (package text : String) : Except ResolveError ModuleId :=
  match Reference.parse? text with
  | none => .error (.invalidReference text)
  | some (.plain name) => registry.resolvePlain package name
  | some (.qualified scope name) =>
    match registry.namespaces.find? scope with
    | none => .error (.unknownNamespace scope)
    | some entry =>
      match entry.modules.find? name with
      | some id => .ok id
      | none => .error (.unknownModule name [scope])

/-! ## Visibility -/

/-- The rules that a package sets for its modules, or inherits from the nearest package above it that
sets some. -/
def defaultVisibility? (registry : Registry) (package : String) : Option (List VisibilityRule) :=
  (PackagePath.ancestors package).findSome? fun path =>
    (registry.packages.find? path).bind (·.defaultVisibility)

/-- The rules in force for a module of a package: its own, else inherited ones, else everyone may
use it. -/
def effectiveRules (registry : Registry) (own : Option (List VisibilityRule)) (package : String) :
    List VisibilityRule :=
  (own.or (registry.defaultVisibility? package)).getD [.legacyEveryone]

/-- The rules that keep one package from using a module of another, if they do. -/
def deniedBy? (registry : Registry) (visitor : String) (own : Option (List VisibilityRule))
    (package : String) : Option (List VisibilityRule) :=
  let rules := registry.effectiveRules own package
  if visitor = package || VisibilityRule.anyAdmits rules visitor then none else some rules

end Registry
end VariantGraph
