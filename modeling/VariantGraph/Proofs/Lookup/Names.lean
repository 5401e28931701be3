import VariantGraph.Proofs.Lookup.Graph
import VariantGraph.Proofs.Workspace.Load
/-!
# Looking up names

There is a global namespace from the start, and no package takes it away (`Rooted.declareAll`,
`Rooted.addModule`), so the namespace of a package is always there and the search for a name misses nothing
(`resolve_eq`). When a name is taken, the module that has it is there too, and loading packages misses nothing
(`addModules_eq`).
-/
namespace VariantGraph

/-- There is a global namespace. -/
def Registry.Rooted (registry : Registry) : Prop := registry.namespaces.has globalNamespace = true

namespace Registry

variable {registry registry' : Registry}

theorem rooted_empty (precedence : ImportPrecedence) : (empty precedence).Rooted := rfl

/-- The namespace of a package is there. -/
theorem Rooted.enclosing (hr : registry.Rooted) (package : String) :
    ∃ entry, registry.namespaces.find? (registry.enclosing package) = some entry := by
  refine Option.isSome_iff_exists.1 ?_
  unfold Registry.enclosing
  cases hpath : (PackagePath.ancestors package).find? fun path =>
      path ≠ globalNamespace && registry.namespaces.has path with
  | none => exact hr
  | some path =>
    have hhas := List.find?_some hpath
    rw [Bool.and_eq_true] at hhas
    exact hhas.2

theorem Rooted.insert (hr : registry.Rooted) (scope : String) (entry : Namespace) :
    Rooted { registry with namespaces := registry.namespaces.insert scope entry } := by
  unfold Rooted Table.has at *
  rw [Table.find?_insert]
  split
  · rfl
  · exact hr

theorem Rooted.addNamespace (hr : registry.Rooted) {path : String} {imports : List String}
    (h : registry.addNamespace path imports = .ok registry') : registry'.Rooted := by
  unfold Registry.addNamespace at h
  split at h
  · cases h
  · cases h; exact hr.insert path ⟨imports, []⟩

theorem Rooted.addPackage (hr : registry.Rooted) {path : String} {rules : Option (List VisibilityRule)}
    (h : registry.addPackage path rules = .ok registry') : registry'.Rooted := by
  obtain rfl := addPackage_eq_ok h
  exact hr

theorem Rooted.register (hr : registry.Rooted) {package name scope : String} {id : ModuleId}
    (h : registry.register package name id = .ok (scope, registry')) : registry'.Rooted := by
  unfold Registry.register at h
  dsimp only at h
  split at h
  · cases h
  · split at h
    · cases h
    · cases h; exact hr.insert _ _

end Registry

namespace Workspace

theorem rooted_declareAll {registry : Registry} (hr : registry.Rooted) (records : List PackageRecord) :
    (declareAll registry records).1.Rooted :=
  declareAll_induction Registry.Rooted.addNamespace Registry.Rooted.addPackage hr records

end Workspace

namespace Checked

variable {registry : Registry}

/-- The namespace of a name. -/
def namespaceOf (registry : Registry) (scope : String) : Found Namespace :=
  find (.scope scope) (registry.namespaces.find? scope)

/-- Searches for a plain name that is used in a package. -/
def resolvePlain (registry : Registry) (package name : String) : Found (Except ResolveError ModuleId) := do
  let home := registry.enclosing package
  let own ← namespaceOf registry home
  match own.modules.find? name with
  | some id => return .ok id
  | none =>
    let inGlobal ← if home = globalNamespace then pure none
      else (namespaceOf registry globalNamespace).map (·.modules.find? name)
    return match registry.importedMatches own.imports name with
      | [(scope, id)] =>
        if registry.precedence = .strict && inGlobal.isSome then .error (.ambiguousModule name [scope, globalNamespace])
        else .ok id
      | [] =>
        match inGlobal with
        | some id => .ok id
        | none =>
          .error (.unknownModule name
            (home :: own.imports ++ if home = globalNamespace then [] else [globalNamespace]))
      | several => .error (.ambiguousModule name (several.map (·.1)))

/-- Finds the module that a reference in a package means. -/
def resolve (registry : Registry) (package text : String) : Found (Except ResolveError ModuleId) :=
  match Reference.parse? text with
  | some (.plain name) => resolvePlain registry package name
  | _ => return registry.resolve package text

theorem resolvePlain_eq (hr : registry.Rooted) (package name : String) :
    resolvePlain registry package name = .ok (registry.resolvePlain package name) := by
  obtain ⟨own, hown⟩ := hr.enclosing package
  obtain ⟨root, hroot⟩ := Option.isSome_iff_exists.1 hr
  have hhome : namespaceOf registry (registry.enclosing package) = .ok own := by rw [namespaceOf, hown]; rfl
  have hglobal : namespaceOf registry globalNamespace = .ok root := by rw [namespaceOf, hroot]; rfl
  have hlookup : registry.lookup? (registry.enclosing package) name = own.modules.find? name := by
    rw [Registry.lookup?, hown]; rfl
  have hlookup' : registry.lookup? globalNamespace name = root.modules.find? name := by
    rw [Registry.lookup?, hroot]; rfl
  unfold resolvePlain Registry.resolvePlain
  dsimp only
  rw [hhome, ok_bind, hlookup, hlookup', hown]
  cases own.modules.find? name with
  | some id => rfl
  | none =>
    dsimp only
    split
    · rfl
    · rw [hglobal]; rfl

theorem resolve_eq (hr : registry.Rooted) (package text : String) :
    resolve registry package text = .ok (registry.resolve package text) := by
  unfold resolve
  split
  · next name hparse =>
    rw [resolvePlain_eq hr, Registry.resolve, hparse]
  · rfl

/-! ## Loading -/

/-- Why a name could not be registered, as an error of a build. A module that is in the way is looked up. -/
def nameError (graph : Graph) (package : String) : RegistryError → Found BuildError
  | .duplicateModule name scope existing => do
    return .duplicateName name scope package (← module graph existing).package
  | cause => return .declaration package cause

/-- Adds a module to a package; its number. -/
def addModule (workspace : Workspace) (package : String) (record : ModuleRecord) :
    Found (Except BuildError (ModuleId × Workspace)) :=
  match Workspace.draft workspace.types package record with
  | .error error => return .error error
  | .ok (module, properties) =>
    match workspace.registry.register package record.name workspace.graph.modules.length with
    | .error cause => return .error (← nameError workspace.graph package cause)
    | .ok (scope, registry) =>
      return .ok (workspace.graph.modules.length,
        { workspace with registry, graph := workspace.graph.addModule { module with scope } properties })

/-- Adds modules one after another, each to its package, collecting errors. -/
def addModules (workspace : Workspace) (modules : List (String × ModuleRecord)) :
    Found (Workspace × List BuildError) :=
  modules.foldlM (fun (workspace, errors) (package, record) => do
    match ← addModule workspace package record with
    | .ok (_, workspace) => return (workspace, errors)
    | .error error => return (workspace, errors ++ [error])) (workspace, [])

/-- Loads packages. -/
def addPackages (workspace : Workspace) (records : List PackageRecord) : Found (Workspace × List BuildError) := do
  let (registry, faults) := Workspace.declareAll workspace.registry records
  let (workspace, errors) ← addModules { workspace with registry } (Workspace.modulesOf records)
  return (workspace, faults ++ registry.importErrors.map Workspace.importError ++ errors)

section
variable {workspace : Workspace} (hw : workspace.registry.Holds workspace.graph.modules.length)
include hw

/-- A name that is taken is that of a module. -/
theorem nameError_eq {package name : String} {id : ModuleId} {cause : RegistryError}
    (h : workspace.registry.register package name id = .error cause) :
    nameError workspace.graph package cause = .ok (Workspace.nameError workspace.graph package cause) := by
  cases cause with
  | duplicateModule taken scope existing =>
    obtain ⟨-, -, hlookup⟩ := Registry.register_eq_duplicate h
    rw [nameError, module_eq (hw scope name existing hlookup), ok_bind]
    rfl
  | _ => rfl

theorem addModule_eq (package : String) (record : ModuleRecord) :
    addModule workspace package record = .ok (workspace.addModule package record) := by
  rw [addModule, Workspace.addModule_eq]
  cases Workspace.draft workspace.types package record with
  | error error => rfl
  | ok drafted =>
    obtain ⟨module, properties⟩ := drafted
    dsimp only
    rw [ok_bind]
    cases h : workspace.registry.register package record.name workspace.graph.modules.length with
    | error cause =>
      dsimp only
      rw [nameError_eq hw h, ok_bind]
      rfl
    | ok entered => rfl

theorem addModules_eq (modules : List (String × ModuleRecord)) :
    addModules workspace modules = .ok (workspace.addModules modules) := by
  refine foldlM_eq_ok (motive := fun _ (state : Workspace × List BuildError) =>
    state.1.registry.Holds state.1.graph.modules.length) ?_ hw
  rintro ⟨package, record⟩ rest ⟨workspace, errors⟩ hw
  dsimp only
  rw [addModule_eq hw, ok_bind]
  cases ha : workspace.addModule package record with
  | error error => exact ⟨rfl, hw⟩
  | ok added => exact ⟨rfl, Workspace.holds_addModule hw ha⟩

theorem addPackages_eq (records : List PackageRecord) :
    addPackages workspace records = .ok (workspace.addPackages records) := by
  rw [addPackages, Workspace.addPackages]
  dsimp only
  rw [addModules_eq (Workspace.holds_declareAll hw records), ok_bind]
  rfl

end

/-- In a fresh workspace all loading keeps the global namespace. -/
theorem rooted_addPackages (config : Config) (types : TypeTable) (stages : List Stage)
    (packages : List PackageRecord) :
    ((Workspace.fresh config types stages).addPackages packages).1.registry.Rooted := by
  refine Workspace.addModules_induction (p := fun workspace => workspace.registry.Rooted) _ ?_
    (Workspace.rooted_declareAll (Registry.rooted_empty _) packages)
  intro workspace id workspace' package record _ hr ha
  obtain ⟨type, properties, scope, registry, module, -, -, hregister, -, rfl⟩ := Workspace.addModule_eq_ok ha
  exact hr.register hregister

end Checked
end VariantGraph
