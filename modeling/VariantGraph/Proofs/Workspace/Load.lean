import VariantGraph.Proofs.Graph.Consistent
import VariantGraph.Proofs.Graph.Reachable
import VariantGraph.Proofs.Namespace.Registry
import VariantGraph.Proofs.Property.Merge
/-!
# Loaded workspaces

Loading declares names and adds modules, each with one variant that has no variations and no
dependencies. `Loaded` is what holds of a workspace after any packages were loaded into a fresh one,
with or without errors.
-/
namespace VariantGraph

/-- A workspace with no package. -/
def Workspace.fresh (config : Config) (types : TypeTable) (stages : List Stage) : Workspace :=
  ⟨config, types, stages, .empty config.precedence, .empty⟩

/-- The default configuration on a machine with Linux. -/
def Config.onLinux : Config := .defaultOn ⟨.linux, .x86_64⟩ 1

/-- Packages loaded into a fresh workspace in that configuration, with the built-in types and stages. -/
def Workspace.onLinux (packages : List PackageRecord) : Workspace :=
  ((Workspace.fresh .onLinux Builtin.types Stage.builtin).addPackages packages).1

/-- A module of a graph as it was declared: its type, and its only variant with the properties that the
schema makes of the record. -/
structure Graph.Declared (types : TypeTable) (graph : Graph) (id : ModuleId) (package : String)
    (record : ModuleRecord) (type : ModuleType) (properties : Properties) : Prop where
  known : types.find? record.moduleType = some type
  populated : populate type.schema record.properties = .ok properties
  moduleType : (graph.module id).moduleType = record.moduleType
  package : (graph.module id).package = package
  capabilities : (graph.module id).capabilities = type.capabilities
  variants : (graph.module id).variants = [id]
  variant : graph.variant id = ⟨id, [], properties, [], true⟩

/-- Every module of a graph is as one of some records declared it. -/
structure Graph.Fresh (types : TypeTable) (records : List (String × ModuleRecord)) (graph : Graph) :
    Prop where
  consistent : Consistent graph
  size : graph.variants.length = graph.modules.length
  declared : ∀ id < graph.modules.length, ∃ package record type properties,
    (package, record) ∈ records ∧ Declared types graph id package record type properties

/-- A workspace into which some records were loaded. -/
structure Workspace.Loaded (records : List (String × ModuleRecord)) (workspace : Workspace) : Prop where
  holds : workspace.registry.Holds workspace.graph.modules.length
  fresh : workspace.graph.Fresh workspace.types records

namespace Workspace

variable {workspace workspace' : Workspace} {records : List (String × ModuleRecord)}

/-! ## Adding a module -/

/-- The module that a record makes in a package, and the properties of its variant, when its name is yet to
be registered. -/
def draft (types : TypeTable) (package : String) (record : ModuleRecord) :
    Except BuildError (Module × Properties) :=
  let origin : Origin := ⟨record.name, package⟩
  match types.find? record.moduleType with
  | none => .error (.unknownType origin record.moduleType)
  | some type => do
    let properties ← (populate type.schema record.properties).mapError (.invalidProperty origin)
    let visibility ← rulesOf origin properties "visibility"
    let defaultsVisibility ← rulesOf origin properties "defaults_visibility"
    return (⟨record.name, record.moduleType, package, globalNamespace, type.capabilities, visibility,
      defaultsVisibility, [], []⟩, properties)

theorem addModule_eq (workspace : Workspace) (package : String) (record : ModuleRecord) :
    workspace.addModule package record = do
      let (module, properties) ← draft workspace.types package record
      let (scope, registry) ← (workspace.registry.register package record.name
        workspace.graph.modules.length).mapError (nameError workspace.graph package)
      return (workspace.graph.modules.length,
        { workspace with registry, graph := workspace.graph.addModule { module with scope } properties }) := by
  unfold addModule draft
  dsimp only
  cases workspace.types.find? record.moduleType with
  | none => rfl
  | some type => simp only [bind_assoc, pure_bind]

theorem draft_eq_ok {types : TypeTable} {package : String} {record : ModuleRecord} {module : Module}
    {properties : Properties} (h : draft types package record = .ok (module, properties)) :
    ∃ type, types.find? record.moduleType = some type ∧ populate type.schema record.properties = .ok properties ∧
      module.moduleType = record.moduleType ∧ module.package = package ∧ module.capabilities = type.capabilities ∧
      module.name = record.name := by
  unfold draft at h
  cases ht : types.find? record.moduleType with
  | none => rw [ht] at h; cases h
  | some type =>
    rw [ht] at h
    obtain ⟨populated, hpopulated, h⟩ := bind_eq_ok h
    obtain ⟨visibility, -, h⟩ := bind_eq_ok h
    obtain ⟨defaultsVisibility, -, h⟩ := bind_eq_ok h
    injection h with h
    injection h with hmodule hproperties
    subst hmodule hproperties
    exact ⟨type, rfl, mapError_eq_ok hpopulated, rfl, rfl, rfl, rfl⟩

theorem addModule_eq_ok {package : String} {record : ModuleRecord} {id : ModuleId}
    (h : workspace.addModule package record = .ok (id, workspace')) :
    ∃ type properties scope registry module,
      workspace.types.find? record.moduleType = some type ∧
      populate type.schema record.properties = .ok properties ∧
      workspace.registry.register package record.name workspace.graph.modules.length =
        .ok (scope, registry) ∧
      (module.moduleType = record.moduleType ∧ module.package = package ∧
        module.capabilities = type.capabilities ∧ module.name = record.name) ∧
      workspace' = { workspace with registry, graph := workspace.graph.addModule module properties } := by
  rw [addModule_eq] at h
  obtain ⟨⟨module, properties⟩, hdraft, h⟩ := bind_eq_ok h
  obtain ⟨⟨scope, registry⟩, hregister, h⟩ := bind_eq_ok h
  obtain ⟨type, hknown, hpopulated, hmodule⟩ := draft_eq_ok hdraft
  injection h with h
  injection h with _ h
  exact ⟨type, properties, scope, registry, { module with scope }, hknown, hpopulated, mapError_eq_ok hregister,
    hmodule, h.symm⟩

theorem holds_addModule {package : String} {record : ModuleRecord} {id : ModuleId}
    (h : workspace.registry.Holds workspace.graph.modules.length)
    (ha : workspace.addModule package record = .ok (id, workspace')) :
    workspace'.registry.Holds workspace'.graph.modules.length := by
  obtain ⟨type, properties, scope, registry, module, -, -, hreg, -, rfl⟩ := addModule_eq_ok ha
  show Registry.Holds registry (workspace.graph.addModule module properties).modules.length
  rw [Graph.length_modules_addModule]
  exact h.register hreg

theorem Loaded.addModule (hl : Loaded records workspace) {package : String} {record : ModuleRecord}
    {id : ModuleId} (hmem : (package, record) ∈ records)
    (h : workspace.addModule package record = .ok (id, workspace')) : Loaded records workspace' := by
  have hholds := holds_addModule hl.holds h
  obtain ⟨type, properties, scope, registry, module, hknown, hpop, -, hmodule, rfl⟩ := addModule_eq_ok h
  have hsize := hl.fresh.size
  refine ⟨hholds, hl.fresh.consistent.addModule module properties, ?_, ?_⟩
  · simp [Graph.addModule, hsize]
  · intro m hm
    rw [Graph.length_modules_addModule] at hm
    rcases Nat.lt_succ_iff_lt_or_eq.1 hm with hm | rfl
    · obtain ⟨p, r, t, props, hr, hd⟩ := hl.fresh.declared m hm
      have hmod : (workspace.graph.addModule module properties).module m = workspace.graph.module m := by
        rw [Graph.module_addModule, if_neg (Nat.ne_of_lt hm)]
      have hvar : (workspace.graph.addModule module properties).variant m = workspace.graph.variant m := by
        rw [Graph.variant_addModule, if_neg (by rw [hsize]; exact Nat.ne_of_lt hm)]
      refine ⟨p, r, t, props, hr, hd.known, hd.populated, ?_, ?_, ?_, ?_, ?_⟩
      · rw [hmod]; exact hd.moduleType
      · rw [hmod]; exact hd.package
      · rw [hmod]; exact hd.capabilities
      · rw [hmod]; exact hd.variants
      · rw [hvar]; exact hd.variant
    · have hmod : (workspace.graph.addModule module properties).module workspace.graph.modules.length =
          { module with variants := [workspace.graph.variants.length], dependents := [] } := by
        rw [Graph.module_addModule, if_pos rfl]
      have hvar : (workspace.graph.addModule module properties).variant workspace.graph.modules.length =
          ⟨workspace.graph.modules.length, [], properties, [], true⟩ := by
        rw [Graph.variant_addModule, if_pos hsize.symm]
      refine ⟨package, record, type, properties, hmem, hknown, hpop, ?_, ?_, ?_, ?_, hvar⟩
      · rw [hmod]; exact hmodule.1
      · rw [hmod]; exact hmodule.2.1
      · rw [hmod]; exact hmodule.2.2.1
      · rw [hmod, hsize]

/-! ## Loading packages -/

/-- What every added module keeps is kept by adding modules one after another. -/
theorem addModules_induction {p : Workspace → Prop} (modules : List (String × ModuleRecord))
    (hstep : ∀ workspace id workspace' package record, (package, record) ∈ modules → p workspace →
      workspace.addModule package record = .ok (id, workspace') → p workspace')
    (h : p workspace) : p (workspace.addModules modules).1 := by
  unfold addModules
  refine List.foldlRecOn (motive := fun state : Workspace × List BuildError => p state.1) modules _ h ?_
  rintro ⟨workspace, errors⟩ hs ⟨package, record⟩ hm
  cases ha : workspace.addModule package record with
  | ok result => simp only [ha]; exact hstep _ _ _ _ _ hm hs ha
  | error error => simp only [ha]; exact hs

/-- The modules of some packages, each with the path of its package. -/
def modulesOf (packages : List PackageRecord) : List (String × ModuleRecord) :=
  packages.flatMap fun record => record.modules.map (record.path, ·)

theorem loaded_addPackages (config : Config) (types : TypeTable) (stages : List Stage)
    (packages : List PackageRecord) :
    Loaded (modulesOf packages) ((fresh config types stages).addPackages packages).1 := by
  refine addModules_induction _ (fun _ _ _ _ _ hmem hl ha => Loaded.addModule hl hmem ha) ⟨?_, ?_⟩
  · exact holds_declareAll (Registry.holds_empty _) packages
  · refine ⟨Graph.consistent_empty, rfl, fun m hm => ?_⟩
    cases hm

/-- Loading packages changes neither the configuration nor the types nor the stages. -/
theorem settings_addPackages (config : Config) (types : TypeTable) (stages : List Stage)
    (packages : List PackageRecord) :
    ((fresh config types stages).addPackages packages).1.config = config ∧
      ((fresh config types stages).addPackages packages).1.types = types ∧
      ((fresh config types stages).addPackages packages).1.stages = stages := by
  refine addModules_induction
    (p := fun workspace => workspace.config = config ∧ workspace.types = types ∧ workspace.stages = stages)
    _ ?_ ⟨rfl, rfl, rfl⟩
  intro workspace id workspace' package record _ hp ha
  obtain ⟨type, properties, scope, registry, module, -, -, -, -, rfl⟩ := addModule_eq_ok ha
  exact hp

end Workspace

/-- Accepted configurations name an architecture of the device. -/
theorem archs_ne_nil {config : Config} (h : config.fault? = none) : config.device.archs ≠ [] := by
  intro he
  unfold Config.fault? at h
  rw [if_pos he] at h
  cases h

end VariantGraph
