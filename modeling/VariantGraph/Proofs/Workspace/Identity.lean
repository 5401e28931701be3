import VariantGraph.Proofs.Workspace.Concrete
/-!
# What names a resolved variant

Main statement (`identity_unique`): the package, the name and the variations of an entry of the resolved
graph name no other entry. A package and a name belong to one module (`named_addPackages`), and the
variants of a module are told apart by their variations.
-/
namespace VariantGraph
open VariantGraph.Graph

/-! ## Names of modules -/

/-- The registry finds every module under its name, in the namespace of its package. -/
def Workspace.Named (workspace : Workspace) : Prop :=
  ∀ m < workspace.graph.modules.length, workspace.registry.lookup?
    (workspace.registry.enclosing (workspace.graph.module m).package) (workspace.graph.module m).name = some m

namespace Workspace

variable {workspace workspace' : Workspace}

theorem Named.addModule (h : workspace.Named) {package : String} {record : ModuleRecord} {id : ModuleId}
    (ha : workspace.addModule package record = .ok (id, workspace')) : workspace'.Named := by
  obtain ⟨type, properties, scope, registry, module, -, -, hreg, ⟨-, hpackage, -, hname⟩, rfl⟩ :=
    addModule_eq_ok ha
  obtain ⟨hfree, henclosing, hlookup⟩ := Registry.register_eq_ok hreg
  intro m hm
  rw [Graph.length_modules_addModule] at hm
  show registry.lookup? (registry.enclosing ((workspace.graph.addModule module properties).module m).package)
    ((workspace.graph.addModule module properties).module m).name = some m
  rw [Graph.module_addModule, henclosing, hlookup]
  rcases Nat.lt_succ_iff_lt_or_eq.1 hm with hlt | rfl
  · -- the new name was free, so it is none of the old ones
    have hold := h m hlt
    rw [if_neg (Nat.ne_of_lt hlt), if_neg, hold]
    rintro ⟨hscope, hsame⟩
    rw [hscope, hsame, hold] at hfree
    cases hfree
  · rw [if_pos rfl, if_pos]
    exact ⟨by rw [hpackage], hname.symm⟩

theorem named_addPackages (config : Config) (types : TypeTable) (stages : List Stage)
    (packages : List PackageRecord) : ((fresh config types stages).addPackages packages).1.Named :=
  addModules_induction _ (fun _ _ _ _ _ _ h ha => Named.addModule h ha) fun _ hm => absurd hm (Nat.not_lt_zero _)

/-- A package and a name belong to one module. -/
theorem Named.injective (h : workspace.Named) {m m' : ModuleId} (hm : m < workspace.graph.modules.length)
    (hm' : m' < workspace.graph.modules.length)
    (hpackage : (workspace.graph.module m).package = (workspace.graph.module m').package)
    (hname : (workspace.graph.module m).name = (workspace.graph.module m').name) : m = m' := by
  have hfound := h m hm
  rw [hpackage, hname, h m' hm'] at hfound
  exact (Option.some.inj hfound).symm

end Workspace

/-! ## Names of entries -/

/-- What names an entry of a resolved graph. -/
def ResolvedVariant.identity (entry : ResolvedVariant) : String × String × Variations :=
  (entry.package, entry.name, entry.variations)

/-- The identities of the entries, by the modules of the graph. -/
theorem identities_ofGraph (graph : Graph) (registry : Registry) (external : ExternalBuild) :
    (ResolvedGraph.ofGraph graph registry external).variants.map ResolvedVariant.identity =
      (graph.moduleIds.filter fun m => !(graph.module m).can .defaults).flatMap fun m =>
        (graph.module m).variants.map fun v =>
          ((graph.module m).package, (graph.module m).name, (graph.variant v).variations) := by
  simp only [variants_ofGraph, entries, List.map_flatMap, List.map_map]
  rfl

/-- Identities are unique if modules are told apart by names and their variants by variations. -/
theorem nodup_identities {graph : Graph} (registry : Registry) (external : ExternalBuild)
    (hnames : ∀ m < graph.modules.length, ∀ m' < graph.modules.length,
      (graph.module m).package = (graph.module m').package → (graph.module m).name = (graph.module m').name → m = m')
    (hvariants : ∀ m < graph.modules.length,
      ((graph.module m).variants.map fun v => (graph.variant v).variations).Nodup) :
    ((ResolvedGraph.ofGraph graph registry external).variants.map ResolvedVariant.identity).Nodup := by
  rw [identities_ofGraph]
  have hlt : ∀ m ∈ graph.moduleIds.filter fun m => !(graph.module m).can .defaults, m < graph.modules.length :=
    fun m hm => List.mem_range.1 (List.mem_filter.1 hm).1
  have hids : (graph.moduleIds.filter fun m => !(graph.module m).can .defaults).Nodup :=
    List.nodup_range.filter _
  refine List.nodup_flatMap.2 ⟨fun m hm => ?_, hids.imp_of_mem fun hm hm' hne => ?_⟩
  · have hnodup := (hvariants m (hlt m hm)).map
      (f := fun variations => ((graph.module m).package, (graph.module m).name, variations))
      fun _ _ he => congrArg (·.2.2) he
    rwa [List.map_map] at hnodup
  · -- an identity tells the module
    intro identity hi hi'
    obtain ⟨_, -, rfl⟩ := List.mem_map.1 hi
    obtain ⟨_, -, he⟩ := List.mem_map.1 hi'
    exact hne (hnames _ (hlt _ hm) _ (hlt _ hm') (congrArg (·.1) he).symm (congrArg (·.2.1) he).symm)

/-- A resolution that succeeds hands on what a run without errors made. -/
theorem Workspace.resolvePackages_eq_ok {config : Config} {packages : List PackageRecord} {resolved : ResolvedGraph}
    (h : Workspace.resolvePackages config packages = .ok resolved) :
    ((Workspace.empty config).addPackages packages).1.run.2 = [] ∧
      resolved = ((Workspace.empty config).addPackages packages).1.run.1.resolved := by
  obtain ⟨workspace, hloaded, hrun, hresolved⟩ := resolvePackages_eq_ok_iff.1 h
  rw [hloaded]
  exact ⟨hrun, hresolved.symm⟩

/-- **Variant identity is unique** on pairwise different device architectures and with a host that is not
the device: no two entries of a resolved graph have the same package, name and variations, so what is
written in a resolved dependency identifies one entry. -/
theorem identity_unique (config : Config) (packages : List PackageRecord) (hvalid : config.fault? = none)
    (harchs : config.device.archs.Nodup) (hos : config.host.os ≠ config.device.os) (resolved : ResolvedGraph)
    (hresolved : Workspace.resolvePackages config packages = .ok resolved) :
    (resolved.variants.map fun entry => (entry.package, entry.name, entry.variations)).Nodup ∧
      ∀ entry ∈ resolved.variants, ∀ dependency ∈ entry.dependencies,
        ∃! target, target ∈ resolved.variants ∧ target.package = dependency.package ∧
          target.name = dependency.name ∧ target.variations = dependency.variations := by
  obtain ⟨hrun, rfl⟩ := Workspace.resolvePackages_eq_ok hresolved
  obtain ⟨hconfig, htypes, hstages⟩ := Workspace.settings_addPackages config Builtin.types Stage.builtin packages
  have hl := Workspace.loaded_addPackages config Builtin.types Stage.builtin packages
  have hnamed := Workspace.named_addPackages config Builtin.types Stage.builtin packages
  have hheaders := headers_run hl hrun
  have hnodup := nodup_identities
    ((Workspace.empty config).addPackages packages).1.run.1.registry
    ((Workspace.empty config).addPackages packages).1.run.1.config.external
    (fun m hm m' hm' hpackage hname => hnamed.injective (hheaders.length ▸ hm) (hheaders.length ▸ hm')
      (by rw [← Module.package_congr (hheaders.header m), hpackage, Module.package_congr (hheaders.header m')])
      (by rw [← Module.name_congr (hheaders.header m), hname, Module.name_congr (hheaders.header m')]))
    (fun m hm => (expanded_of_loaded hl htypes hstages (by rw [hconfig]; exact hvalid)
      (by rw [hconfig]; exact harchs) (by rw [hconfig]; exact hos) hrun hm).nodup
        (by rw [hconfig]; exact harchs) (by rw [hconfig]; exact hos))
  refine ⟨hnodup, fun entry he dependency hd => ?_⟩
  obtain ⟨target, ht, hname, hpackage, hvariations⟩ := (settled_run hl hrun).1.resolved _ he hd
  refine ⟨target, ⟨ht, hpackage, hname, hvariations⟩, ?_⟩
  rintro other ⟨ho, hpackage', hname', hvariations'⟩
  refine List.inj_on_of_nodup_map hnodup ho ht ?_
  simp only [ResolvedVariant.identity, hpackage, hname, hvariations, hpackage', hname', hvariations']

theorem identity_programWithLibrary : ∃ resolved,
    Workspace.resolvePackages .onLinux programWithLibrary = .ok resolved ∧
      resolved.variants ≠ [] ∧
      (resolved.variants.map fun entry => (entry.package, entry.name, entry.variations)).Nodup := by
  obtain ⟨resolved, hresolved, hsome⟩ : ∃ resolved,
      Workspace.resolvePackages .onLinux programWithLibrary = .ok resolved ∧
        (!resolved.variants.isEmpty) = true := exists_resolved (by decide +kernel)
  exact ⟨resolved, hresolved, by simpa using hsome,
    (identity_unique _ _ (by decide) (by decide) (by decide) resolved hresolved).1⟩

/-- A program with flags for one architecture. -/
def programWithFlags : List PackageRecord :=
  [⟨"app", none, none, [⟨"cc_binary", "main",
    [("arch", .object [("arm64", .object [("cflags", .array [.string "-x"])])])]⟩]⟩]

/-- A device on which an architecture is listed twice. -/
def repeatedArch : Config :=
  { Config.onLinux with device := ⟨.android, [.arm64, .arm64]⟩ }

/-- Such a device is accepted, and then a module has two final variants with the same variations. Only
the first one has selected the branch of the architecture. -/
theorem identity_repeatedArch : repeatedArch.fault? = none ∧ ∃ resolved,
    Workspace.resolvePackages repeatedArch programWithFlags = .ok resolved ∧
      ¬ (resolved.variants.map fun entry => (entry.package, entry.name, entry.variations)).Nodup ∧
      resolved.variants.map (fun entry => entry.properties.getList "cflags") = [["-x"], []] := by
  refine ⟨by decide, ?_⟩
  obtain ⟨resolved, hresolved, hfacts⟩ : ∃ resolved,
      Workspace.resolvePackages repeatedArch programWithFlags = .ok resolved ∧
        decide (¬ (resolved.variants.map fun entry => (entry.package, entry.name, entry.variations)).Nodup ∧
          resolved.variants.map (fun entry => entry.properties.getList "cflags") = [["-x"], []]) = true :=
    exists_resolved (by decide +kernel)
  exact ⟨resolved, hresolved, of_decide_eq_true hfacts⟩

end VariantGraph
