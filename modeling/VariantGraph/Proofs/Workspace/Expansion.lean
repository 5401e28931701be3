import VariantGraph.Proofs.Stage.Expansion
import VariantGraph.Proofs.Workspace.Edges
/-!
# What the modules of a workspace are expanded to

Main statement (`variants_expand`): the final variants of every module are told by the properties that
the module has before the first split, and by the configuration.
-/
namespace VariantGraph
open VariantGraph.Graph

/-- The graph on which the first of the splitting stages starts, when a workspace with the built-in
stages is run. -/
def Workspace.beforeSplits (workspace : Workspace) : Graph :=
  (Stage.dependencies.run workspace.environment
    (Stage.configVariables.run workspace.environment workspace.merged).graph).graph

theorem Workspace.beforeSplits_eq (workspace : Workspace) : workspace.beforeSplits =
    Stage.after workspace.environment [.configVariables, .dependencies] workspace.merged := by
  rw [beforeSplits, Stage.run_graph, Stage.run_graph]
  rfl

/-- Whatever is split at all is split by system and by architecture. -/
theorem splits_builtin {types : TypeTable} (htypes : types = Builtin.types) {name : String}
    {type : ModuleType} (h : types.find? name = some type) :
    (Capability.archVariants ∈ type.capabilities ↔ Capability.osVariants ∈ type.capabilities) ∧
      (Capability.linkVariants ∈ type.capabilities → Capability.osVariants ∈ type.capabilities) := by
  subst htypes
  have hall : ∀ entry ∈ Builtin.types,
      (Capability.archVariants ∈ entry.2.capabilities ↔ Capability.osVariants ∈ entry.2.capabilities) ∧
      (Capability.linkVariants ∈ entry.2.capabilities →
        Capability.osVariants ∈ entry.2.capabilities) := by decide +kernel
  exact hall _ (Table.mem_of_find? h)

section
variable {workspace : Workspace} {records : List (String × ModuleRecord)}

/-- A module of a built-in type that is split at all is split by system and by architecture. -/
theorem Workspace.Loaded.splits (hl : workspace.Loaded records) (htypes : workspace.types = Builtin.types)
    {graph : Graph} (hh : SameHeaders graph workspace.graph) {m : ModuleId} (hm : m < graph.modules.length) :
    (graph.module m).can .archVariants = (graph.module m).can .osVariants ∧
      ((graph.module m).can .linkVariants = true → (graph.module m).can .osVariants = true) := by
  obtain ⟨type, htype, hcan⟩ := hl.known hh hm
  obtain ⟨harch, hlink⟩ := splits_builtin htypes htype
  exact ⟨Bool.eq_iff_iff.2 (by rw [hcan, hcan, harch]), fun h => (hcan _).2 (hlink ((hcan _).1 h))⟩

/-- Every module starts with one variant, which has no variations. -/
theorem Workspace.Loaded.whole (hl : workspace.Loaded records) {m : ModuleId}
    (hm : m < workspace.graph.modules.length) : (workspace.merged.row m).map (·.variations) = [[]] := by
  obtain ⟨_, _, _, _, -, hd⟩ := hl.fresh.declared m hm
  have hshape := Defaults.propagate_sameShape workspace.registry workspace.types workspace.graph
  have hvariants : (workspace.merged.module m).variants = [m] := by
    rw [Workspace.merged, hshape.module m, hd.variants]
  have hvariations : (workspace.merged.variant m).variations = [] := by
    rw [Workspace.merged, hshape.variant m, hd.variant]
  simp [row, hvariants, hvariations]

/-- The final faces of one module of a loaded workspace with the built-in types and stages. -/
theorem faces_of_loaded (hl : workspace.Loaded records) (htypes : workspace.types = Builtin.types)
    (hstages : workspace.stages = Stage.builtin) (hvalid : workspace.config.fault? = none)
    (harchs : workspace.config.device.archs.Nodup)
    (hos : workspace.config.host.os ≠ workspace.config.device.os) (hrun : workspace.run.2 = [])
    {m : ModuleId} (hm : m < workspace.run.1.graph.modules.length) :
    ∃ v, (workspace.beforeSplits.module m).variants = [v] ∧
      (workspace.run.1.graph.row m).map Variant.face =
        if (workspace.run.1.graph.module m).can .osVariants then
          (slotsOf workspace.config (workspace.run.1.graph.module m)
            (workspace.beforeSplits.variant v).properties).map fun slot =>
              (slot.variations,
                slot.properties workspace.config.host (workspace.beforeSplits.variant v).properties)
        else [([], .ok (workspace.beforeSplits.variant v).properties)] := by
  obtain ⟨herr, hg⟩ := run_of_errors hrun
  rw [hstages] at herr hg
  have hheaders := headers_run hl hrun
  have hmerged := headers_merged workspace
  have hs := settled_merged hl
  have hold : m < workspace.graph.modules.length := by rw [← hheaders.length]; exact hm
  have hstart : m < workspace.merged.modules.length := by rw [hmerged.length]; exact hold
  obtain ⟨harch, hlink⟩ := hl.splits htypes hmerged hstart
  have hb : workspace.environment.registry.Below workspace.merged.modules.length := hs.below
  obtain ⟨base, hrow, hfaces⟩ := Stage.faces_runAll hb hs.consistent harchs hos (archs_ne_nil hvalid) herr hstart
    (hl.whole hold) harch hlink
  rw [← workspace.beforeSplits_eq] at hrow
  obtain ⟨v, hv, rfl⟩ := List.map_eq_singleton_iff.1 hrow
  have hsame : (workspace.run.1.graph.module m).header = (workspace.merged.module m).header :=
    (hheaders.header m).trans (hmerged.header m).symm
  have hconfig : workspace.environment.config = workspace.config := rfl
  simp only [hconfig, Variant.bare_properties] at hfaces
  refine ⟨v, hv, ?_⟩
  rw [slotsOf_congr _ hsame, Module.can_congr hsame, hg]
  exact hfaces

end

/-- **Variant expansion has a closed form.** When built-in stages were run without errors on pairwise
different device architectures and with a host that is not the device, every module has one variant
before the first split. If the module can be split by system, its final variants are, in order, one for
each slot: for the device unless the properties say that it is not supported, then for the host if they
say that it is; on each system for the architecture of the host or for those of the device; and for each
of these static, then shared if the module can be split by link mode. The properties of a variant are
those before the splits with the branches of `target`, `arch` and `link` selected for its slot, and
depend on nothing else. A module that cannot be split keeps its one variant as it was. -/
theorem variants_expand (config : Config) (packages : List PackageRecord) (hvalid : config.fault? = none)
    (harchs : config.device.archs.Nodup) (hos : config.host.os ≠ config.device.os)
    (hrun : ((Workspace.empty config).addPackages packages).1.run.2 = []) :
    let workspace := ((Workspace.empty config).addPackages packages).1
    let final := workspace.run.1.graph
    ∀ m < final.modules.length, ∃ v, (workspace.beforeSplits.module m).variants = [v] ∧
      let properties := (workspace.beforeSplits.variant v).properties
      (final.module m).variants.map (fun w => ((final.variant w).variations, .ok (final.variant w).properties)) =
        if (final.module m).can .osVariants then
          (slotsOf config (final.module m) properties).map fun slot =>
            (slot.variations, slot.properties config.host properties)
        else [([], .ok properties)] := by
  intro workspace final m hm
  obtain ⟨hconfig, htypes, hstages⟩ := Workspace.settings_addPackages config Builtin.types Stage.builtin packages
  have hl := Workspace.loaded_addPackages config Builtin.types Stage.builtin packages
  obtain ⟨v, hv, hfaces⟩ := faces_of_loaded hl htypes hstages (by rw [hconfig]; exact hvalid)
    (by rw [hconfig]; exact harchs) (by rw [hconfig]; exact hos) hrun hm
  simp only [hconfig, row, List.map_map, Function.comp_def, Variant.face_bare] at hfaces
  exact ⟨v, hv, hfaces⟩

/-- A library for the device and for the host, with more flags on the host. -/
def programForHost : List PackageRecord :=
  [⟨"app", none, none, [⟨"cc_library", "base",
    [("cflags", .array [.string "-O2"]), ("host_supported", .bool true),
      ("target", .object [("host", .object [("cflags", .array [.string "-g"])])])]⟩]⟩]

theorem variants_expand_programForHost :
    let workspace := Workspace.onLinux programForHost
    workspace.run.2 = [] ∧ ∃ v, (workspace.beforeSplits.module 0).variants = [v] ∧
      (slotsOf .onLinux (workspace.run.1.graph.module 0)
        (workspace.beforeSplits.variant v).properties).map Slot.variations =
      [[("arch", "arm64"), ("link", "static"), ("os", "android")],
        [("arch", "arm64"), ("link", "shared"), ("os", "android")],
        [("arch", "arm"), ("link", "static"), ("os", "android")],
        [("arch", "arm"), ("link", "shared"), ("os", "android")],
        [("arch", "x86_64"), ("link", "static"), ("os", "linux")],
        [("arch", "x86_64"), ("link", "shared"), ("os", "linux")]] := by
  have hfacts : let workspace := Workspace.onLinux programForHost
      workspace.run.2 = [] ∧ (0 < workspace.run.1.graph.modules.length ∧
        (workspace.run.1.graph.module 0).can .osVariants = true) ∧
      (workspace.run.1.graph.module 0).variants.map (fun v => (workspace.run.1.graph.variant v).variations) =
        [[("arch", "arm64"), ("link", "static"), ("os", "android")],
          [("arch", "arm64"), ("link", "shared"), ("os", "android")],
          [("arch", "arm"), ("link", "static"), ("os", "android")],
          [("arch", "arm"), ("link", "shared"), ("os", "android")],
          [("arch", "x86_64"), ("link", "static"), ("os", "linux")],
          [("arch", "x86_64"), ("link", "shared"), ("os", "linux")]] := by
    decide +kernel
  obtain ⟨hrun, ⟨hm, hcan⟩, hlist⟩ := hfacts
  obtain ⟨v, hv, hfaces⟩ := variants_expand .onLinux _ (by decide) (by decide) (by decide) hrun 0 hm
  have hvariations := congrArg (List.map Prod.fst) (hfaces.trans (if_pos hcan))
  simp only [List.map_map, Function.comp_def] at hvariations
  exact ⟨hrun, v, hv, hvariations.symm.trans hlist⟩

end VariantGraph
