import VariantGraph.Proofs.Package.Record
import VariantGraph.Proofs.Stage.Ancestry
import VariantGraph.Proofs.Workspace.Success
/-!
# Final dependencies agree with final properties

Main statement (`edges_agree`): what a final variant depends on in a role is what its list of
references for that role names.
-/
namespace VariantGraph
open VariantGraph.Graph

/-- What the stages start from is neat when ordered records were loaded. -/
theorem neatBy_merged {workspace : Workspace} {records : List (String × ModuleRecord)}
    (hl : workspace.Loaded records) (htypes : workspace.types = Builtin.types)
    (hordered : ∀ record ∈ records, record.2.Ordered) (u : VariantId) :
    (workspace.merged.variant u).properties.NeatBy fieldDepth := by
  have hneat : ∀ v, (workspace.graph.variant v).properties.NeatBy fieldDepth := by
    intro v
    rcases Nat.lt_or_ge v workspace.graph.modules.length with hlt | hge
    · obtain ⟨package, record, type, properties, hmem, hd⟩ := hl.fresh.declared v hlt
      rw [hd.variant]
      have hplain := isPlain_builtin _ (htypes ▸ Table.mem_of_find? hd.known)
      exact neatBy_populate hplain (hordered _ hmem) hd.populated
    · have hdefault : workspace.graph.variant v = default := by
        unfold Graph.variant
        rw [List.getD_eq_getElem?_getD, List.getElem?_eq_none (by rw [hl.fresh.size]; exact hge)]; rfl
      rw [hdefault]; exact neatBy_nil
  exact Defaults.neatBy_propagate hneat workspace.registry workspace.types u

/-- The capabilities of a module, before and after all stages, are those of its type. -/
theorem capabilities_eq {workspace : Workspace} {records : List (String × ModuleRecord)}
    (hl : workspace.Loaded records) {graph : Graph} (hh : SameHeaders graph workspace.graph) {m : ModuleId}
    (hm : m < graph.modules.length) {type : ModuleType}
    (htype : workspace.types.find? (graph.module m).moduleType = some type) (capability : Capability) :
    (graph.module m).can capability = true ↔ capability ∈ type.capabilities := by
  rw [hh.length] at hm
  obtain ⟨_, _, _, _, -, hd⟩ := hl.fresh.declared m hm
  rw [Module.moduleType_congr (hh.header m), hd.moduleType, hd.known] at htype
  injection htype with htype
  rw [hh.can, Module.can, hd.capabilities, htype, decide_eq_true_iff]

/-- A module has a known type, before and after all stages. -/
theorem Workspace.Loaded.known {workspace : Workspace} {records : List (String × ModuleRecord)}
    (hl : workspace.Loaded records) {graph : Graph} (hh : SameHeaders graph workspace.graph) {m : ModuleId}
    (hm : m < graph.modules.length) : ∃ type, workspace.types.find? (graph.module m).moduleType = some type ∧
      ∀ capability, (graph.module m).can capability = true ↔ capability ∈ type.capabilities := by
  obtain ⟨_, _, type, _, -, hd⟩ := hl.fresh.declared m (by rw [← hh.length]; exact hm)
  have htype : workspace.types.find? (graph.module m).moduleType = some type := by
    rw [Module.moduleType_congr (hh.header m), hd.moduleType]
    exact hd.known
  exact ⟨type, htype, fun capability => capabilities_eq hl hh hm htype capability⟩

/-- What lies behind a final variant of a loaded workspace with the built-in stages. -/
theorem ancestry_of_loaded {workspace : Workspace} {records : List (String × ModuleRecord)}
    (hl : workspace.Loaded records) (hstages : workspace.stages = Stage.builtin)
    (hvalid : workspace.config.fault? = none) (harchs : workspace.config.device.archs.Nodup)
    (hos : workspace.config.host.os ≠ workspace.config.device.os) (hrun : workspace.run.2 = [])
    {v : VariantId} (hv : workspace.run.1.graph.isLive v = true) :
    ∃ before linked, Ancestry workspace.environment workspace.merged (workspace.run.1.graph.moduleOf v)
      (workspace.run.1.graph.variant v).bare before linked := by
  obtain ⟨herr, hg⟩ := run_of_errors hrun
  rw [hstages] at herr hg
  have hsettled := settled_merged hl
  obtain ⟨_, _, _, _, chain⟩ := exists_chain workspace.environment hsettled.below hsettled.consistent herr
  rw [← hg] at chain
  exact chain.origin (fun _ => hl.start) harchs hos (archs_ne_nil hvalid) hv

/-- The statement about one variant of a loaded workspace with the built-in types and stages. -/
theorem edges_agree_of_loaded {workspace : Workspace} {records : List (String × ModuleRecord)}
    (hl : workspace.Loaded records) (htypes : workspace.types = Builtin.types)
    (hstages : workspace.stages = Stage.builtin) (hordered : ∀ record ∈ records, record.2.Ordered)
    (hvalid : workspace.config.fault? = none) (harchs : workspace.config.device.archs.Nodup)
    (hos : workspace.config.host.os ≠ workspace.config.device.os) (hrun : workspace.run.2 = [])
    {v : VariantId} (hv : workspace.run.1.graph.isLive v = true)
    (hdefaults : (workspace.run.1.graph.moduleOf v).can .defaults = false) {type : ModuleType}
    (htype : workspace.types.find? (workspace.run.1.graph.moduleOf v).moduleType = some type)
    {field : String} {role : Role} (hf : (field, role) ∈ type.schema.dependencyFields) :
    (∀ reference ∈ (workspace.run.1.graph.variant v).properties.getList field,
      ∃ id, workspace.registry.resolve (workspace.run.1.graph.moduleOf v).package reference = .ok id) ∧
    ∀ id, (∃ reference ∈ (workspace.run.1.graph.variant v).properties.getList field,
        workspace.registry.resolve (workspace.run.1.graph.moduleOf v).package reference = .ok id) ↔
      ∃ d ∈ (workspace.run.1.graph.variant v).dependencies, d.tag.role = role ∧
        d.tag.appliesTo (workspace.run.1.graph.variant v).variations = true ∧ d.module = id := by
  obtain ⟨before, linked, hancestry⟩ := ancestry_of_loaded hl hstages hvalid harchs hos hrun hv
  -- the type of the module is a regular one, and its capabilities are those of the module
  have howner := (settled_run hl hrun).1.consistent.owner v hv
  have hcan := fun capability => capabilities_eq hl (headers_run hl hrun) howner htype capability
  have hregular : type.Regular := by
    refine regular_builtin htypes htype fun hmem => ?_
    have := (hcan .defaults).2 hmem
    unfold moduleOf at hdefaults
    rw [hdefaults] at this
    cases this
  obtain ⟨hresolve, hiff⟩ := hancestry.resolve_iff (fun u _ => neatBy_merged hl htypes hordered u) hos hdefaults htype
    hregular hcan hf
  refine ⟨hresolve, fun id => (hiff id).trans ⟨?_, ?_⟩⟩
  · rintro ⟨tag, hkey, hrole, happlies⟩
    obtain ⟨d, hd, hkey⟩ := List.mem_map.1 (Variant.keys_bare _ ▸ hkey)
    obtain ⟨rfl, rfl⟩ := Prod.mk.injEq .. ▸ hkey
    exact ⟨d, hd, hrole, happlies, rfl⟩
  · rintro ⟨d, hd, hrole, happlies, rfl⟩
    exact ⟨d.tag, List.mem_map.2 ⟨d.bare, Dependency.mem_bare hd, rfl⟩, hrole, happlies⟩

/-- **Edges agree with final properties.** When built-in stages were run without errors over packages
whose records are ordered, as all that were read are (`ordered_ofText?`), on pairwise different device
architectures and with a host that is not the device, then for every final variant of a module that is
no defaults, and every field with references in a role: all references in the final list lead to
modules, and these are the modules on which the variant has a dependency in that role which exists for
it. -/
theorem edges_agree (config : Config) (packages : List PackageRecord) (hvalid : config.fault? = none)
    (harchs : config.device.archs.Nodup) (hos : config.host.os ≠ config.device.os)
    (hordered : ∀ package ∈ packages, ∀ record ∈ package.modules, record.Ordered)
    (hrun : ((Workspace.empty config).addPackages packages).1.run.2 = []) :
    let final := ((Workspace.empty config).addPackages packages).1.run.1
    ∀ v, final.graph.isLive v = true → (final.graph.moduleOf v).can .defaults = false →
    ∀ type, final.types.find? (final.graph.moduleOf v).moduleType = some type →
    ∀ field role, (field, role) ∈ type.schema.dependencyFields →
      (∀ reference ∈ (final.graph.variant v).properties.getList field,
        ∃ id, final.registry.resolve (final.graph.moduleOf v).package reference = .ok id) ∧
      ∀ id, (∃ reference ∈ (final.graph.variant v).properties.getList field,
          final.registry.resolve (final.graph.moduleOf v).package reference = .ok id) ↔
        ∃ d ∈ (final.graph.variant v).dependencies, d.tag.role = role ∧
          d.tag.appliesTo (final.graph.variant v).variations = true ∧ d.module = id := by
  intro final v hv hdefaults type htype field role hf
  obtain ⟨hconfig, htypes, hstages⟩ := Workspace.settings_addPackages config Builtin.types Stage.builtin packages
  have hl := Workspace.loaded_addPackages config Builtin.types Stage.builtin packages
  refine edges_agree_of_loaded hl htypes hstages ?_ (by rw [hconfig]; exact hvalid) (by rw [hconfig]; exact harchs)
    (by rw [hconfig]; exact hos) hrun hv hdefaults htype hf
  intro record hr
  obtain ⟨package, hp, hr⟩ := List.mem_flatMap.1 hr
  obtain ⟨module, hm, rfl⟩ := List.mem_map.1 hr
  exact hordered package hp module hm

/-- A program that is linked with one library everywhere and with another where it is built for Arm. -/
def programWithBranch : List PackageRecord :=
  [⟨"app", none, none, [⟨"cc_library", "base", []⟩, ⟨"cc_library", "extra", []⟩,
    ⟨"cc_binary", "main",
      [("arch", .object [("arm", .object [("shared_libs", .array [.string "extra"])])]),
        ("shared_libs", .array [.string "base"])]⟩]⟩]

theorem edges_agree_programWithBranch :
    (Workspace.onLinux programWithBranch).run.2 = [] ∧
    let program := (Workspace.onLinux programWithBranch).run.1.graph.variant 11
    ∃ d ∈ program.dependencies, d.tag.role = .sharedLib ∧
      d.tag.appliesTo program.variations = true ∧ d.module = 1 := by
  have hrun : (Workspace.onLinux programWithBranch).run.2 = [] := by decide +kernel
  have hordered : ∀ package ∈ programWithBranch, ∀ record ∈ package.modules, record.Ordered := by
    simp only [programWithBranch, ModuleRecord.Ordered, Json.Ordered, Json.MembersOrdered, Table.Ordered,
      List.forall_mem_cons, List.pairwise_cons, List.Pairwise.nil, and_true, List.not_mem_nil, false_implies,
      implies_true]
    decide
  have hknown : ((Workspace.onLinux programWithBranch).run.1.types.find? "cc_binary").any
      (fun type => ("shared_libs", Role.sharedLib) ∈ type.schema.dependencyFields) = true := by decide +kernel
  obtain ⟨hsome, hf⟩ := (Option.any_eq_true_iff_get _ _).1 hknown
  refine ⟨hrun, ((edges_agree .onLinux _ (by decide) (by decide) (by decide) hordered hrun 11 (by decide +kernel)
    (by decide +kernel) _ (Option.some_get hsome).symm "shared_libs" .sharedLib (of_decide_eq_true hf)).2 1).1 ?_⟩
  decide +kernel

end VariantGraph
