import VariantGraph.Proofs.Defaults
import VariantGraph.Proofs.Graph.Entries
import VariantGraph.Proofs.Graph.Missing
import VariantGraph.Proofs.Stage.DependencyCheck
import VariantGraph.Proofs.Stage.Outcome
import VariantGraph.Proofs.Stage.Refusals
import VariantGraph.Proofs.Workspace.Load
/-!
# What success means

Dependencies are checked when they are asked for, missing targets are searched for after every stage,
cycles in the end. No later step undoes an earlier check (`Lawful.transition`), so when loading and running
report nothing, the final graph is as it should be, whatever the stages do
(`sound_of_success`).
-/
namespace VariantGraph
open VariantGraph.Graph

/-- Every dependency was checked, is on no defaults, and is on a module that may be used. -/
def Lawful (registry : Registry) (graph : Graph) : Prop :=
  ∀ v, graph.isLive v = true → ∀ d ∈ (graph.variant v).dependencies,
    d.checked = true ∧ (graph.module d.module).can .defaults = false ∧
      registry.deniedBy? (graph.moduleOf v).package (graph.module d.module).visibility
        (graph.module d.module).package = none

variable {env : Environment} {stage : Stage} {graph after : Graph}

theorem Dependency.mem_bare {variant : Variant} {d : Dependency} (h : d ∈ variant.dependencies) :
    d.bare ∈ variant.bare.dependencies := List.mem_map.2 ⟨d, h, rfl⟩

/-- No stage undoes a check. -/
theorem Lawful.transition (hl : Lawful env.registry graph) (h : Transition env stage graph after) :
    Lawful env.registry after := by
  intro v hv d hd
  obtain ⟨u, effects, hvisited, hmem⟩ := h.sound v hv
  have hpackage : (after.moduleOf v).package = (graph.moduleOf u).package := by
    have hm : (after.variant v).bare.module = (graph.variant u).bare.module := module_of_mem_outcome hmem
    rw [Variant.bare_module, Variant.bare_module] at hm
    unfold moduleOf
    rw [hm]; exact h.headers.package _
  rw [h.headers.can, h.headers.visibility, h.headers.package, hpackage]
  refine ⟨?_, ?_⟩
  · rcases checked_outcome hmem (Dependency.mem_bare hd) with hc | hold
    · exact hc
    · obtain ⟨d', hd', he⟩ := List.mem_map.1 hold
      exact (congrArg Dependency.checked he).symm.trans (hl u hvisited.live d' hd').1
  · have hkey : d.key ∈ (after.variant v).bare.dependencies.map Dependency.key :=
      List.mem_map.2 ⟨d.bare, Dependency.mem_bare hd, rfl⟩
    rcases (mem_keys_outcome hmem _).1 hkey with hold | ⟨request, hr, hres, -⟩
    · obtain ⟨d', hd', he⟩ := List.mem_map.1 (Variant.keys_bare _ ▸ hold)
      have hm : d'.module = d.module := congrArg Prod.fst he
      rw [← hm]; exact (hl u hvisited.live d' hd').2
    · obtain ⟨target, ha⟩ := hvisited.admitted request hr
      obtain rfl : d.module = target := by
        have := hres.symm.trans ha.resolved
        injection this
      exact ⟨ha.plain, ha.visible⟩

/-- What every stage keeps: the graph is consistent, no dependency breaks a rule, and none that exists
leads nowhere. -/
structure Settled (registry : Registry) (graph : Graph) : Prop where
  consistent : Consistent graph
  below : registry.Below graph.modules.length
  lawful : Lawful registry graph
  missing : graph.missing = []

theorem Settled.run (env : Environment) (hs : Settled env.registry graph) (h : (stage.run env graph).errors = []) :
    Settled env.registry (stage.run env graph).graph := by
  obtain ⟨he, hm⟩ := (stage.run_errors env graph).1 h
  have ht := stage.transition_sweep hs.below hs.consistent he
  rw [stage.run_graph]
  exact ⟨ht.consistent, by rw [ht.headers.length]; exact hs.below, hs.lawful.transition ht, hm⟩

/-- Without missing targets, a dependency that exists leads somewhere. -/
theorem targets_ne_nil_of_missing (h : graph.missing = []) {v : VariantId} (hv : graph.isLive v = true)
    {d : Dependency} (hd : d ∈ (graph.variant v).dependencies)
    (ha : d.tag.appliesTo (graph.variant v).variations = true) : d.targets ≠ [] := by
  intro he
  have hmem := mem_missing.2 ⟨hv, hd, he, ha⟩
  rw [h] at hmem
  cases hmem

/-- Every resolved dependency names an entry. -/
theorem Settled.resolved {registry : Registry} (hs : Settled registry graph) (external : ExternalBuild)
    {entry : ResolvedVariant} (he : entry ∈ (ResolvedGraph.ofGraph graph registry external).variants)
    {dependency : ResolvedDependency} (hd : dependency ∈ entry.dependencies) :
    ∃ target ∈ (ResolvedGraph.ofGraph graph registry external).variants,
      target.name = dependency.name ∧ target.package = dependency.package ∧
      target.variations = dependency.variations := by
  obtain ⟨m, hm, -, v, hv, rfl⟩ := mem_variants_ofGraph.1 he
  obtain ⟨hlive, -⟩ := hs.consistent.current m hm v hv
  obtain ⟨d, hdep, htarget⟩ := List.mem_flatMap.1 hd
  obtain ⟨t, ht, rfl⟩ := List.mem_map.1 htarget
  obtain ⟨hlisted, -, hmod⟩ := hs.consistent.mem_targets hlive hdep ht
  refine ⟨ResolvedVariant.ofVariant graph registry external (graph.module d.module) (graph.variant t),
    mem_variants_ofGraph.2 ⟨d.module, hs.consistent.bound v hlive d hdep, (hs.lawful v hlive d hdep).2.1, t, hlisted,
      rfl⟩, ?_, ?_, rfl⟩
  · show (graph.module d.module).name = (graph.moduleOf t).name
    unfold moduleOf; rw [hmod]
  · show (graph.module d.module).package = (graph.moduleOf t).package
    unfold moduleOf; rw [hmod]

/-! ## Before the first stage -/

variable {workspace : Workspace} {records : List (String × ModuleRecord)}

/-- The graph on which the stages of a workspace start. -/
def Workspace.merged (workspace : Workspace) : Graph :=
  (Defaults.propagate workspace.registry workspace.types workspace.graph).graph

theorem headers_merged (workspace : Workspace) : SameHeaders workspace.merged workspace.graph :=
  sameHeaders_propagate workspace.registry workspace.types workspace.graph

/-- No variant has been split yet, and no dependency has been asked for. -/
theorem Workspace.Loaded.start (h : workspace.Loaded records) {v : VariantId}
    (hv : workspace.merged.isLive v = true) :
    (workspace.merged.variant v).variations = [] ∧ (workspace.merged.variant v).dependencies = [] := by
  have hshape := Defaults.propagate_sameShape workspace.registry workspace.types workspace.graph
  rw [merged, hshape.isLive] at hv
  have hlt := lt_of_isLive hv
  rw [h.fresh.size] at hlt
  obtain ⟨_, _, _, _, -, hd⟩ := h.fresh.declared v hlt
  rw [merged, hshape.variant v, hd.variant]
  exact ⟨rfl, rfl⟩

/-- A loaded graph after defaults were taken over. -/
theorem settled_merged (h : workspace.Loaded records) : Settled workspace.registry workspace.merged := by
  have hshape := Defaults.propagate_sameShape workspace.registry workspace.types workspace.graph
  refine ⟨hshape.consistent h.fresh.consistent, ?_, ?_, ?_⟩
  · rw [Workspace.merged, hshape.modules]; exact h.holds.below
  · intro v hv d hd
    rw [(h.start hv).2] at hd; cases hd
  · refine List.flatMap_eq_nil_iff.2 fun v hv => ?_
    simp only [(h.start (mem_liveIds.1 hv)).2, List.filter_nil, List.map_nil]

theorem runWithDefaults_of_errors {stages : List Stage}
    (h : (Stage.runWithDefaults env stages graph).errors = []) :
    (Defaults.propagate env.registry env.types graph).errors = [] ∧
      Stage.runWithDefaults env stages graph =
        Stage.runAll env stages (Defaults.propagate env.registry env.types graph).graph := by
  unfold Stage.runWithDefaults at h ⊢
  by_cases he : (Defaults.propagate env.registry env.types graph).errors = []
  · exact ⟨he, if_pos he⟩
  · simp only [he, if_false] at h

/-! ## After the last stage -/

/-- A run without errors takes over defaults and runs the stages without errors. -/
theorem run_eq_nil_iff : workspace.run.2 = [] ↔
    (Defaults.propagate workspace.registry workspace.types workspace.graph).errors = [] ∧
      (Stage.runAll workspace.environment workspace.stages workspace.merged).errors = [] := by
  constructor
  · intro h
    obtain ⟨hmerged, heq⟩ := runWithDefaults_of_errors h
    exact ⟨hmerged, heq ▸ h⟩
  · rintro ⟨hmerged, hrun⟩
    have heq : Stage.runWithDefaults workspace.environment workspace.stages workspace.graph =
        Stage.runAll workspace.environment workspace.stages workspace.merged := if_pos hmerged
    exact (congrArg Build.errors heq).trans hrun

/-- What success of a resolution means. -/
theorem resolvePackages_eq_ok_iff {config : Config} {packages : List PackageRecord} {resolved : ResolvedGraph} :
    Workspace.resolvePackages config packages = .ok resolved ↔
      ∃ workspace, (Workspace.empty config).addPackages packages = (workspace, []) ∧
        workspace.run.2 = [] ∧ workspace.run.1.resolved = resolved := by
  unfold Workspace.resolvePackages
  rcases (Workspace.empty config).addPackages packages with ⟨workspace, _ | ⟨error, errors⟩⟩
  · simp only [Prod.mk.injEq, and_true, exists_eq_left']
    rcases workspace.run with ⟨final, _ | ⟨error, errors⟩⟩ <;> simp
  · simp

theorem run_of_errors (h : workspace.run.2 = []) :
    (Stage.runAll workspace.environment workspace.stages workspace.merged).errors = [] ∧
      workspace.run.1.graph = (Stage.runAll workspace.environment workspace.stages workspace.merged).graph :=
  ⟨(run_eq_nil_iff.1 h).2, congrArg Build.graph (runWithDefaults_of_errors h).2⟩

/-- Some packages resolve to a graph with a property. -/
theorem exists_resolved {config : Config} {packages : List PackageRecord} {p : ResolvedGraph → Bool}
    (h : (match Workspace.resolvePackages config packages with
      | .ok resolved => p resolved
      | .error _ => false) = true) :
    ∃ resolved, Workspace.resolvePackages config packages = .ok resolved ∧ p resolved = true := by
  split at h
  · next resolved hresolved => exact ⟨resolved, hresolved, h⟩
  · cases h

theorem settled_run (hl : workspace.Loaded records) (h : workspace.run.2 = []) :
    Settled workspace.registry workspace.run.1.graph ∧ workspace.run.1.graph.findCycle? = none := by
  obtain ⟨herr, hg⟩ := run_of_errors h
  rw [hg]
  exact Stage.runAll_induction
    (fun _ _ hs he => Settled.run workspace.environment hs he) (settled_merged hl) herr

/-- A run changes no header. -/
theorem headers_run (hl : workspace.Loaded records) (h : workspace.run.2 = []) :
    SameHeaders workspace.run.1.graph workspace.graph := by
  obtain ⟨herr, hg⟩ := run_of_errors h
  rw [hg]
  refine (Stage.runAll_induction
    (p := fun graph => Settled workspace.registry graph ∧ SameHeaders graph workspace.graph)
    (fun stage graph hs he => ?_) ⟨settled_merged hl, headers_merged workspace⟩ herr).1.2
  have ht := stage.transition_sweep hs.1.below hs.1.consistent ((stage.run_errors _ graph).1 he).1
  rw [stage.run_graph]
  exact ⟨stage.run_graph workspace.environment graph ▸ hs.1.run workspace.environment he, ht.headers.trans hs.2⟩

theorem passed_run (hstages : workspace.stages = Stage.builtin)
    (h : workspace.run.2 = []) (v : VariantId) (hv : workspace.run.1.graph.isLive v = true)
    (hbuilt : DependencyCheck.isDisabled (workspace.run.1.graph.variant v).properties = false) :
    ∀ d ∈ (workspace.run.1.graph.variant v).dependencies,
      (∀ t ∈ d.targets, DependencyCheck.isDisabled (workspace.run.1.graph.variant t).properties = false) ∧
      (d.tag.role = .tool → (workspace.run.1.graph.module d.module).can .hostToolProvider = true) := by
  obtain ⟨herr, hg⟩ := run_of_errors h
  rw [hstages] at herr hg
  have hsame := Stage.runAll_graph herr
  simp only [Stage.builtin, Stage.runAll_cons_iff] at herr
  obtain ⟨-, -, -, -, -, -, -, -, -, -, hlast, -⟩ := herr
  obtain ⟨hsweep, hpass⟩ := DependencyCheck.passed_of_errors hlast
  have hfinal := hg.trans (hsame.trans hsweep)
  rw [hfinal] at hv hbuilt ⊢
  exact hpass v hv hbuilt

/-- **Success is sound.** When packages were loaded into a fresh workspace, be it with errors or without,
and its stages were run without errors, the graph has no dependency cycle; every dependency was
checked, is on no defaults and is on a module that the package may use; every dependency that exists
leads somewhere, to live variants; and every resolved dependency names an entry. With the built-in
stages no variant that is built leads to a disabled one, and its tools are tools. -/
theorem sound_of_success (config : Config) (types : TypeTable) (stages : List Stage)
    (packages : List PackageRecord)
    (hrun : ((Workspace.fresh config types stages).addPackages packages).1.run.2 = []) :
    let final := ((Workspace.fresh config types stages).addPackages packages).1.run.1
    (∀ v, ¬ Relation.TransGen final.graph.DependsOn v v) ∧
    (∀ v, final.graph.isLive v = true → ∀ d ∈ (final.graph.variant v).dependencies,
      d.checked = true ∧ (final.graph.module d.module).can .defaults = false ∧
      final.registry.deniedBy? (final.graph.moduleOf v).package (final.graph.module d.module).visibility
        (final.graph.module d.module).package = none) ∧
    (∀ v, final.graph.isLive v = true → ∀ d ∈ (final.graph.variant v).dependencies,
      (d.tag.appliesTo (final.graph.variant v).variations = true → d.targets ≠ []) ∧
      ∀ t ∈ d.targets, final.graph.isLive t = true) ∧
    (∀ entry ∈ final.resolved.variants, ∀ dependency ∈ entry.dependencies,
      ∃ target ∈ final.resolved.variants, target.name = dependency.name ∧
        target.package = dependency.package ∧ target.variations = dependency.variations) ∧
    (stages = Stage.builtin → ∀ v, final.graph.isLive v = true →
      (final.graph.variant v).properties.getBool? "enabled" ≠ some false →
      ∀ d ∈ (final.graph.variant v).dependencies,
        (∀ t ∈ d.targets, (final.graph.variant t).properties.getBool? "enabled" ≠ some false) ∧
        (d.tag.role = .tool → (final.graph.module d.module).can .hostToolProvider = true)) := by
  intro final
  have hl := Workspace.loaded_addPackages config types stages packages
  have hstages := (Workspace.settings_addPackages config types stages packages).2.2
  obtain ⟨hs, hcycle⟩ := settled_run hl hrun
  have hdis : ∀ {properties : Properties}, DependencyCheck.isDisabled properties = false ↔
      properties.getBool? "enabled" ≠ some false := by
    intro properties
    simp [DependencyCheck.isDisabled]
  refine ⟨acyclic_of_findCycle? hcycle, hs.lawful, ?_, ?_, ?_⟩
  · exact fun v hv d hd => ⟨targets_ne_nil_of_missing hs.missing hv hd,
      fun t ht => (hs.consistent.mem_targets hv hd ht).2.1⟩
  · exact fun entry he dependency hd => hs.resolved _ he hd
  · intro hbuiltin v hv hbuilt d hd
    obtain ⟨htargets, htool⟩ := passed_run (hstages.trans hbuiltin) hrun v hv (hdis.2 hbuilt) d hd
    exact ⟨fun t ht => hdis.1 (htargets t ht), htool⟩

/-- A program for the device and the library that it is linked with. -/
def programWithLibrary : List PackageRecord :=
  [⟨"app", none, none, [⟨"cc_library", "base", []⟩,
    ⟨"cc_binary", "main", [("shared_libs", .array [.string "base"])]⟩]⟩]

theorem sound_programWithLibrary :
    (Workspace.onLinux programWithLibrary).run.2 = [] ∧
    ∀ v, ¬ Relation.TransGen (Workspace.onLinux programWithLibrary).run.1.graph.DependsOn v v := by
  have hrun : (Workspace.onLinux programWithLibrary).run.2 = [] := by decide +kernel
  exact ⟨hrun, (sound_of_success _ _ _ _ hrun).1⟩

end VariantGraph
