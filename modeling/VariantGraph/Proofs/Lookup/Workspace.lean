import VariantGraph.Proofs.Graph.Entries
import VariantGraph.Proofs.Lookup.Run
/-!
# Looking things up from records to the resolved graph

Reading off the resolved graph looks up the variants of all modules and the targets of all dependencies. From
a fresh workspace on, all three steps together miss nothing (`session_eq_ok`): what packages are loaded into
it has names below the number of modules and a consistent graph, and a run keeps both, whatever is found wrong
on the way.
-/
namespace VariantGraph
open VariantGraph.Graph (Consistent)

variable {env : Environment} {graph : Graph}

/-! ## After a run, with or without errors -/

theorem Stage.consistent_runAll (hb : env.registry.Below graph.modules.length) (hg : Consistent graph)
    (stages : List Stage) : Consistent (Stage.runAll env stages graph).graph := by
  induction stages generalizing graph with
  | nil =>
    rw [Stage.runAll]
    cases graph.findCycle? with
    | some path => exact hg
    | none => exact hg
  | cons stage rest ih =>
    obtain ⟨hconsistent, hheaders⟩ := stage.consistent_run env hb hg
    rw [Stage.runAll]
    split
    · exact ih (hheaders.length ▸ hb) hconsistent
    · exact hconsistent

theorem Stage.consistent_runWithDefaults (hb : env.registry.Below graph.modules.length) (hg : Consistent graph)
    (stages : List Stage) : Consistent (Stage.runWithDefaults env stages graph).graph := by
  have hshape := Defaults.propagate_sameShape env.registry env.types graph
  rw [Stage.runWithDefaults]
  split
  · exact Stage.consistent_runAll (by rw [hshape.modules]; exact hb) (hshape.consistent hg) stages
  · exact hshape.consistent hg

namespace Checked

/-! ## Reading off the resolved graph -/

/-- The dependency on a variant. -/
def ofTarget (graph : Graph) (role : Role) (id : VariantId) : Found ResolvedDependency := do
  let target ← variant graph id
  let owner ← module graph target.module
  return ⟨role, owner.name, owner.package, target.variations⟩

/-- The entry of a variant of a module. -/
def entry (graph : Graph) (registry : Registry) (external : ExternalBuild) (module : Module) (id : VariantId) :
    Found ResolvedVariant := do
  let shape ← variant graph id
  let dependencies ← shape.dependencies.mapM fun dependency =>
    dependency.targets.mapM (ofTarget graph dependency.tag.role)
  return { ResolvedVariant.ofVariant graph registry external module shape with dependencies := dependencies.flatten }

/-- The entries of all modules that are built. -/
def resolved (workspace : Workspace) : Found ResolvedGraph := do
  let entries ← (workspace.graph.modules.filter fun module => !module.can .defaults).mapM fun module =>
    module.variants.mapM (entry workspace.graph workspace.registry workspace.config.external module)
  return ⟨entries.flatten⟩

theorem ofTarget_eq (hg : Consistent graph) (role : Role) {id : VariantId} (hl : graph.isLive id = true) :
    ofTarget graph role id = .ok (ResolvedDependency.ofTarget graph role id) := by
  rw [ofTarget, variant_of_isLive hl, ok_bind, module_eq (hg.owner id hl), ok_bind]
  rfl

theorem entry_eq (hg : Consistent graph) (registry : Registry) (external : ExternalBuild) (module : Module)
    {id : VariantId} (hl : graph.isLive id = true) : entry graph registry external module id =
      .ok (ResolvedVariant.ofVariant graph registry external module (graph.variant id)) := by
  have hdependencies : ∀ dependency ∈ (graph.variant id).dependencies,
      dependency.targets.mapM (ofTarget graph dependency.tag.role) =
        .ok (dependency.targets.map (ResolvedDependency.ofTarget graph dependency.tag.role)) :=
    fun dependency hd => mapM_eq_ok fun target ht => ofTarget_eq hg _ (hg.mem_targets hl hd ht).2.1
  rw [entry, variant_of_isLive hl, ok_bind, mapM_eq_ok hdependencies, ok_bind]
  rfl

theorem resolved_eq {workspace : Workspace} (hg : Consistent workspace.graph) :
    resolved workspace = .ok workspace.resolved := by
  rw [resolved, mapM_eq_ok, ok_bind]
  · rfl
  · intro module hmodule
    -- a module in the list is one with a number
    obtain ⟨m, hm, rfl⟩ := List.getElem_of_mem (List.mem_of_mem_filter hmodule)
    refine mapM_eq_ok fun id hid => entry_eq hg _ _ _ ?_
    refine (hg.current m hm id ?_).1
    rwa [Graph.module, List.getD_eq_getElem?_getD, List.getElem?_eq_getElem hm]

/-! ## From records to the resolved graph -/

/-- Loads packages into a fresh workspace, runs the stages of some visitors and reads off the resolved graph,
whatever was found wrong before: the errors of loading, those of the run, and the resolved graph. -/
def session (config : Config) (types : TypeTable) (visitors : List Visitor) (packages : List PackageRecord) :
    Found (List BuildError × List BuildError × ResolvedGraph) := do
  let (loaded, faults) ← addPackages (Workspace.fresh config types (visitors.map Visitor.stage)) packages
  let build ← runWithDefaults loaded.environment visitors loaded.graph
  let graph ← resolved { loaded with graph := build.graph }
  return (faults, build.errors, graph)

/-- **No look-up ever fails.** Packages loaded into a fresh workspace of any configuration, with any types, and
run through any stages give what they give when everything that is looked up is taken to be there. -/
theorem session_eq_ok (config : Config) (types : TypeTable) (visitors : List Visitor)
    (packages : List PackageRecord) : session config types visitors packages =
      let (loaded, faults) := (Workspace.fresh config types (visitors.map Visitor.stage)).addPackages packages
      let (finished, errors) := loaded.run
      .ok (faults, errors, finished.resolved) := by
  have hempty : (Workspace.fresh config types (visitors.map Visitor.stage)).registry.Holds 0 :=
    Registry.holds_empty config.precedence
  have hrooted := rooted_addPackages config types (visitors.map Visitor.stage) packages
  have hloaded := Workspace.loaded_addPackages config types (visitors.map Visitor.stage) packages
  have hstages := (Workspace.settings_addPackages config types (visitors.map Visitor.stage) packages).2.2
  rw [session, addPackages_eq hempty, ok_bind]
  generalize (Workspace.fresh config types (visitors.map Visitor.stage)).addPackages packages = result at *
  obtain ⟨loaded, faults⟩ := result
  have hbelow : loaded.environment.registry.Below loaded.graph.modules.length := hloaded.holds.below
  have hgraph := hloaded.fresh.consistent
  have hrun : loaded.run = ({ loaded with graph := (Stage.runWithDefaults loaded.environment
      (visitors.map Visitor.stage) loaded.graph).graph }, (Stage.runWithDefaults loaded.environment
      (visitors.map Visitor.stage) loaded.graph).errors) := by
    rw [Workspace.run, hstages]
  dsimp only
  rw [hrun, runWithDefaults_eq hrooted hbelow hgraph, ok_bind,
    resolved_eq (Stage.consistent_runWithDefaults hbelow hgraph _), ok_bind]
  rfl

/-- The ordinary build is the one with the built-in types and visitors. -/
example (config : Config) :
    Workspace.fresh config Builtin.types (Visitor.builtin.map Visitor.stage) = Workspace.empty config := rfl

end Checked
end VariantGraph
