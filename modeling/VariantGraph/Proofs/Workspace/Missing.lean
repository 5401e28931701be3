import VariantGraph.Proofs.Stage.Search
import VariantGraph.Proofs.Workspace.Success
/-!
# When a missing target is reported

Missing targets are searched for after every stage. Main statement (`run_iff_searched_once`): exactly
when no idle dependency is found missing early, a run succeeds if one that searches once, after the last
split, does.
-/
namespace VariantGraph
open VariantGraph.Graph

/-- The run of a workspace in which only some stages are followed by a search for missing targets. -/
def Workspace.runSearching (workspace : Workspace) (searched : Stage → Bool) : Build :=
  let build := Defaults.propagate workspace.registry workspace.types workspace.graph
  if build.errors = [] then
    Stage.runSearching workspace.environment searched workspace.stages build.graph
  else build

variable {workspace : Workspace} {records : List (String × ModuleRecord)}

/-- The run of a workspace searches after every stage. -/
theorem Workspace.errors_run : workspace.run.2 = (workspace.runSearching fun _ => true).errors := by
  simp only [runSearching, Stage.runSearching_always]
  rfl

/-- A run is free of errors if taking over defaults is, and then the stages are. -/
theorem Workspace.runSearching_iff {searched : Stage → Bool} : (workspace.runSearching searched).errors = [] ↔
    (Defaults.propagate workspace.registry workspace.types workspace.graph).errors = [] ∧
      (Stage.runSearching workspace.environment searched workspace.stages workspace.merged).errors = [] :=
  Build.errors_ite

theorem run_iff_searched_once_of_loaded (hl : workspace.Loaded records)
    (hstages : workspace.stages = Stage.builtin) (harchs : workspace.config.device.archs ≠ []) :
    let bySystem := Stage.after workspace.environment [.configVariables, .dependencies, .os] workspace.merged
    let byArch := Stage.after workspace.environment [.configVariables, .dependencies, .os, .arch] workspace.merged
    workspace.run.2 = [] ↔ (workspace.runSearching Stage.isLastSplit).errors = [] ∧
      (∀ v d, (v, d) ∈ bySystem.missing → ¬ bySystem.Idle workspace.config .arch v d.tag ∧
        ¬ bySystem.Idle workspace.config .link v d.tag) ∧
      ∀ v d, (v, d) ∈ byArch.missing → ¬ byArch.Idle workspace.config .link v d.tag := by
  intro bySystem byArch
  have hsettled := settled_merged hl
  have hiff := Stage.runAll_builtin workspace.environment hsettled.below hsettled.consistent
    (fun v hv => (hl.start hv).1) harchs
  rw [Workspace.errors_run, Workspace.runSearching_iff, Workspace.runSearching_iff, hstages,
    Stage.runSearching_always]
  exact (and_congr_right' hiff).trans and_assoc.symm

/-- **A missing target is reported early exactly when it is missing in the end, or idle.** Over all
packages and all configurations that are accepted, a run of the built-in stages succeeds if and only if
the run that searches for missing targets once, after the last split, does, and no dependency that is
missing after the split by system or by architecture is idle for a split still to come. -/
theorem run_iff_searched_once (config : Config) (types : TypeTable) (packages : List PackageRecord)
    (hvalid : config.fault? = none) :
    let workspace := ((Workspace.fresh config types Stage.builtin).addPackages packages).1
    let bySystem := Stage.after workspace.environment [.configVariables, .dependencies, .os] workspace.merged
    let byArch := Stage.after workspace.environment [.configVariables, .dependencies, .os, .arch] workspace.merged
    workspace.run.2 = [] ↔ (workspace.runSearching Stage.isLastSplit).errors = [] ∧
      (∀ v d, (v, d) ∈ bySystem.missing →
        ¬ bySystem.Idle config .arch v d.tag ∧ ¬ bySystem.Idle config .link v d.tag) ∧
      ∀ v d, (v, d) ∈ byArch.missing → ¬ byArch.Idle config .link v d.tag := by
  intro workspace bySystem byArch
  obtain ⟨hconfig, -, hstages⟩ := Workspace.settings_addPackages config types Stage.builtin packages
  have hiff := run_iff_searched_once_of_loaded
    (Workspace.loaded_addPackages config types Stage.builtin packages) hstages
    (by rw [hconfig]; exact archs_ne_nil hvalid)
  rw [hconfig] at hiff
  exact hiff

theorem run_iff_searched_once_programWithLibrary :
    Config.onLinux.fault? = none ∧
    ((Workspace.onLinux programWithLibrary).runSearching Stage.isLastSplit).errors = [] := by
  have hvalid : Config.onLinux.fault? = none := by decide
  exact ⟨hvalid, ((run_iff_searched_once _ _ _ hvalid).1 (by decide +kernel)).1⟩

/-- A program for the device whose branch for another architecture lists a library for the host only. -/
def programWithIdleBranch : List PackageRecord :=
  [⟨"p", none, none, [⟨"cc_binary", "a",
      [("arch", .object [("x86", .object [("shared_libs", .array [.string "x"])])])]⟩,
    ⟨"cc_library", "x", [("device_supported", .bool false), ("host_supported", .bool true)]⟩]⟩]

/-- The search after the split by system finds a dependency missing that no final variant has. -/
theorem reported_early_programWithIdleBranch :
    Config.onLinux.fault? = none ∧
    ((Workspace.onLinux programWithIdleBranch).runSearching Stage.isLastSplit).errors = [] ∧
    (Workspace.onLinux programWithIdleBranch).run.2 =
      [.missingVariant ⟨"a", "p"⟩ "\x7bos: android\x7d" "arch.x86.shared_libs" "x"] := by
  refine ⟨by decide, by decide +kernel, by decide +kernel⟩

end VariantGraph
