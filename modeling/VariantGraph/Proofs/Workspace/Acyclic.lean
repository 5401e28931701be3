import VariantGraph.Proofs.Stage.Acyclic
import VariantGraph.Proofs.Workspace.Success
/-!
# Where a dependency cycle can come from

Main statement (`splits_make_no_cycle`): after a split every target comes of a target before it, so a split makes no
cycle; and a run of the built-in stages reports a cycle, if at all, on the graph that the dependencies were added to.
-/
namespace VariantGraph
open VariantGraph.Graph

/-! ## Runs -/

section
variable {workspace : Workspace} {records : List (String × ModuleRecord)}

/-- Taking over defaults reports no dependency cycle, so one that a run reports comes from the stages. -/
theorem Workspace.run_of_cycle {names : List String} (hmem : .dependencyCycle names ∈ workspace.run.2) :
    workspace.run = ({ workspace with
        graph := (Stage.runAll workspace.environment workspace.stages workspace.merged).graph },
      (Stage.runAll workspace.environment workspace.stages workspace.merged).errors) := by
  have hrun : workspace.run = ({ workspace with
        graph := (Stage.runWithDefaults workspace.environment workspace.stages workspace.graph).graph },
      (Stage.runWithDefaults workspace.environment workspace.stages workspace.graph).errors) := rfl
  by_cases hmerged : (Defaults.propagate workspace.registry workspace.types workspace.graph).errors = []
  · have hstages : Stage.runWithDefaults workspace.environment workspace.stages workspace.graph =
        Stage.runAll workspace.environment workspace.stages workspace.merged := if_pos hmerged
    rw [hrun, hstages]
  · have hdefaults : Stage.runWithDefaults workspace.environment workspace.stages workspace.graph =
        Defaults.propagate workspace.registry workspace.types workspace.graph := if_neg hmerged
    rw [hrun, hdefaults] at hmem
    exact absurd hmem (noCycleIn_propagate _ _ _ names)

/-- A run of the built-in stages over a loaded workspace reports a dependency cycle on the graph with the new
dependencies, and nothing else. -/
theorem Workspace.Loaded.run_of_cycle (h : workspace.Loaded records) (hstages : workspace.stages = Stage.builtin)
    {names : List String} (hmem : .dependencyCycle names ∈ workspace.run.2) :
    (Stage.configVariables.run workspace.environment workspace.merged).errors = [] ∧
    (Stage.dependencies.run workspace.environment
      (Stage.configVariables.run workspace.environment workspace.merged).graph).errors = [] ∧
    ∃ cycle, (Stage.after workspace.environment [.configVariables, .dependencies] workspace.merged).waves =
        .error cycle ∧
      workspace.run.1.graph = Stage.after workspace.environment [.configVariables, .dependencies] workspace.merged ∧
      workspace.run.2 = [(Stage.after workspace.environment [.configVariables, .dependencies]
        workspace.merged).cycleError cycle] := by
  have hrun := Workspace.run_of_cycle hmem
  rw [hstages] at hrun
  rw [hrun] at hmem ⊢
  have hsettled := settled_merged h
  have hbelow : workspace.environment.registry.Below workspace.merged.modules.length := hsettled.below
  obtain ⟨hfirst, hsecond, cycle, hwaves, heq⟩ := runAll_of_cycle hbelow hsettled.consistent
    (fun v hv => (h.start hv).1) (fun v hv => (h.start hv).2) hmem
  exact ⟨hfirst, hsecond, cycle, hwaves, by rw [heq], by rw [heq]⟩

end

/-- **Splits refine a graph and make no cycle.** When a live variant of a graph that the operations reach is split on
an axis on which it has no value yet, then what is live afterwards are the new variants and the old ones but that one.
Each of their dependencies comes of one with the same key, of the variant itself or, for a new one, of the one that was
split, and each of its targets comes of a target in the same way. What led nowhere from the variant leads nowhere from
the new ones, and if there was no cycle there is none. So when packages are loaded into a fresh workspace and a run of
the built-in stages reports a dependency cycle, the stages that settle variables and ask for dependencies found nothing
wrong, the graph that they left has a cycle, and the run ended there with that error only. -/
theorem splits_make_no_cycle :
    (∀ (graph : Graph) (old : VariantId) (axis : String) (values : List (String × Properties)),
      Reachable graph → graph.isLive old = true → (graph.variant old).variations.value? axis = none → values ≠ [] →
      let after := graph.split old axis values
      let origin := fun w => if w ∈ graph.createdBy values then old else w
      (∀ w, after.isLive w = true ↔ (graph.isLive w = true ∧ w ≠ old) ∨ w ∈ graph.createdBy values) ∧
      (∀ w, after.isLive w = true → ∀ d ∈ (after.variant w).dependencies,
        ∃ d' ∈ (graph.variant (origin w)).dependencies, d'.key = d.key ∧ ∀ t ∈ d.targets, origin t ∈ d'.targets) ∧
      (∀ d ∈ (graph.variant old).dependencies, d.targets = [] → ∀ w ∈ graph.createdBy values,
        ∀ d' ∈ (after.variant w).dependencies, d'.key = d.key → d'.targets = []) ∧
      ((∀ v, ¬ Relation.TransGen graph.DependsOn v v) → ∀ v, ¬ Relation.TransGen after.DependsOn v v)) ∧
    ∀ (config : Config) (types : TypeTable) (packages : List PackageRecord) (names : List String),
      let workspace := ((Workspace.fresh config types Stage.builtin).addPackages packages).1
      let settled := Stage.configVariables.run workspace.environment workspace.merged
      let wired := Stage.dependencies.run workspace.environment settled.graph
      .dependencyCycle names ∈ workspace.run.2 →
        settled.errors = [] ∧ wired.errors = [] ∧ ∃ cycle, wired.graph.waves = .error cycle ∧
          workspace.run.1.graph = wired.graph ∧ workspace.run.2 = [wired.graph.cycleError cycle] := by
  refine ⟨fun graph old axis values hreach hlive hfree hne => ?_, fun config types packages names => ?_⟩
  · intro after origin
    have hbefore := hreach.consistent
    have hafter := hbefore.split axis values hlive
    have hprojects : Projects origin graph after := projects_split hlive hfree hne
    refine ⟨fun w => isLive_split hne, fun w hw d hd => hprojects.targets hbefore hafter hw hd, ?_,
      hprojects.acyclic hbefore hafter⟩
    intro d hd hnone w hw d' hd' hkey
    have hwlive : after.isLive w = true := (isLive_split hne).2 (Or.inr hw)
    obtain ⟨d₀, hd₀, hkey₀, htargets⟩ := hprojects.targets hbefore hafter hwlive hd'
    rw [show origin w = old from if_pos hw] at hd₀
    -- no two dependencies of the old variant have the same key
    obtain rfl : d₀ = d := List.inj_on_of_nodup_map (hbefore.distinct old hlive) hd₀ hd (hkey₀.trans hkey)
    refine List.eq_nil_iff_forall_not_mem.2 fun t ht => ?_
    have htarget := htargets t ht
    rw [hnone] at htarget
    cases htarget
  · intro workspace settled wired hmem
    have hstages := (Workspace.settings_addPackages config types Stage.builtin packages).2.2
    have hwired : wired.graph = Stage.after workspace.environment [.configVariables, .dependencies] workspace.merged := by
      simp only [wired, settled, Stage.run_graph]
      rfl
    rw [hwired]
    exact (Workspace.loaded_addPackages config types Stage.builtin packages).run_of_cycle hstages hmem

/-- A module that depends on another one. -/
def Graph.usedOnce : Graph :=
  ((Graph.empty.addModule default []).addModule default []).addDependency 0 (.ofRole .dep) 1 "deps"

/-- Two libraries that are linked with each other. -/
def linkedInCircle : List PackageRecord :=
  [⟨"app", none, none, [⟨"cc_library", "a", [("shared_libs", .array [.string "b"])]⟩,
    ⟨"cc_library", "b", [("shared_libs", .array [.string "a"])]⟩]⟩]

theorem splits_make_no_cycle_usedOnce :
    (Reachable usedOnce ∧ (usedOnce.split 1 "arch" [("arm", []), ("x86", [])]).isLive 3 = true ∧
      ∀ v, ¬ Relation.TransGen (usedOnce.split 1 "arch" [("arm", []), ("x86", [])]).DependsOn v v) ∧
    ∃ names, .dependencyCycle names ∈ (Workspace.onLinux linkedInCircle).run.2 ∧
      (Workspace.onLinux linkedInCircle).run.2.length = 1 := by
  have hreach : Reachable usedOnce :=
    ((Relation.ReflTransGen.refl.tail (.addModule default [])).tail (.addModule default [])).tail
      (.addDependency (.ofRole .dep) "deps" rfl (by decide))
  have hacyclic : usedOnce.Acyclic := exists_waves_iff.1 ⟨[[1], [0]], by decide +kernel⟩
  have hsplit := splits_make_no_cycle.1 usedOnce 1 "arch" [("arm", []), ("x86", [])] hreach rfl rfl
    (List.cons_ne_nil _ _)
  have hcycle : .dependencyCycle ["a", "b", "a"] ∈ (Workspace.onLinux linkedInCircle).run.2 := by decide +kernel
  obtain ⟨-, -, cycle, -, -, herrors⟩ := splits_make_no_cycle.2 _ _ linkedInCircle _ hcycle
  exact ⟨⟨hreach, (hsplit.1 3).2 (Or.inr (by decide)), hsplit.2.2.2 hacyclic⟩, _, hcycle, congrArg List.length herrors⟩

end VariantGraph
