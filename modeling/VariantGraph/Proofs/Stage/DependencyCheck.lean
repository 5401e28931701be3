import VariantGraph.Proofs.Stage.Run
import VariantGraph.Stage.DependencyCheck
/-!
# The check of dependencies, as a whole

A stage that asks for nothing leaves the graph as it is (`Stage.sweep_of_quiet`). The check of
dependencies is one: without errors, all variants that are built pass it in the graph that comes out.
-/
namespace VariantGraph
open VariantGraph.Graph

/-- Nothing is asked for; there may be errors. -/
structure Effects.Quiet (effects : Effects) : Prop where
  properties : effects.properties = .none
  requests : effects.requests = []
  split : effects.split = .none

variable {env : Environment} {stage : Stage} {graph : Graph}

namespace Build

theorem apply_of_quiet {build : Build} {id : VariantId} {effects : Effects} (h : effects.Quiet) :
    build.apply env id effects = ⟨build.graph, build.errors ++ effects.errors⟩ := by
  rw [apply_eq, h.split, applyUnsplit, changeOn, h.requests, h.properties]; rfl

theorem runWave_of_quiet (hq : ∀ graph id, (stage.visit env graph id).Quiet) (build : Build)
    (wave : List VariantId) : build.runWave env stage wave =
      ⟨build.graph, build.errors ++ wave.flatMap fun id => (stage.visit env build.graph id).errors⟩ := by
  -- the effects of the wave were found on one graph, which the visits leave alone
  have hfold : ∀ (seen : Graph) (wave : List VariantId) (build : Build),
      wave.foldl (fun build id => apply env build id (stage.visit env seen id)) build =
        ⟨build.graph, build.errors ++ wave.flatMap fun id => (stage.visit env seen id).errors⟩ := by
    intro seen wave
    induction wave with
    | nil => intro build; simp
    | cons id wave ih =>
      intro build
      rw [List.foldl_cons, ih, apply_of_quiet (hq seen id)]
      simp
  unfold runWave
  rw [List.foldl_map]
  exact hfold build.graph wave build

theorem runWaves_of_quiet (hq : ∀ graph id, (stage.visit env graph id).Quiet) (build : Build)
    (waves : List (List VariantId)) : waves.foldl (runWave env stage) build =
      ⟨build.graph,
        build.errors ++ waves.flatten.flatMap fun id => (stage.visit env build.graph id).errors⟩ := by
  induction waves generalizing build with
  | nil => simp
  | cons wave waves ih => rw [List.foldl_cons, ih, runWave_of_quiet hq]; simp

end Build

/-- A stage that asks for nothing, without errors: the graph stays, and no visit finds fault with it. -/
theorem Stage.sweep_of_quiet (hq : ∀ graph id, (stage.visit env graph id).Quiet)
    (h : (stage.sweep env graph).errors = []) : (stage.sweep env graph).graph = graph ∧
      ∀ v, graph.isLive v = true → (stage.visit env graph v).errors = [] := by
  unfold Stage.sweep at h ⊢
  cases hw : graph.waves with
  | error path => rw [hw] at h; cases h
  | ok waves =>
    simp only [hw, Build.runWaves_of_quiet hq, List.nil_append] at h ⊢
    refine ⟨trivial, fun v hv => ?_⟩
    have hperm := perm_arrange stage.direction hw
    exact List.flatMap_eq_nil_iff.1 h v (hperm.mem_iff.2 (mem_liveIds.2 hv))

namespace DependencyCheck

theorem fault?_eq_none {d : Dependency} : fault? graph d = none ↔
    (d.tag.role = .tool → (graph.module d.module).can .hostToolProvider = true) ∧
      ∀ t ∈ d.targets, isDisabled (graph.variant t).properties = false := by
  simp only [fault?]
  by_cases htool : d.tag.role = .tool ∧ (graph.module d.module).can .hostToolProvider = false
  · simp [htool]
  · have hnot : (decide (d.tag.role = .tool) && !(graph.module d.module).can .hostToolProvider) = false := by
      simpa using htool
    have htool' : d.tag.role = .tool → (graph.module d.module).can .hostToolProvider = true := by
      simpa using htool
    simp only [hnot, Bool.false_eq_true, if_false]
    simpa using fun _ => htool'

/-- The errors for some dependencies of a visited variant. -/
def faults (visit : Visit) (dependencies : List Dependency) : List BuildError :=
  dependencies.filterMap fun dependency => (fault? visit.graph dependency).map fun fault =>
    .stageFault visit.stage visit.origin (some dependency.property) fault

theorem foldl_blame (visit : Visit) (dependencies : List Dependency) :
    dependencies.foldl (fun visit dependency =>
      match fault? visit.graph dependency with
      | some fault => visit.blame (some dependency.property) fault
      | none => visit) visit =
    { visit with effects := { visit.effects with
        errors := visit.effects.errors ++ faults visit dependencies } } := by
  induction dependencies generalizing visit with
  | nil => simp [faults]
  | cons d dependencies ih =>
    rw [List.foldl_cons, ih]
    cases hf : fault? visit.graph d with
    | none => simp [faults, hf]
    | some fault => simp [faults, hf, Visit.blame, Visit.fail, Visit.origin, Visit.module, Visit.variant]

theorem visit_eq (env : Environment) (graph : Graph) (id : VariantId) :
    Stage.dependencyCheck.visit env graph id =
      ⟨.none, [], .none, if isDisabled (graph.variant id).properties then []
        else faults ⟨"dependency_check", env, graph, id, .none⟩ (graph.variant id).dependencies⟩ := by
  simp only [Stage.dependencyCheck, Stage.ofVisit, act]
  split
  · next h =>
    rw [if_pos (by simpa [Visit.properties, Visit.variant, Effects.none] using h)]; rfl
  · next h =>
    rw [if_neg (by simpa [Visit.properties, Visit.variant, Effects.none] using h)]
    exact congrArg Visit.effects
      (foldl_blame ⟨"dependency_check", env, graph, id, .none⟩ (graph.variant id).dependencies)

/-- **Variants that are built have tools for tools and nothing disabled below them.** -/
theorem passed_of_errors (h : (Stage.dependencyCheck.sweep env graph).errors = []) :
    (Stage.dependencyCheck.sweep env graph).graph = graph ∧
      ∀ v, graph.isLive v = true → isDisabled (graph.variant v).properties = false →
        ∀ d ∈ (graph.variant v).dependencies,
          (∀ t ∈ d.targets, isDisabled (graph.variant t).properties = false) ∧
          (d.tag.role = .tool → (graph.module d.module).can .hostToolProvider = true) := by
  obtain ⟨hg, hall⟩ := Stage.sweep_of_quiet (by
    intro graph id
    rw [visit_eq]; exact ⟨rfl, rfl, rfl⟩) h
  refine ⟨hg, fun v hv hdis d hd => ?_⟩
  have hnone := hall v hv
  rw [visit_eq, hdis] at hnone
  simp only [Bool.false_eq_true, if_false, faults, List.filterMap_eq_nil_iff, Option.map_eq_none_iff] at hnone
  exact (fault?_eq_none.1 (hnone d hd)).symm

end DependencyCheck
end VariantGraph
