import VariantGraph.Proofs.Graph.Levelling
import VariantGraph.Proofs.Graph.Projection
import VariantGraph.Proofs.Stage.Chain
import VariantGraph.Proofs.Stage.Faults
/-!
# Only new dependencies make cycles

A splitting stage projects onto the graph before it, so what was free of cycles stays so (`Transition.acyclic`), and
no stage after it reports one (`noCycleIn_splits`). Before the dependencies are asked for there are none. So the
built-in stages report a dependency cycle on one graph only, the one that the dependencies were added to
(`runAll_of_cycle`).
-/
namespace VariantGraph
open VariantGraph.Graph

variable {env : Environment} {start after graph : Graph}

/-! ## Graphs without cycles -/

/-- There are waves exactly if there is no cycle. -/
theorem Graph.exists_waves_iff : (∃ waves, graph.waves = .ok waves) ↔ graph.Acyclic := by
  refine ⟨fun ⟨waves, hwaves⟩ v hv => ?_, exists_waves⟩
  have hnone := Digraph.levels?_eq_none_iff.2 (exists_path_iff.2 ⟨v, hv⟩)
  rw [levels?_of_waves hwaves] at hnone
  cases hnone

theorem Graph.Acyclic.findCycle? (h : graph.Acyclic) : graph.findCycle? = none := by
  have hnone : graph.dependencyGraph.cycles = [] := Digraph.cycles_eq_nil_iff.2 fun v hv =>
    h v (dependsOn_of_path (mem_liveIds.1 hv.mem_nodes) hv).1
  rw [Graph.findCycle?, hnone]
  rfl

/-- No live variant depends on anything. -/
def Graph.Loose (graph : Graph) : Prop := ∀ v, graph.isLive v = true → (graph.variant v).dependencies = []

theorem Graph.Loose.acyclic (h : graph.Loose) : graph.Acyclic := fun v hv => by
  obtain ⟨t, ⟨hlive, ht, -⟩, -⟩ := Relation.TransGen.head'_iff.1 hv
  rw [Variant.targets, h v hlive] at ht
  cases ht

/-! ## What stages keep -/

theorem Transition.loose (ht : Transition env .configVariables start after) (h : start.Loose) : after.Loose := by
  intro v hv
  obtain ⟨u, hu, hturns, -⟩ := ht.origin hv
  obtain ⟨effects, hvisited, hmem⟩ := hturns
  obtain ⟨graph, -, -, rfl⟩ := hvisited.seen
  have hkeys : (after.variant v).dependencies.map Dependency.key = [] := by
    refine List.eq_nil_iff_forall_not_mem.2 fun k hk => ?_
    rw [← Variant.keys_bare, mem_keys_outcome hmem, Variant.keys_bare, h u hu,
      (ConfigVariables.visit_spec env graph u).1] at hk
    simp at hk
  exact List.map_eq_nil_iff.1 hkeys

/-- A splitting stage projects onto the graph before it. -/
theorem Transition.projects {condition : Condition} (ht : Transition env condition.stage start after)
    (hunsplit : start.Unsplit condition.axis) : ∃ origin, Projects origin start after := by
  choose! origin hlive hturns hmodule _ using fun v (hv : after.isLive v = true) => ht.origin hv
  refine ⟨origin, hlive, fun w hw => (hmodule w hw).symm, fun w hw => ?_, fun w hw k hk => ?_⟩
  · rw [← Variant.bare_variations (after.variant w)]
    rcases (hturns w hw).variations_stage with he | ⟨value, he⟩
    · rw [he]
      exact .refl _
    · rw [he]
      exact Variations.refines_assign (hunsplit _ (hlive w hw)) value
  · rw [← Variant.keys_bare, (hturns w hw).keys_stage] at hk
    exact hk

/-- **A splitting stage makes no cycle.** -/
theorem Transition.acyclic {condition : Condition} (ht : Transition env condition.stage start after)
    (hc : Consistent start) (hunsplit : start.Unsplit condition.axis) (h : start.Acyclic) : after.Acyclic := by
  obtain ⟨origin, hprojects⟩ := ht.projects hunsplit
  exact hprojects.acyclic hc ht.consistent h

/-! ## Runs that report no cycle -/

/-- A calm stage on a graph without cycles reports none, so a cycle that is reported comes later. -/
theorem Stage.Calm.later {stage : Stage} {rest : List Stage} (hs : stage.Calm env) (h : graph.Acyclic)
    {names : List String} (hmem : .dependencyCycle names ∈ (Stage.runAll env (stage :: rest) graph).errors) :
    (stage.run env graph).errors = [] ∧
      Stage.runAll env (stage :: rest) graph = Stage.runAll env rest (stage.sweep env graph).graph := by
  obtain ⟨waves, hwaves⟩ := exists_waves h
  rw [← Stage.run_graph]
  by_cases he : (stage.run env graph).errors = []
  · exact ⟨he, if_pos he⟩
  · rw [Stage.runAll, if_neg he] at hmem
    exact absurd hmem (hs.run hwaves names)

theorem calm_stage (env : Environment) (condition : Condition) : condition.stage.Calm env :=
  calm_builtin env _ (by cases condition <;> simp [Stage.builtin, Condition.stage])

/-- Splits and the check of dependencies report no cycle on a graph without cycles. -/
theorem noCycleIn_splits {conditions : List Condition} (hnodup : conditions.Nodup)
    (hb : env.registry.Below start.modules.length) (hc : Consistent start)
    (hunsplit : ∀ condition ∈ conditions, start.Unsplit condition.axis) (h : start.Acyclic) :
    NoCycleIn (Stage.runAll env (conditions.map Condition.stage ++ [.dependencyCheck]) start).errors := by
  intro names hmem
  induction conditions generalizing start with
  | nil =>
    obtain ⟨he, heq⟩ := (calm_builtin env .dependencyCheck (by simp [Stage.builtin])).later h hmem
    have hkept := (DependencyCheck.passed_of_errors ((Stage.run_errors _ _ _).1 he).1).1
    simp [heq, hkept, Stage.runAll, h.findCycle?] at hmem
  | cons condition conditions ih =>
    obtain ⟨hfresh, hnodup⟩ := List.nodup_cons.1 hnodup
    rw [List.map_cons, List.cons_append] at hmem
    obtain ⟨he, heq⟩ := (calm_stage env condition).later h hmem
    rw [heq] at hmem
    have ht := condition.stage.transition_sweep hb hc ((Stage.run_errors _ _ _).1 he).1
    have hfree := hunsplit condition List.mem_cons_self
    refine ih hnodup (ht.below hb) ht.consistent (fun other hother => ?_) (ht.acyclic hc hfree h) hmem
    refine ht.unsplit condition (fun haxis => hfresh ?_) (hunsplit other (List.mem_cons_of_mem _ hother))
    rwa [Condition.axis_injective haxis]

/-- A stage that finds a cycle reports it and is the last one that runs. -/
theorem Stage.runAll_of_waves {stage : Stage} {rest : List Stage} {cycle : List VariantId}
    (h : graph.waves = .error cycle) :
    Stage.runAll env (stage :: rest) graph = ⟨graph, [graph.cycleError cycle]⟩ := by
  have hrun : stage.run env graph = ⟨graph, [graph.cycleError cycle]⟩ := by rw [Stage.run, h]
  rw [Stage.runAll, hrun]
  exact if_neg (List.cons_ne_nil _ _)

/-- **The built-in stages report cycles on one graph only.** When nothing was split and nothing depends on anything
at first, and a dependency cycle is reported, then the first two stages found nothing wrong, the graph that they left
has no waves, and the run ended there, with nothing else to report. -/
theorem runAll_of_cycle (hb : env.registry.Below start.modules.length) (hc : Consistent start) (hwhole : start.Whole)
    (hloose : start.Loose) {names : List String}
    (h : .dependencyCycle names ∈ (Stage.runAll env Stage.builtin start).errors) :
    (Stage.configVariables.run env start).errors = [] ∧
    (Stage.dependencies.run env (Stage.configVariables.run env start).graph).errors = [] ∧
    ∃ cycle, (Stage.after env [.configVariables, .dependencies] start).waves = .error cycle ∧
      Stage.runAll env Stage.builtin start = ⟨Stage.after env [.configVariables, .dependencies] start,
        [(Stage.after env [.configVariables, .dependencies] start).cycleError cycle]⟩ := by
  obtain ⟨he, heq⟩ := (calm_builtin env .configVariables (by simp [Stage.builtin])).later hloose.acyclic h
  have ht := Stage.transition_sweep hb hc ((Stage.run_errors _ _ _).1 he).1
  have hsettled := ht.whole hwhole fun graph u => (ConfigVariables.visit_spec env graph u).2.1
  rw [Stage.builtin, heq] at h
  obtain ⟨he', heq'⟩ := (calm_builtin env .dependencies (by simp [Stage.builtin])).later (ht.loose hloose).acyclic h
  have ht' := ht.sweep hb ((Stage.run_errors _ _ _).1 he').1
  have hwired := ht'.whole hsettled fun graph u =>
    (Dependencies.effects_act ⟨"deps", env, graph, u, .none⟩ rfl).2.1
  rw [heq'] at h
  refine ⟨he, by rwa [Stage.run_graph], ?_⟩
  rw [Stage.builtin, heq, heq']
  cases hwaves : (Stage.after env [.configVariables, .dependencies] start).waves with
  | error cycle => exact ⟨cycle, rfl, Stage.runAll_of_waves hwaves⟩
  | ok waves =>
    -- without a cycle there the splits would not report one
    refine absurd h (noCycleIn_splits (by decide : [Condition.target, .arch, .link].Nodup) (ht'.below (ht.below hb))
      ht'.consistent (fun condition _ v hv => ?_) (exists_waves_iff.1 ⟨waves, hwaves⟩) names)
    rw [hwired v hv]
    rfl

end VariantGraph
