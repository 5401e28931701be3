import VariantGraph.Proofs.Stage.ConfigVariables
import VariantGraph.Proofs.Stage.Dependencies
import VariantGraph.Proofs.Stage.DependencyCheck
import VariantGraph.Proofs.Stage.Missing
import VariantGraph.Stage.Builtin
/-!
# The built-in stages, one after another

Sweeps of the built-in stages without errors go through five graphs (`Chain`). Up to the second one
nothing is split, and each of the others is split on one axis more.
-/
namespace VariantGraph
open VariantGraph.Graph

/-- The graphs after each of the built-in stages that change anything. -/
structure Chain (env : Environment) (start settled wired os arch link : Graph) : Prop where
  toSettled : Transition env .configVariables start settled
  toWired : Transition env .dependencies settled wired
  toOs : Transition env .os wired os
  toArch : Transition env .arch os arch
  toLink : Transition env .link arch link

variable {env : Environment} {start settled wired os arch link after : Graph}

/-- The graphs that sweeps without errors leave, whatever is missing in them. -/
theorem Chain.of_sweeps (hb : env.registry.Below start.modules.length) (hc : Consistent start)
    (h1 : (Stage.configVariables.sweep env start).errors = [])
    (h2 : (Stage.dependencies.sweep env (Stage.after env [.configVariables] start)).errors = [])
    (h3 : (Stage.os.sweep env (Stage.after env [.configVariables, .dependencies] start)).errors = [])
    (h4 : (Stage.arch.sweep env (Stage.after env [.configVariables, .dependencies, .os] start)).errors = [])
    (h5 : (Stage.link.sweep env
      (Stage.after env [.configVariables, .dependencies, .os, .arch] start)).errors = []) :
    Chain env start (Stage.after env [.configVariables] start)
      (Stage.after env [.configVariables, .dependencies] start)
      (Stage.after env [.configVariables, .dependencies, .os] start)
      (Stage.after env [.configVariables, .dependencies, .os, .arch] start)
      (Stage.after env [.configVariables, .dependencies, .os, .arch, .link] start) := by
  have t1 := Stage.transition_sweep hb hc h1
  have t2 := t1.sweep hb h2
  have t3 := t2.sweep (t1.below hb) h3
  have t4 := t3.sweep (t2.below (t1.below hb)) h4
  exact ⟨t1, t2, t3, t4, t4.sweep (t3.below (t2.below (t1.below hb))) h5⟩

/-- A run without errors is a chain; the check of dependencies leaves its last graph as it is. -/
theorem exists_chain (env : Environment) (hb : env.registry.Below start.modules.length) (hc : Consistent start)
    (h : (Stage.runAll env Stage.builtin start).errors = []) : ∃ settled wired os arch,
      Chain env start settled wired os arch (Stage.runAll env Stage.builtin start).graph := by
  rw [Stage.runAll_graph h]
  simp only [Stage.builtin, Stage.runAll_cons_iff] at h
  obtain ⟨h1, -, h2, -, h3, -, h4, -, h5, -, h6, -⟩ := h
  have hkept : Stage.after env Stage.builtin start =
      Stage.after env [.configVariables, .dependencies, .os, .arch, .link] start :=
    (DependencyCheck.passed_of_errors h6).1
  rw [hkept]
  exact ⟨_, _, _, _, .of_sweeps hb hc h1 h2 h3 h4 h5⟩

/-! ## What is split when -/

/-- A stage that splits nothing leaves all modules whole. -/
theorem Transition.whole {stage : Stage} (ht : Transition env stage start after) (h : start.Whole)
    (hs : ∀ graph u, (stage.visit env graph u).split = none) : after.Whole := by
  intro v hv
  obtain ⟨u, hu, hturns, -⟩ := ht.origin hv
  exact (hturns.variations fun graph => hs graph u).trans (h u hu)

section Unsplit
variable (chain : Chain env start settled wired os arch link) (hstart : start.Whole)
include chain hstart

theorem Chain.whole : settled.Whole ∧ wired.Whole := by
  have hsettled := chain.toSettled.whole hstart fun graph u => (ConfigVariables.visit_spec env graph u).2.1
  exact ⟨hsettled, chain.toWired.whole hsettled fun graph u =>
    (Dependencies.effects_act ⟨"deps", env, graph, u, .none⟩ rfl).2.1⟩

theorem Chain.unsplit_os (condition : Condition) (hne : condition ≠ .target) : os.Unsplit condition.axis := by
  refine chain.toOs.unsplit .target (fun he => hne (Condition.axis_injective he.symm)) ?_
  intro v hv
  rw [(chain.whole hstart).2 v hv]; rfl

theorem Chain.unsplit_arch : arch.Unsplit Condition.link.axis :=
  chain.toArch.unsplit .arch (by decide) (chain.unsplit_os hstart .link (by decide))

end Unsplit

end VariantGraph
