import VariantGraph.Proofs.Stage.Chain
/-!
# When missing targets are searched for

Every stage is followed by a search for dependencies that exist and lead nowhere. `Stage.runSearching`
leaves the search out after some stages. For the built-in stages one search, when all splits are done,
finds fault with every graph with which the early searches do, unless a dependency is idle
(`Stage.runAll_builtin`).
-/
namespace VariantGraph
open VariantGraph.Graph

/-- Stages one after another, of which only some are followed by a search for missing targets. -/
def Stage.runSearching (env : Environment) (searched : Stage → Bool) : List Stage → Graph → Build
  | [], graph => Stage.runAll env [] graph
  | stage :: rest, graph =>
    let build := if searched stage then stage.run env graph else stage.sweep env graph
    if build.errors = [] then Stage.runSearching env searched rest build.graph else build

/-- Whether a stage is the last one that splits. -/
def Stage.isLastSplit (stage : Stage) : Bool := stage.name = "link"

variable {env : Environment} {stage : Stage} {rest : List Stage} {start settled wired os arch link after : Graph}

theorem Stage.runSearching_cons_iff {searched : Stage → Bool} :
    (Stage.runSearching env searched (stage :: rest) start).errors = [] ↔
      (stage.sweep env start).errors = [] ∧
      (searched stage = true → (stage.sweep env start).graph.missing = []) ∧
      (Stage.runSearching env searched rest (stage.sweep env start).graph).errors = [] := by
  rw [Stage.runSearching]
  refine Build.errors_ite.trans ?_
  cases searched stage with
  | false => simp
  | true => simp [stage.run_errors, stage.run_graph, and_assoc]

/-- With a search after every stage nothing is left out. -/
theorem Stage.runSearching_always (stages : List Stage) (graph : Graph) :
    Stage.runSearching env (fun _ => true) stages graph = Stage.runAll env stages graph := by
  induction stages generalizing graph with
  | nil => rfl
  | cons stage stages ih => rw [Stage.runSearching, Stage.runAll]; simp only [if_true, ih]

/-! ## Searches that are not needed -/

/-- Whether a dependency is idle for the split by link mode is not changed by the split before. -/
theorem not_idle_link {config : Config} {v w : VariantId} {tag : Tag} (h : ¬ start.Idle config .link v tag)
    (hh : SameHeaders after start) (hm : (after.variant w).module = (start.variant v).module)
    (ha : tag.appliesTo (after.variant w).variations = true) : ¬ after.Idle config .link w tag := by
  rintro ⟨hcan, hnone⟩
  refine h ⟨?_, fun choice hc => Bool.eq_false_iff.2 fun hnow => ?_⟩
  · unfold moduleOf at hcan ⊢
    rw [← hm, ← hh.can]; exact hcan
  · have happlies : tag.appliesTo ((after.variant w).variations.assign Condition.link.axis choice.1) = true :=
      Variations.compatible_assign ha hnow
    rw [hnone choice hc] at happlies
    cases happlies

section
variable (chain : Chain env start settled wired os arch link)
  (hstart : start.Whole) (harchs : env.config.device.archs ≠ []) {v : VariantId} {k : ModuleId × Tag}
include chain hstart harchs

/-- What is missing before the last split is missing after it, unless it is idle. -/
theorem Chain.misses_of_arch (hm : arch.Misses v k) (hlink : ¬ arch.Idle env.config .link v k.2) :
    ∃ w, link.Misses w k ∧ (link.variant w).DescendsFrom (arch.variant v) :=
  chain.toLink.misses .link harchs (chain.unsplit_arch hstart) hm hlink

/-- What is missing after the split by system is missing in the end, unless it is idle. -/
theorem Chain.misses_of_os (hm : os.Misses v k) (harch : ¬ os.Idle env.config .arch v k.2)
    (hlink : ¬ os.Idle env.config .link v k.2) :
    ∃ w, link.Misses w k ∧ (link.variant w).DescendsFrom (os.variant v) := by
  obtain ⟨u, hu, hdescends⟩ := chain.toArch.misses .arch harchs
    (chain.unsplit_os hstart .arch (by decide)) hm harch
  obtain ⟨w, hw, hlast⟩ := chain.misses_of_arch hstart harchs hu
    (not_idle_link hlink chain.toArch.headers hdescends.module hu.applies)
  exact ⟨w, hw, hlast.trans hdescends⟩

/-- Graphs in which nothing idle is missing have nothing missing if nothing is in the end. -/
theorem Chain.missing_eq_nil (hlast : link.missing = [])
    (hsystem : ∀ v d, (v, d) ∈ os.missing →
      ¬ os.Idle env.config .arch v d.tag ∧ ¬ os.Idle env.config .link v d.tag)
    (harch : ∀ v d, (v, d) ∈ arch.missing → ¬ arch.Idle env.config .link v d.tag) :
    settled.missing = [] ∧ wired.missing = [] ∧ os.missing = [] ∧ arch.missing = [] := by
  obtain ⟨hsettled, hwired⟩ := chain.whole hstart
  have hend : ∀ w k, ¬ link.Misses w k := by
    intro w k hm
    obtain ⟨d, hd⟩ := chain.toLink.consistent.exists_mem_missing hm
    rw [hlast] at hd; cases hd
  refine ⟨chain.toSettled.consistent.missing_eq_nil hsettled,
    chain.toWired.consistent.missing_eq_nil hwired, List.eq_nil_iff_forall_not_mem.2 fun ⟨v, d⟩ hd => ?_,
    List.eq_nil_iff_forall_not_mem.2 fun ⟨v, d⟩ hd => ?_⟩
  · obtain ⟨w, hw, -⟩ := chain.misses_of_os hstart harchs (chain.toOs.consistent.misses_of_mem hd)
      (hsystem v d hd).1 (hsystem v d hd).2
    exact hend w _ hw
  · obtain ⟨w, hw, -⟩ := chain.misses_of_arch hstart harchs (chain.toArch.consistent.misses_of_mem hd)
      (harch v d hd)
    exact hend w _ hw

end

/-- **One search finds what all searches find, but for idle dependencies.** The searches before the
last split only find dependencies that the search after it finds, too, or that are idle. -/
theorem Stage.runAll_builtin (env : Environment) (hb : env.registry.Below start.modules.length) (hc : Consistent start)
    (hstart : start.Whole) (harchs : env.config.device.archs ≠ []) :
    let bySystem := Stage.after env [.configVariables, .dependencies, .os] start
    let byArch := Stage.after env [.configVariables, .dependencies, .os, .arch] start
    (Stage.runAll env Stage.builtin start).errors = [] ↔
      (Stage.runSearching env Stage.isLastSplit Stage.builtin start).errors = [] ∧
      (∀ v d, (v, d) ∈ bySystem.missing →
        ¬ bySystem.Idle env.config .arch v d.tag ∧ ¬ bySystem.Idle env.config .link v d.tag) ∧
      ∀ v d, (v, d) ∈ byArch.missing → ¬ byArch.Idle env.config .link v d.tag := by
  intro bySystem byArch
  simp only [Stage.builtin, Stage.runAll_cons_iff, Stage.runSearching_cons_iff]
  constructor
  · rintro ⟨s1, m1, s2, m2, s3, m3, s4, m4, s5, m5, s6, m6, hend⟩
    refine ⟨⟨s1, fun _ => m1, s2, fun _ => m2, s3, fun _ => m3, s4, fun _ => m4, s5, fun _ => m5, s6,
      fun _ => m6, hend⟩, fun v d hd => ?_, fun v d hd => ?_⟩
    · exact absurd hd (m3 ▸ List.not_mem_nil)
    · exact absurd hd (m4 ▸ List.not_mem_nil)
  · rintro ⟨⟨s1, -, s2, -, s3, -, s4, -, s5, m5, s6, -, hend⟩, hsystem, harch⟩
    obtain ⟨m1, m2, m3, m4⟩ := (Chain.of_sweeps hb hc s1 s2 s3 s4 s5).missing_eq_nil hstart harchs (m5 rfl)
      hsystem harch
    have hkept := (DependencyCheck.passed_of_errors s6).1
    exact ⟨s1, m1, s2, m2, s3, m3, s4, m4, s5, m5 rfl, s6, by rw [hkept]; exact m5 rfl, hend⟩

end VariantGraph
