import VariantGraph.Proofs.Digraph.Renaming
import VariantGraph.Proofs.Stage.Alike
import VariantGraph.Proofs.Stage.Confluence
import VariantGraph.Proofs.Stage.Traversal
/-!
# Stages on graphs that differ in their numbers

Two graphs that differ in their numbers have the same waves, but a wave is visited in the order of the
numbers, which is another one. What a stage asks for is the same (`Stage.Blind`), and the order in which a
wave is carried out decides on numbers only, so after each wave the graphs differ in their numbers again
(`Twins.runWave`), and so they do after whole stages (`Twins.runAll`). The numbers that variants had when a
stage began stay related as they were, which is what keeps the waves to come together.
-/
namespace VariantGraph
open VariantGraph.Graph

/-- Two graphs, each with what its stages look up, that differ in their numbers only. -/
structure Graph.Twins (σ φ : Equiv.Perm Nat) (env env' : Environment) (a b : Graph) : Prop where
  config : env'.config = env.config
  types : env'.types = env.types
  registry : Registry.Renamed σ env.registry env'.registry
  renamed : Renamed σ φ a b
  first : Consistent a
  second : Consistent b
  below : env.registry.Below a.modules.length

variable {σ φ : Equiv.Perm Nat} {env env' : Environment} {a b : Graph} {stage : Stage}

namespace Graph

theorem Renamed.dependencyGraph (h : Renamed σ φ a b) (ha : Consistent a) (hb : Consistent b) :
    Digraph.Renamed φ a.dependencyGraph b.dependencyGraph where
  nodes := h.perm_liveIds
  leads v hv t := by
    have hlive : a.isLive v = true := mem_liveIds.1 hv
    rw [leads_dependencyGraph, leads_dependencyGraph, h.targets ha hb hlive, h.isLive,
      List.mem_map_of_injective φ.injective]

namespace Twins

variable (h : Twins σ φ env env' a b)
include h

theorem below' : env'.registry.Below b.modules.length := by
  intro package text id hr
  rw [h.registry.resolve] at hr
  cases ha : env.registry.resolve package text with
  | error cause => rw [ha] at hr; cases hr
  | ok target =>
    rw [ha] at hr
    injection hr with hr
    rw [← hr, h.renamed.modules]
    exact h.renamed.module_lt_iff.2 (h.below package text target ha)

/-- The waves hold the same variants. -/
theorem waves {waves : List (List VariantId)} (hw : a.waves = .ok waves) :
    ∃ waves', b.waves = .ok waves' ∧ List.Forall₂ (Digraph.SameLevel φ) waves waves' := by
  obtain ⟨waves', hlevels, hsame⟩ :=
    (h.renamed.dependencyGraph h.first h.second).levels? (levels?_of_waves hw)
  exact ⟨waves', by rw [Graph.waves, hlevels], hsame⟩

theorem findCycle? (hc : a.findCycle? = none) : b.findCycle? = none :=
  List.head?_eq_none_iff.2 ((h.renamed.dependencyGraph h.first h.second).cycles_eq_nil (List.head?_eq_none_iff.1 hc))

end Twins
end Graph

theorem arrange_sameLevel (direction : Direction) {waves waves' : List (List VariantId)}
    (h : List.Forall₂ (Digraph.SameLevel φ) waves waves') :
    List.Forall₂ (Digraph.SameLevel φ) (direction.arrange waves) (direction.arrange waves') := by
  cases direction with
  | bottomUp => exact h
  | topDown => exact List.rel_reverse h

/-! ## One wave -/

/-- **One wave, in the order of the numbers on each side.** -/
theorem Graph.Twins.runWave {first second : Build} (h : Twins σ φ env env' first.graph second.graph)
    (hblind : stage.Blind) {wave wave' : List VariantId}
    (hready : Build.Ready env (wave.map fun id => (id, stage.visit env first.graph id)) first)
    (hwave : Digraph.SameLevel φ wave wave') (herrors : first.errors.Perm second.errors) :
    ∃ ψ : Equiv.Perm VariantId, (∀ v < first.graph.variants.length, ψ v = φ v) ∧
      Twins σ ψ env env' (first.runWave env stage wave).graph (second.runWave env' stage wave').graph ∧
      (first.runWave env stage wave).errors.Perm (second.runWave env' stage wave').errors := by
  have hbelow := h.below'
  -- what is asked for on the second graph is the same, in another order
  have hvisits : ((wave.map fun id => (id, stage.visit env first.graph id)).map (renumber φ)).Perm
      (wave'.map fun id => (id, stage.visit env' second.graph id)) := by
    refine List.Perm.trans (List.Perm.of_eq ?_) (hwave.symm.map _)
    rw [List.map_map, List.map_map]
    refine List.map_congr_left fun v hv => ?_
    have hlive : first.graph.isLive v = true := hready.live _ (List.mem_map_of_mem hv)
    rw [Function.comp_apply, Function.comp_apply, renumber, hblind h.config h.types h.renamed h.first h.second v hlive]
  obtain ⟨hready', hsame, found, hfound, hfound'⟩ := h.renamed.applyAll h.registry hready h.second hbelow
  obtain ⟨ψ, hfix, hother, hothers⟩ := hready'.perm_applyAll hvisits
  obtain ⟨hc, hh, -⟩ := hready.applyAll
  have hc' := (hready'.perm hvisits).applyAll.1
  rw [Build.runWave_eq, Build.runWave_eq]
  refine ⟨φ.trans ψ, fun v hv => ?_, ⟨h.config, h.types, h.registry, ?_, hc, hc', ?_⟩, ?_⟩
  · rw [Equiv.trans_apply]
    exact hfix _ (by rw [h.renamed.variants]; exact h.renamed.variant_lt_iff.2 hv)
  · exact hsame.trans hother
  · rw [hh.length]; exact h.below
  · rw [hfound]
    refine List.Perm.trans ?_ hothers
    rw [hfound']
    exact herrors.append_right found

/-! ## One stage -/

section
variable (h : Twins σ φ env env' a b) (hblind : stage.Blind) {order order' : List (List VariantId)}
  (horder : order.flatten.Perm a.liveIds) (hsame : List.Forall₂ (Digraph.SameLevel φ) order order')
include h hblind horder hsame

/-- All waves up to some point. -/
theorem Graph.Twins.reached (k : Nat) (hk : k ≤ order.length) : ∃ ψ : Equiv.Perm VariantId,
    (∀ v < a.variants.length, ψ v = φ v) ∧
    Twins σ ψ env env' (stage.reached env a order k).graph (stage.reached env' b order' k).graph ∧
    (stage.reached env a order k).errors.Perm (stage.reached env' b order' k).errors := by
  have hnodup : order.flatten.Nodup := horder.nodup_iff.2 (nodup_liveIds a)
  induction k with
  | zero => exact ⟨φ, fun _ _ => rfl, h, .refl _⟩
  | succ k ih =>
    obtain ⟨ψ, hfix, htwins, herrors⟩ := ih (Nat.le_of_succ_le hk)
    have hunder : Underway env stage a order k :=
      underway h.below hnodup h.first horder k (Nat.le_of_succ_le hk)
    have hk' : k < order'.length := hsame.length_eq ▸ hk
    have hwave : Digraph.SameLevel φ order[k] order'[k] := hsame.get hk hk'
    have hget := List.getElem?_eq_getElem hk
    -- the wave was there when the stage began, so it is numbered as it was then
    have hnow : Digraph.SameLevel ψ order[k] order'[k] := by
      refine hwave.trans (List.Perm.of_eq (List.map_congr_left fun v hv => (hfix v ?_).symm))
      have hmem : v ∈ order.flatten := List.mem_flatten.2 ⟨_, List.getElem_mem hk, hv⟩
      exact lt_of_isLive (mem_liveIds.1 (horder.mem_iff.1 hmem))
    obtain ⟨χ, hfix', htwins', herrors'⟩ := htwins.runWave hblind (hunder.ready h.below hnodup hget) hnow herrors
    rw [Stage.reached_succ hget, Stage.reached_succ (List.getElem?_eq_getElem hk')]
    exact ⟨χ, fun v hv => (hfix' v (Nat.lt_of_lt_of_le hv hunder.grown)).trans (hfix v hv), htwins', herrors'⟩

end

/-- **A stage that finds no fault with one graph finds none with the other**, and makes the same of both. -/
theorem Graph.Twins.run (h : Twins σ φ env env' a b) (hblind : stage.Blind) (hrun : (stage.run env a).errors = []) :
    (stage.run env' b).errors = [] ∧
      ∃ ψ : Equiv.Perm VariantId, Twins σ ψ env env' (stage.run env a).graph (stage.run env' b).graph := by
  cases hw : a.waves with
  | error path => rw [Stage.run, hw] at hrun; cases hrun
  | ok waves =>
    obtain ⟨waves', hw', hsame⟩ := h.waves hw
    have horder := perm_arrange stage.direction hw
    have harrange := arrange_sameLevel stage.direction hsame
    obtain ⟨ψ, -, htwins, herrors⟩ := h.reached hblind horder harrange _ (Nat.le_refl _)
    have hlength := harrange.length_eq
    rw [Stage.reached, Stage.reached, List.take_length, hlength, List.take_length] at htwins herrors
    simp only [Stage.run, hw, hw', List.append_eq_nil_iff, missingErrors_eq_nil] at hrun ⊢
    refine ⟨⟨?_, (htwins.renamed.missing_eq_nil htwins.first htwins.second).2 hrun.2⟩, ψ, htwins⟩
    rw [hrun.1] at herrors
    exact herrors.symm.eq_nil

/-! ## All stages -/

/-- **Stages that run without errors on one graph do so on the other**, and make the same of both. -/
theorem Graph.Twins.runAll {stages : List Stage} (h : Twins σ φ env env' a b) (hblind : ∀ stage ∈ stages, stage.Blind)
    (hrun : (Stage.runAll env stages a).errors = []) :
    (Stage.runAll env' stages b).errors = [] ∧
      ∃ ψ : Equiv.Perm VariantId,
        Twins σ ψ env env' (Stage.runAll env stages a).graph (Stage.runAll env' stages b).graph := by
  induction stages generalizing a b φ with
  | nil =>
    obtain ⟨hcycle, hgraph⟩ := Stage.runAll_nil hrun
    have hother : Stage.runAll env' [] b = ⟨b, []⟩ := by rw [Stage.runAll, h.findCycle? hcycle]
    rw [hgraph, hother]
    exact ⟨rfl, φ, h⟩
  | cons stage stages ih =>
    obtain ⟨hstage, heq⟩ := Stage.runAll_cons hrun
    obtain ⟨hstage', ψ, htwins⟩ := h.run (hblind stage List.mem_cons_self) hstage
    have heq' : Stage.runAll env' (stage :: stages) b = Stage.runAll env' stages (stage.run env' b).graph :=
      if_pos hstage'
    rw [heq] at hrun ⊢
    rw [heq']
    exact ih htwins (fun stage hs => hblind stage (List.mem_cons_of_mem _ hs)) hrun

end VariantGraph
