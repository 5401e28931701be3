import VariantGraph.Proofs.Digraph.Cycles
import Mathlib.Data.List.Forall2
/-!
# Digraphs whose nodes have other numbers

Levels are made from what leads where, so with other numbers they hold the same nodes
(`Renamed.levels?`); within a level the nodes come in the order of their numbers, which is another one.
There is a cycle in both digraphs or in none (`Renamed.cycles_eq_nil`).
-/
namespace VariantGraph.Digraph

/-- The second digraph is the first one with other numbers. -/
structure Renamed (φ : Equiv.Perm Nat) (a b : Digraph) : Prop where
  nodes : b.nodes.Perm (a.nodes.map φ)
  leads : ∀ v ∈ a.nodes, ∀ w, b.Leads (φ v) (φ w) ↔ a.Leads v w

/-- Lists that hold the same nodes in some order, the second one with other numbers. -/
def SameLevel (φ : Equiv.Perm Nat) (level level' : List Nat) : Prop := level'.Perm (level.map φ)

variable {φ : Equiv.Perm Nat} {a b : Digraph} (h : Renamed φ a b)
include h

theorem Renamed.ready {remaining remaining' : List Nat} (hsub : ∀ v ∈ remaining, v ∈ a.nodes)
    (hr : SameLevel φ remaining remaining') : SameLevel φ (a.ready remaining) (b.ready remaining') := by
  have hready : ∀ v ∈ remaining, ((b.next (φ v)).all (· ∉ remaining') = true ↔
      (a.next v).all (· ∉ remaining) = true) := by
    intro v hv
    simp only [List.all_eq_true, decide_eq_true_eq]
    constructor
    · intro hall w hw hmem
      exact hall (φ w) ((h.leads v (hsub v hv) w).2 hw) (hr.mem_iff.2 (List.mem_map_of_mem hmem))
    · intro hall w' hw' hmem
      obtain ⟨w, hw, rfl⟩ := List.mem_map.1 (hr.mem_iff.1 hmem)
      exact hall w ((h.leads v (hsub v hv) w).1 hw') hw
  unfold SameLevel Digraph.ready
  refine (hr.filter _).trans ?_
  rw [List.filter_map]
  refine List.Perm.of_eq (congrArg (List.map φ) (List.filter_congr fun v hv => ?_))
  exact Bool.eq_iff_iff.2 (hready v hv)

theorem Renamed.peel (fuel : Nat) {remaining remaining' : List Nat} (hsub : ∀ v ∈ remaining, v ∈ a.nodes)
    (hr : SameLevel φ remaining remaining') :
    List.Forall₂ (SameLevel φ) (a.peel fuel remaining).1 (b.peel fuel remaining').1 ∧
      SameLevel φ (a.peel fuel remaining).2 (b.peel fuel remaining').2 := by
  induction fuel generalizing remaining remaining' with
  | zero => exact ⟨.nil, hr⟩
  | succ fuel ih =>
    have hready := h.ready hsub hr
    -- what a level leaves
    have hleft : SameLevel φ (remaining.filter (· ∉ a.ready remaining))
        (remaining'.filter (· ∉ b.ready remaining')) := by
      unfold SameLevel
      refine (List.Perm.filter _ hr).trans ?_
      rw [List.filter_map]
      refine List.Perm.of_eq (congrArg (List.map φ) (List.filter_congr fun v _ => ?_))
      simp only [Function.comp_apply, hready.mem_iff, List.mem_map_of_injective φ.injective]
    unfold Digraph.peel
    cases hlevel : a.ready remaining with
    | nil =>
      rw [hlevel] at hready
      rw [hready.eq_nil]
      exact ⟨.nil, hr⟩
    | cons first level =>
      rw [hlevel] at hready hleft
      cases hlevel' : b.ready remaining' with
      | nil => rw [hlevel'] at hready; exact absurd hready.length_eq (by simp)
      | cons first' level' =>
        rw [hlevel'] at hready hleft
        obtain ⟨hlevels, hrest⟩ := ih (fun v hv => hsub v (List.mem_of_mem_filter hv)) hleft
        exact ⟨.cons hready hlevels, hrest⟩

/-- **The levels hold the same nodes.** -/
theorem Renamed.levels? {levels : List (List Nat)} (hl : a.levels? = some levels) :
    ∃ levels', b.levels? = some levels' ∧ List.Forall₂ (SameLevel φ) levels levels' := by
  have hlength : b.nodes.length = a.nodes.length := by rw [h.nodes.length_eq, List.length_map]
  obtain ⟨hlevels, hleft⟩ := h.peel a.nodes.length (fun _ hv => hv) h.nodes
  have hpeeled : a.peel a.nodes.length a.nodes = (levels, []) := levels?_eq_some_iff.1 hl
  rw [hpeeled] at hlevels hleft
  refine ⟨_, levels?_eq_some_iff.2 (Prod.ext rfl ?_), ?_⟩
  · rw [peeled, hlength]
    exact hleft.eq_nil
  · rw [peeled, hlength]
    exact hlevels

theorem Renamed.path {v w' : Nat} (hv : v ∈ a.nodes) (hp : b.Path (φ v) w') : ∃ w, w' = φ w ∧ a.Path v w := by
  induction hp with
  | @single w' hl =>
    obtain ⟨w, rfl⟩ := φ.surjective w'
    exact ⟨w, rfl, .single ((h.leads v hv w).1 hl)⟩
  | @tail _ w' _ hl ih =>
    obtain ⟨u, rfl, hu⟩ := ih
    obtain ⟨w, rfl⟩ := φ.surjective w'
    exact ⟨w, rfl, hu.tail ((h.leads u hu.mem_nodes w).1 hl)⟩

/-- Without cycles there are none with other numbers. -/
theorem Renamed.cycles_eq_nil (hc : a.cycles = []) : b.cycles = [] := by
  refine cycles_eq_nil_iff.2 fun v' hv' => ?_
  obtain ⟨v, hv, rfl⟩ := List.mem_map.1 (h.nodes.mem_iff.1 (Path.mem_nodes hv'))
  obtain ⟨w, hw, hp⟩ := h.path hv hv'
  exact cycles_eq_nil_iff.1 hc v (φ.injective hw ▸ hp)

end VariantGraph.Digraph
