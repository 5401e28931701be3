import VariantGraph.Proofs.Digraph.Cycles
import Mathlib.Data.List.Sort
import Mathlib.Order.Bounds.Defs
/-!
# Levels measure the longest ways

A node is put into a level as soon as all nodes that it leads to are in lower ones. So it leads to a node of
the level just below, and the number of its level is the length of the longest way that starts at it
(`isGreatest_level`). A graph has no levels exactly if it has a cycle (`levels?_eq_none_iff`). How often a node
leads to another one counts for nothing: digraphs with the same steps have the same levels and the same cycles
(`SameSteps.levels?`, `SameSteps.cycles`).
-/
namespace VariantGraph.Digraph

variable {graph : Digraph}

/-! ## What is in a level -/

theorem ready_sublist (graph : Digraph) (remaining : List Nat) : (graph.ready remaining).Sublist remaining :=
  List.filter_sublist

/-- Every level holds something, in the order in which the nodes were given. -/
theorem sublist_of_mem_peel {fuel : Nat} {remaining level : List Nat} (h : level ∈ (graph.peel fuel remaining).1) :
    level ≠ [] ∧ level.Sublist remaining := by
  induction fuel generalizing remaining with
  | zero => cases h
  | succ fuel ih =>
    by_cases hstuck : graph.ready remaining = []
    · rw [peel_of_stuck hstuck] at h
      cases h
    · rw [peel_of_ready hstuck] at h
      rcases List.mem_cons.1 h with rfl | h
      · exact ⟨hstuck, ready_sublist graph remaining⟩
      · obtain ⟨hne, hsub⟩ := ih h
        exact ⟨hne, hsub.trans List.filter_sublist⟩

theorem core_sublist (graph : Digraph) : graph.core.Sublist graph.nodes := by
  have hsub : ∀ (fuel : Nat) (remaining : List Nat), (graph.peel fuel remaining).2.Sublist remaining := by
    intro fuel
    induction fuel with
    | zero => exact fun remaining => List.Sublist.refl remaining
    | succ fuel ih =>
      intro remaining
      by_cases hstuck : graph.ready remaining = []
      · rw [peel_of_stuck hstuck]
      · rw [peel_of_ready hstuck]
        exact (ih _).trans List.filter_sublist
  exact hsub _ _

theorem mem_peel_of_levels? {levels : List (List Nat)} (h : graph.levels? = some levels) :
    (graph.peel graph.nodes.length graph.nodes).1 = levels := congrArg Prod.fst (levels?_eq_some_iff.1 h)

/-- A level holds something, in increasing order. -/
theorem increasing_level (hnodes : graph.nodes.Pairwise (· < ·)) {levels : List (List Nat)}
    (h : graph.levels? = some levels) {level : List Nat} (hmem : level ∈ levels) :
    level ≠ [] ∧ level.Pairwise (· < ·) := by
  rw [← mem_peel_of_levels? h] at hmem
  obtain ⟨hne, hsub⟩ := sublist_of_mem_peel hmem
  exact ⟨hne, hnodes.sublist hsub⟩

/-! ## The longest way from a node -/

/-- The first level is what is ready at first. -/
theorem ready_of_first_level {fuel : Nat} {remaining level : List Nat}
    (h : (graph.peel fuel remaining).1[0]? = some level) : graph.ready remaining = level := by
  cases fuel with
  | zero => cases h
  | succ fuel =>
    by_cases hstuck : graph.ready remaining = []
    · rw [peel_of_stuck hstuck] at h
      cases h
    · rw [peel_of_ready hstuck] at h
      exact Option.some.inj h

/-- A node that is not in the first level leads to one of the level below its own. -/
theorem exists_leads_peel {fuel : Nat} {remaining : List Nat} {k : Nat} {lower level : List Nat}
    (hlower : (graph.peel fuel remaining).1[k]? = some lower)
    (hlevel : (graph.peel fuel remaining).1[k + 1]? = some level) {a : Nat} (ha : a ∈ level) :
    ∃ b ∈ lower, graph.Leads a b := by
  induction fuel generalizing remaining k with
  | zero => cases hlower
  | succ fuel ih =>
    by_cases hstuck : graph.ready remaining = []
    · rw [peel_of_stuck hstuck] at hlower
      cases hlower
    · rw [peel_of_ready hstuck] at hlower hlevel
      cases k with
      | succ k => exact ih hlower hlevel
      | zero =>
        obtain rfl : graph.ready remaining = lower := Option.some.inj hlower
        obtain rfl := ready_of_first_level hlevel
        obtain ⟨hleft, hfree⟩ := mem_ready.1 ha
        obtain ⟨hmem, hnot⟩ := List.mem_filter.1 hleft
        -- it was not ready at first, so it leads to a node that remained then and is gone now
        have hblocked : ¬ ∀ b, graph.Leads a b → b ∉ remaining := fun hall =>
          of_decide_eq_true hnot (mem_ready.2 ⟨hmem, hall⟩)
        simp only [not_forall, not_not] at hblocked
        obtain ⟨b, hab, hb⟩ := hblocked
        refine ⟨b, ?_, hab⟩
        have hgone := hfree b hab
        simpa [hb] using hgone

section Longest
variable {levels : List (List Nat)} (h : graph.levels? = some levels)
include h

/-- Below every node there is a way through all levels below its own. -/
theorem exists_way {i : Nat} {level : List Nat} (hi : levels[i]? = some level) {a : Nat} (ha : a ∈ level) :
    ∃ way : List Nat, way.length = i ∧ (a :: way).IsChain graph.Leads := by
  induction i generalizing level a with
  | zero => exact ⟨[], rfl, List.isChain_singleton a⟩
  | succ i ih =>
    obtain ⟨lower, hlower⟩ : ∃ lower, levels[i]? = some lower := by
      have hlt := (List.getElem?_eq_some_iff.1 hi).1
      exact ⟨levels[i], List.getElem?_eq_getElem (by omega)⟩
    obtain ⟨b, hb, hab⟩ : ∃ b ∈ lower, graph.Leads a b := by
      rw [← mem_peel_of_levels? h] at hi hlower
      exact exists_leads_peel hlower hi ha
    obtain ⟨way, hlength, hchain⟩ := ih hlower hb
    exact ⟨b :: way, by rw [List.length_cons, hlength], List.isChain_cons_cons.2 ⟨hab, hchain⟩⟩

/-- Every step of a way goes to a lower level. -/
theorem length_le_of_way (hnodes : graph.nodes.Nodup) {way : List Nat} {i : Nat} {level : List Nat}
    (hi : levels[i]? = some level) {a : Nat} (ha : a ∈ level) (hway : (a :: way).IsChain graph.Leads) :
    way.length ≤ i := by
  induction way generalizing i level a with
  | nil => exact Nat.zero_le i
  | cons b way ih =>
    obtain ⟨hab, hway⟩ := List.isChain_cons_cons.1 hway
    obtain ⟨lower, hlower, hb⟩ := List.mem_flatten.1 ((perm_of_levels? h).mem_iff.2 hab.mem_nodes)
    obtain ⟨j, hj⟩ := List.mem_iff_getElem?.1 hlower
    have hlength := ih hj hb hway
    have hlt := lt_of_leads h hnodes hi ha hj hb hab
    rw [List.length_cons]
    omega

/-- **The number of a node's level is the length of the longest way that starts at it.** -/
theorem isGreatest_level (hnodes : graph.nodes.Nodup) {i : Nat} {level : List Nat}
    (hi : levels[i]? = some level) {a : Nat} (ha : a ∈ level) :
    IsGreatest {n | ∃ way : List Nat, way.length = n ∧ (a :: way).IsChain graph.Leads} i := by
  refine ⟨exists_way h hi ha, ?_⟩
  rintro _ ⟨way, rfl, hway⟩
  exact length_le_of_way h hnodes hi ha hway

end Longest

/-- **There are no levels exactly if there is a cycle.** -/
theorem levels?_eq_none_iff : graph.levels? = none ↔ ∃ a, graph.Path a a := by
  constructor
  · intro hnone
    by_contra hacyclic
    obtain ⟨levels, hlevels⟩ := exists_levels? fun a ha => hacyclic ⟨a, ha⟩
    rw [hnone] at hlevels
    cases hlevels
  · rintro ⟨a, ha⟩
    refine Option.eq_none_iff_forall_ne_some.2 fun levels hlevels => ?_
    have hcore : graph.core = [] := congrArg Prod.snd (levels?_eq_some_iff.1 hlevels)
    have hmem := mem_core_of_path ha
    rw [hcore] at hmem
    cases hmem

/-! ## Steps, however often they are there -/

/-- Two digraphs with the same nodes, in which each node leads to the same ones. -/
structure SameSteps (a b : Digraph) : Prop where
  nodes : b.nodes = a.nodes
  leads : ∀ v ∈ a.nodes, ∀ w, b.Leads v w ↔ a.Leads v w

namespace SameSteps
variable {a b : Digraph} (h : SameSteps a b)
include h

theorem ready {remaining : List Nat} (hsub : ∀ v ∈ remaining, v ∈ a.nodes) :
    b.ready remaining = a.ready remaining := by
  refine List.filter_congr fun v hv => ?_
  rw [Bool.eq_iff_iff]
  simp only [List.all_eq_true, decide_eq_true_eq]
  exact forall_congr' fun w => imp_congr (h.leads v (hsub v hv) w) Iff.rfl

theorem peel (fuel : Nat) {remaining : List Nat} (hsub : ∀ v ∈ remaining, v ∈ a.nodes) :
    b.peel fuel remaining = a.peel fuel remaining := by
  induction fuel generalizing remaining with
  | zero => rfl
  | succ fuel ih =>
    have hready := h.ready hsub
    by_cases hstuck : a.ready remaining = []
    · rw [peel_of_stuck hstuck, peel_of_stuck (hready.trans hstuck)]
    · rw [peel_of_ready hstuck, peel_of_ready (by rwa [hready]), hready,
        ih fun v hv => hsub v (List.mem_of_mem_filter hv)]

theorem peeled : b.peeled = a.peeled := by
  rw [Digraph.peeled, h.nodes]
  exact h.peel _ fun _ hv => hv

/-- **The levels are the same.** -/
theorem levels? : b.levels? = a.levels? := by
  rw [Digraph.levels?, h.peeled]
  rfl

theorem successors {v : Nat} (hv : v ∈ a.nodes) : b.successors v = a.successors v := by
  have hperm : (b.successors v).Perm (a.successors v) := by
    rw [List.perm_ext_iff_of_nodup (nodup_successors b v) (nodup_successors a v)]
    exact fun w => mem_successors.trans ((h.leads v hv w).trans mem_successors.symm)
  exact hperm.eq_of_pairwise (fun _ _ _ _ hlt hgt => absurd hlt (Nat.lt_asymm hgt))
    (increasing_successors b v) (increasing_successors a v)

theorem searchBack (start fuel : Nat) {seen : List Nat} {queue : List (Nat × List Nat)}
    (hq : ∀ entry ∈ queue, entry.1 ∈ a.nodes) :
    b.searchBack start fuel seen queue = a.searchBack start fuel seen queue := by
  induction fuel generalizing seen queue with
  | zero => simp only [Digraph.searchBack]
  | succ fuel ih =>
    cases queue with
    | nil => simp only [Digraph.searchBack]
    | cons entry queue =>
      obtain ⟨v, way⟩ := entry
      simp only [Digraph.searchBack, h.successors (hq _ List.mem_cons_self)]
      refine if_congr Iff.rfl rfl (ih fun entry hmem => ?_)
      rcases List.mem_append.1 hmem with hmem | hmem
      · exact hq entry (List.mem_cons_of_mem _ hmem)
      · obtain ⟨w, hw, rfl⟩ := List.mem_map.1 hmem
        exact (mem_fresh.1 hw).1.mem_nodes

theorem cycleThrough? {start : Nat} (hs : start ∈ a.nodes) : b.cycleThrough? start = a.cycleThrough? start := by
  rw [Digraph.cycleThrough?, h.nodes]
  refine h.searchBack start _ fun entry hmem => ?_
  obtain rfl := List.mem_singleton.1 hmem
  exact hs

theorem symm : SameSteps b a :=
  ⟨h.nodes.symm, fun v hv w => (h.leads v (by rwa [← h.nodes]) w).symm⟩

theorem path {v w : Nat} (hv : v ∈ a.nodes) (hp : a.Path v w) : b.Path v w := by
  induction hp with
  | single hl => exact .single ((h.leads v hv _).2 hl)
  | tail hp hl ih => exact ih.tail ((h.leads _ (Path.mem_nodes hp) _).2 hl)

theorem path_iff {v w : Nat} (hv : v ∈ a.nodes) : b.Path v w ↔ a.Path v w :=
  ⟨h.symm.path (by rwa [h.nodes]), h.path hv⟩

theorem mutual_iff {v w : Nat} (hv : v ∈ a.nodes) : b.Mutual v w ↔ a.Mutual v w := by
  constructor
  · rintro ⟨hto, hback⟩
    have hw := (h.path_iff hv).1 hto
    exact ⟨hw, (h.path_iff (Path.mem_nodes hw)).1 hback⟩
  · exact fun hm => ⟨h.path hv hm.1, h.path (Path.mem_nodes hm.1) hm.2⟩

theorem leadsComponent {v : Nat} (hv : v ∈ a.nodes) : b.leadsComponent v = a.leadsComponent v := by
  rw [Bool.eq_iff_iff, leadsComponent_iff, leadsComponent_iff, h.path_iff hv]
  exact and_congr_right' (forall_congr' fun w => imp_congr_left (h.mutual_iff hv))

/-- **The cycles are the same.** -/
theorem cycles : b.cycles = a.cycles := by
  have hcore : b.core = a.core := congrArg Prod.snd h.peeled
  have hnodes : ∀ v ∈ a.core, v ∈ a.nodes := fun v hv => (core_sublist a).subset hv
  unfold Digraph.cycles
  rw [hcore, List.filter_congr fun v hv => h.leadsComponent (hnodes v hv)]
  exact List.filterMap_congr fun v hv => h.cycleThrough? (hnodes v (List.mem_of_mem_filter hv))

end SameSteps
end VariantGraph.Digraph
