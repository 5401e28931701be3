import VariantGraph.Proofs.Digraph.Parents
/-!
# One cycle for each component

The cycles of a digraph can be found component by component: those with more than one node, or with one that leads
to itself, each in increasing order and all in the order of their lowest nodes, each searched by itself
(`cyclesOf`). These are the cycles that a whole search finds (`cyclesOf_eq`), and each is a shortest one through the
lowest node of its component (`cycles_shortest`).
-/
namespace VariantGraph.Digraph

variable {graph : Digraph}

/-- The nodes, each in one list with the nodes that it is on a cycle with. -/
structure Components (graph : Digraph) (components : List (List Nat)) : Prop where
  nodes : components.flatten.Perm graph.nodes
  inhabited : ∀ component ∈ components, component ≠ []
  together : ∀ component ∈ components, ∀ a ∈ component, ∀ b ∈ graph.nodes, b ∈ component ↔ b = a ∨ graph.Mutual a b

/-- Whether a component has more than one node, or its node leads to itself. -/
def isCyclic (graph : Digraph) (component : List Nat) : Bool :=
  1 < component.length || component.head?.any fun node => node ∈ graph.next node

/-- The components with a cycle, each in increasing order, in the order of their lowest nodes. -/
def cyclicComponents (graph : Digraph) (components : List (List Nat)) : List (List Nat) :=
  ((components.filter graph.isCyclic).map (·.mergeSort)).mergeSort

/-- One cycle for each component that has any. -/
def cyclesOf (graph : Digraph) (components : List (List Nat)) : List (List Nat) :=
  (graph.cyclicComponents components).filterMap graph.cycleWithin

theorem mem_cyclicComponents {components : List (List Nat)} {ordered : List Nat}
    (ho : ordered ∈ graph.cyclicComponents components) :
    ∃ component ∈ components, graph.isCyclic component = true ∧ ordered.Perm component ∧
      ordered.Pairwise (· ≤ ·) := by
  rw [cyclicComponents, (List.mergeSort_perm _ _).mem_iff] at ho
  obtain ⟨component, hc, rfl⟩ := List.mem_map.1 ho
  obtain ⟨hmem, hcyclic⟩ := List.mem_filter.1 hc
  exact ⟨component, hmem, hcyclic, List.mergeSort_perm _ _, List.pairwise_mergeSort' (· ≤ ·) component⟩

section Components
variable {components : List (List Nat)} (h : graph.Components components)
include h

theorem Components.mem_nodes {component : List Nat} (hc : component ∈ components) {a : Nat} (ha : a ∈ component) :
    a ∈ graph.nodes := h.nodes.mem_iff.1 (List.mem_flatten.2 ⟨component, hc, ha⟩)

theorem Components.exists_mem {a : Nat} (ha : a ∈ graph.nodes) : ∃ component ∈ components, a ∈ component :=
  List.mem_flatten.1 (h.nodes.mem_iff.2 ha)

/-- What is on a cycle with a node is in its component. -/
theorem Components.mem_of_mutual {component : List Nat} (hc : component ∈ components) {a b : Nat} (ha : a ∈ component)
    (hab : graph.Mutual a b) : b ∈ component :=
  (h.together component hc a ha b hab.1.mem_nodes).2 (Or.inr hab)

/-- **A component has a cycle if it has more than one node, or a node that leads to itself.** -/
theorem Components.isCyclic_iff (hnodes : graph.nodes.Nodup) {component : List Nat} (hc : component ∈ components)
    {a : Nat} (ha : a ∈ component) : graph.isCyclic component = true ↔ graph.Path a a := by
  have hnodup : component.Nodup := (List.nodup_flatten.1 (h.nodes.nodup_iff.2 hnodes)).1 component hc
  match component, ha with
  | [first], ha =>
    obtain rfl := List.mem_singleton.1 ha
    simp only [isCyclic, List.length_singleton, Nat.lt_irrefl, decide_false, Bool.false_or, List.head?_cons,
      Option.any_some, decide_eq_true_eq]
    constructor
    · exact fun hself => .single hself
    · intro hround
      -- the node that follows is on a cycle with this one, so it is this one
      obtain ⟨c, hac, hca⟩ := Relation.TransGen.head'_iff.1 hround
      rcases Relation.reflTransGen_iff_eq_or_transGen.1 hca with rfl | hback
      · exact hac
      · obtain rfl := List.mem_singleton.1 (h.mem_of_mutual hc ha ⟨.single hac, hback⟩)
        exact hac
  | first :: second :: rest, ha =>
    refine iff_of_true (by simp [isCyclic]) ?_
    obtain ⟨b, hb, hne⟩ : ∃ b ∈ first :: second :: rest, b ≠ a := by
      by_cases he : first = a
      · refine ⟨second, List.mem_cons_of_mem _ List.mem_cons_self, fun hsecond => ?_⟩
        exact (List.nodup_cons.1 hnodup).1 (he.trans hsecond.symm ▸ List.mem_cons_self)
      · exact ⟨first, List.mem_cons_self, he⟩
    have hmutual := ((h.together _ hc a ha b (h.mem_nodes hc hb)).1 hb).resolve_left hne
    exact hmutual.1.trans hmutual.2

/-! ## The order of the components -/

/-- The components come in the order of their lowest nodes. -/
theorem Components.increasing (hnodes : graph.nodes.Nodup) : (graph.cyclicComponents components).Pairwise
    fun first later => ∃ a ∈ first, ∀ b ∈ later, a < b := by
  have hdisjoint : (graph.cyclicComponents components).Pairwise List.Disjoint := by
    refine (List.Perm.pairwise_iff (fun hd => hd.symm) (List.mergeSort_perm _ _)).2 (List.pairwise_map.2 ?_)
    refine ((List.nodup_flatten.1 (h.nodes.nodup_iff.2 hnodes)).2.filter _).imp fun hd a ha hb => ?_
    exact hd ((List.mergeSort_perm _ _).mem_iff.1 ha) ((List.mergeSort_perm _ _).mem_iff.1 hb)
  have hsorted : (graph.cyclicComponents components).Pairwise (· ≤ ·) :=
    List.pairwise_mergeSort' (· ≤ ·) _
  refine (hsorted.and hdisjoint).imp_of_mem fun {first later} hf hl hle => ?_
  obtain ⟨component, hc, -, hperm, -⟩ := mem_cyclicComponents hf
  obtain ⟨-, -, -, -, hlater⟩ := mem_cyclicComponents hl
  match first, later with
  | [], _ => exact absurd (hperm.nil_eq).symm (h.inhabited component hc)
  | a :: first, [] => exact ⟨a, List.mem_cons_self, fun b hb => absurd hb List.not_mem_nil⟩
  | a :: first, b :: later =>
    have hlt : a < b := by
      have hne : a ≠ b := fun he => hle.2 List.mem_cons_self (he ▸ List.mem_cons_self)
      rcases hle.1.lt_or_eq with hlt | heq
      · exact Nat.lt_of_le_of_ne (List.head_le_of_lt hlt) hne
      · exact absurd (List.cons.inj heq).1 hne
    refine ⟨a, List.mem_cons_self, fun c hmem => ?_⟩
    rcases List.mem_cons.1 hmem with rfl | hmem
    · exact hlt
    · exact Nat.lt_of_lt_of_le hlt ((List.pairwise_cons.1 hlater).1 c hmem)

/-- The members of a component in increasing order are around the first of them. -/
theorem Components.exists_around (hnodes : graph.nodes.Nodup) {ordered : List Nat}
    (ho : ordered ∈ graph.cyclicComponents components) :
    ∃ start, ordered.head? = some start ∧ graph.Around ordered start := by
  obtain ⟨component, hc, hcyclic, hperm, hsorted⟩ := mem_cyclicComponents ho
  match ordered with
  | [] => exact absurd (hperm.nil_eq).symm (h.inhabited component hc)
  | start :: rest =>
    have hs : start ∈ component := hperm.mem_iff.1 List.mem_cons_self
    have hround := (h.isCyclic_iff hnodes hc hs).1 hcyclic
    refine ⟨start, rfl, List.mem_cons_self, fun b hb => ?_, fun b hb => ?_, fun b hb => ?_⟩
    · rcases List.mem_cons.1 hb with rfl | hb
      · exact Nat.le_refl _
      · exact (List.pairwise_cons.1 hsorted).1 b hb
    · exact hperm.mem_iff.2 (h.mem_of_mutual hc hs hb)
    · have hmem := hperm.mem_iff.1 hb
      rcases (h.together component hc start hs b (h.mem_nodes hc hmem)).1 hmem with rfl | hmutual
      · exact hround
      · exact hmutual.2

/-- The first members of the components are the nodes that lead theirs. -/
theorem Components.starts_eq (hnodes : graph.nodes.Pairwise (· < ·)) :
    (graph.cyclicComponents components).filterMap List.head? = graph.core.filter graph.leadsComponent := by
  have hnodup : graph.nodes.Nodup := hnodes.imp Nat.ne_of_lt
  have hstarts : ((graph.cyclicComponents components).filterMap List.head?).Pairwise (· < ·) := by
    refine List.pairwise_filterMap.2 ((h.increasing hnodup).imp_of_mem fun {first later} hf hl hlt a ha b hb => ?_)
    obtain ⟨start, hstart, haround⟩ := h.exists_around hnodup hf
    obtain rfl : start = a := Option.some.inj (hstart.symm.trans ha)
    obtain ⟨c, hc, hbelow⟩ := hlt
    exact Nat.lt_of_le_of_lt (haround.least c hc) (hbelow b (List.mem_of_mem_head? hb))
  refine hstarts.eq_of_mem_iff ((hnodes.sublist (core_sublist graph)).filter _) fun a => ?_
  rw [List.mem_filterMap, List.mem_filter, leadsComponent_iff]
  constructor
  · rintro ⟨ordered, ho, hhead⟩
    obtain ⟨start, hstart, haround⟩ := h.exists_around hnodup ho
    obtain rfl : start = a := Option.some.inj (hstart.symm.trans hhead)
    have hround := haround.back start haround.start_mem
    exact ⟨mem_core_of_path hround, hround, fun b hb => haround.least b (haround.mem b hb)⟩
  · rintro ⟨-, hround, hleast⟩
    obtain ⟨component, hc, ha⟩ := h.exists_mem hround.mem_nodes
    have hcyclic := (h.isCyclic_iff hnodup hc ha).2 hround
    have ho : component.mergeSort ∈ graph.cyclicComponents components := by
      rw [cyclicComponents, (List.mergeSort_perm _ _).mem_iff]
      exact List.mem_map_of_mem (List.mem_filter.2 ⟨hc, hcyclic⟩)
    refine ⟨component.mergeSort, ho, ?_⟩
    obtain ⟨start, hstart, haround⟩ := h.exists_around hnodup ho
    have hmem : start ∈ component := (List.mergeSort_perm _ _).mem_iff.1 haround.start_mem
    rw [hstart, Option.some_inj]
    -- each of the two is the lowest of the component
    refine Nat.le_antisymm (haround.least a ((List.mergeSort_perm _ _).mem_iff.2 ha)) ?_
    rcases (h.together component hc a ha start (h.mem_nodes hc hmem)).1 hmem with rfl | hmutual
    · exact Nat.le_refl _
    · exact hleast start hmutual

theorem Components.cyclesOf_eq (hnodes : graph.nodes.Pairwise (· < ·)) :
    graph.cyclesOf components = graph.cycles := by
  have hnodup : graph.nodes.Nodup := hnodes.imp Nat.ne_of_lt
  rw [cycles, ← h.starts_eq hnodes, List.filterMap_filterMap, cyclesOf]
  refine List.filterMap_congr fun ordered ho => ?_
  obtain ⟨start, hstart, haround⟩ := h.exists_around hnodup ho
  rw [cycleWithin_eq haround hstart, hstart, Option.bind_some]

end Components

theorem forall₂_filterMap {p : List Nat → List Nat → Prop} {f : List Nat → Option (List Nat)} :
    ∀ {l : List (List Nat)}, (∀ a ∈ l, ∃ b, f a = some b ∧ p a b) → List.Forall₂ p l (l.filterMap f)
  | [], _ => .nil
  | a :: l, h => by
    obtain ⟨b, hb, hp⟩ := h a List.mem_cons_self
    rw [List.filterMap_cons_some hb]
    exact .cons hp (forall₂_filterMap fun c hc => h c (List.mem_cons_of_mem _ hc))

/-- **One shortest cycle is found for each component that has any.** When the components of a digraph are given in
any order, those with more than one node or with a node that leads to itself have one cycle each, in the order of
their lowest nodes. It goes from the lowest node of the component, over members of it only and over none twice, back
to that node, and no closed walk through the node is shorter. -/
theorem cycles_shortest {components : List (List Nat)} (hnodes : graph.nodes.Pairwise (· < ·))
    (h : graph.Components components) :
    graph.cyclesOf components = graph.cycles ∧
    (graph.cyclicComponents components).Perm ((components.filter graph.isCyclic).map (·.mergeSort)) ∧
    ((graph.cyclicComponents components).Pairwise fun first later => ∃ a ∈ first, ∀ b ∈ later, a < b) ∧
    List.Forall₂ (fun component path => ∃ start ∈ component, (∀ b ∈ component, start ≤ b) ∧
      graph.ShortestCycle start path ∧ ∀ a ∈ path, a ∈ component) (graph.cyclicComponents components) graph.cycles := by
  have hnodup : graph.nodes.Nodup := hnodes.imp Nat.ne_of_lt
  refine ⟨h.cyclesOf_eq hnodes, List.mergeSort_perm _ _, h.increasing hnodup, ?_⟩
  rw [← h.cyclesOf_eq hnodes]
  refine forall₂_filterMap fun ordered ho => ?_
  obtain ⟨start, hstart, haround⟩ := h.exists_around hnodup ho
  have hround := haround.back start haround.start_mem
  obtain ⟨path, hfound⟩ := Option.ne_none_iff_exists'.1 (cycleThrough?_ne_none hround)
  obtain ⟨hcycle, hhead⟩ := isCycle_of_cycleThrough? hfound
  exact ⟨path, (cycleWithin_eq haround hstart).trans hfound, start, haround.start_mem, haround.least,
    shortest_of_cycleThrough? hround.mem_nodes hfound, fun a ha => haround.mem a (hcycle.mutual hhead a ha)⟩

/-- Three nodes on two cycles, one that leads to itself, and one on no cycle. -/
def entangled : Digraph := ofRows [0, 1, 2, 3, 4] [[1], [2, 0, 0], [0], [3], [0]]

theorem cycles_shortest_entangled : entangled.cyclesOf [[2, 1, 0], [3], [4]] = [[0, 1, 0], [3, 3]] ∧
    List.Forall₂ (fun component path => ∃ start ∈ component, (∀ b ∈ component, start ≤ b) ∧
      entangled.ShortestCycle start path ∧ ∀ a ∈ path, a ∈ component)
      (entangled.cyclicComponents [[2, 1, 0], [3], [4]]) [[0, 1, 0], [3, 3]] := by
  have hcomponents : entangled.Components [[2, 1, 0], [3], [4]] := by
    refine ⟨by decide, by decide, ?_⟩
    simp only [Mutual, ← mem_reachable_iff]
    decide
  have hcycles : entangled.cycles = [[0, 1, 0], [3, 3]] := by decide
  obtain ⟨hof, -, -, heach⟩ := cycles_shortest (by decide) hcomponents
  exact ⟨hof.trans hcycles, hcycles ▸ heach⟩

end VariantGraph.Digraph
