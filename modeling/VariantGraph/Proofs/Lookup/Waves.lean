import VariantGraph.Proofs.Graph.Waves
import VariantGraph.Proofs.Lookup.Graph
/-!
# Looking up nodes

The waves of a graph, found by counting. Live variants become the nodes of a `Dag`, numbered anew, and an edge
leads from a dependency to what depends on it. A node is ready when no edge from a node that remains leads to
it, and this number, its degree, is kept up to date while nodes are taken away (`Counts`). Main statement
(`waves_eq`): every node and every degree that is asked for is there, the waves are those of the graph, and a
graph without waves has a cycle to report.
-/
namespace VariantGraph.Checked

/-! ## Nodes -/

/-- The node of a module or variant, when nodes are numbered in the order of these. -/
def nodeOf (ids : List Nat) (id : Nat) : Found Nat := find (.node id) (ids.idxOf? id)

/-- What a node stands for. -/
def weight (ids : List Nat) (node : Nat) : Found Nat := find (.node node) ids[node]?

theorem nodeOf_eq {ids : List Nat} {id : Nat} (h : id ∈ ids) : nodeOf ids id = .ok (ids.idxOf id) := by
  obtain ⟨node, hnode⟩ := Option.isSome_iff_exists.1 (List.isSome_idxOf?.2 h)
  rw [nodeOf, List.idxOf_eq_getD_idxOf?, hnode]
  rfl

theorem getD_mem {ids : List Nat} {node : Nat} (h : node < ids.length) : ids.getD node 0 ∈ ids := by simp [h]

theorem getD_idxOf {ids : List Nat} {id : Nat} (h : id ∈ ids) : ids.getD (ids.idxOf id) 0 = id := by
  rw [List.getD_eq_getElem?_getD, List.getElem?_idxOf h, Option.getD_some]

theorem idxOf?_eq_some_iff {ids : List Nat} (h : ids.Nodup) {id node : Nat} :
    ids.idxOf? id = some node ↔ node < ids.length ∧ ids.getD node 0 = id := by
  rw [List.idxOf?_eq_some_iff]
  constructor
  · rintro ⟨hnode, he, -⟩
    exact ⟨hnode, by simpa [hnode] using he⟩
  · rintro ⟨hnode, he⟩
    have he : ids[node] = id := by simpa [hnode] using he
    exact ⟨hnode, he, fun other hlt hother =>
      Nat.ne_of_lt hlt (h.getElem_inj_iff.1 (hother.trans he.symm))⟩

theorem weight_eq {ids : List Nat} {node : Nat} (h : node < ids.length) : weight ids node = .ok (ids.getD node 0) := by
  simp [weight, find, h]

/-- A path as its nodes stand for it. -/
def throughNodes (ids path : List Nat) : Found (List Nat) := do
  let nodes ← path.mapM (nodeOf ids)
  nodes.mapM (weight ids)

theorem throughNodes_eq {ids path : List Nat} (h : ∀ id ∈ path, id ∈ ids) : throughNodes ids path = .ok path := by
  rw [throughNodes, mapM_eq_ok fun id hid => nodeOf_eq (h id hid), ok_bind,
    mapM_eq_ok (g := fun node => ids.getD node 0), List.map_map]
  · exact congrArg _ ((List.map_congr_left fun id hid => getD_idxOf (h id hid)).trans (List.map_id' path))
  · intro node hnode
    obtain ⟨id, hid, rfl⟩ := List.mem_map.1 hnode
    exact weight_eq (List.idxOf_lt_length_iff.2 (h id hid))

/-- The live variants as nodes, with an edge from the node of each dependency to that of what depends on it. -/
structure Dag where
  /-- The variant that each node stands for. -/
  ids : List VariantId
  edges : List (Nat × Nat)

namespace Dag

/-- The dag of a graph. -/
def build (graph : Graph) : Found Dag := do
  let ids := graph.liveIds
  let rows ← ids.mapM fun id => do
    let dependent ← nodeOf ids id
    let shape ← variant graph id
    return (shape.targets.filterMap ids.idxOf?).map (·, dependent)
  return ⟨ids, rows.flatten⟩

/-- The nodes that the edges of a node lead to, a node for each edge. -/
def outgoing (dag : Dag) (node : Nat) : List Nat := (dag.edges.filter (·.1 = node)).map (·.2)

/-- How many edges lead to each node. -/
def degrees (dag : Dag) : List Nat :=
  (List.range dag.ids.length).map fun node => dag.edges.countP (·.2 = node)

/-- Takes one off the degree of each of some nodes. -/
def lower (degrees nodes : List Nat) : List Nat :=
  nodes.foldl (fun degrees node => degrees.modify node (· - 1)) degrees

/-- The degree of a node. -/
def degree (degrees : List Nat) (node : Nat) : Found Nat := find (.degree node) degrees[node]?

/-- Takes waves off the nodes that remain, as long as some of these are ready. -/
def peel (dag : Dag) : Nat → List Nat → List Nat → Found (Option (List (List VariantId)))
  | 0, remaining, _ => return if remaining = [] then some [] else none
  | fuel + 1, remaining, degrees =>
    if remaining = [] then return some []
    else do
      let ready ← keep (fun node => return (← degree degrees node) = 0) remaining
      if ready = [] then return none
      else
        let wave ← ready.mapM (weight dag.ids)
        let rest ← peel dag fuel (remaining.filter (· ∉ ready)) (lower degrees (ready.flatMap dag.outgoing))
        return rest.map (wave :: ·)

/-- The waves of a dag; every wave takes a node. -/
def waves? (dag : Dag) : Found (Option (List (List VariantId))) :=
  dag.peel dag.ids.length (List.range dag.ids.length) dag.degrees

end Dag

/-- The first dependency cycle, over nodes. -/
def findCycle? (graph : Graph) : Found (Option (List VariantId)) :=
  match graph.findCycle? with
  | none => return none
  | some path => return some (← throughNodes graph.liveIds path)

/-- The live variants in waves, or a cycle. -/
def waves (graph : Graph) : Found (Except (List VariantId) (List (List VariantId))) := do
  let dag ← Dag.build graph
  match ← dag.waves? with
  | some waves => return .ok waves
  | none =>
    match ← findCycle? graph with
    | some path => return .error path
    | none => throw .cycle

/-! ## Degrees count -/

namespace Dag

/-- The number of edges to a node from nodes that remain. -/
def pending (dag : Dag) (remaining : List Nat) (node : Nat) : Nat :=
  dag.edges.countP fun edge => edge.2 = node && edge.1 ∈ remaining

/-- The degree of every node is the number of edges to it from nodes that remain. -/
def Counts (dag : Dag) (remaining degrees : List Nat) : Prop :=
  ∀ node < dag.ids.length, degrees[node]? = some (dag.pending remaining node)

variable {dag : Dag}

theorem getElem?_lower (node : Nat) (nodes degrees : List Nat) :
    (lower degrees nodes)[node]? = degrees[node]?.map (· - nodes.count node) := by
  unfold lower
  induction nodes generalizing degrees with
  | nil => simp
  | cons first nodes ih =>
    rw [List.foldl_cons, ih, List.getElem?_modify, List.count_cons]
    cases degrees[node]? with
    | none => rfl
    | some degree =>
      by_cases he : first = node
      · simp [he, Nat.sub_sub, Nat.add_comm]
      · simp [he]

/-- The edges of one node more. -/
theorem pending_cons {node : Nat} {rest : List Nat} (h : node ∉ rest) (target : Nat) :
    dag.pending (node :: rest) target = (dag.outgoing node).count target + dag.pending rest target := by
  simp only [pending, outgoing, List.mem_cons, Bool.decide_or]
  induction dag.edges with
  | nil => rfl
  | cons edge edges ih =>
    rw [List.countP_cons, List.countP_cons, ih]
    by_cases he : edge.1 = node
    · simp [he, h, List.count_cons]; omega
    · simp [he]; omega

/-- Taking nodes away lowers degrees by the number of their edges. -/
theorem count_outgoing (target : Nat) : ∀ {ready : List Nat}, ready.Nodup →
    (ready.flatMap dag.outgoing).count target = dag.pending ready target
  | [], _ => by simp [pending]
  | node :: ready, h => by
    obtain ⟨hnot, hnodup⟩ := List.nodup_cons.1 h
    rw [List.flatMap_cons, List.count_append, count_outgoing target hnodup, pending_cons hnot]

theorem pending_filter {remaining ready : List Nat} (h : ∀ node ∈ ready, node ∈ remaining) (target : Nat) :
    dag.pending remaining target =
      dag.pending ready target + dag.pending (remaining.filter (· ∉ ready)) target := by
  unfold pending
  induction dag.edges with
  | nil => rfl
  | cons edge edges ih =>
    rw [List.countP_cons, List.countP_cons, List.countP_cons, ih]
    by_cases hr : edge.1 ∈ ready
    · simp [hr, h edge.1 hr]; omega
    · simp [hr]; omega

theorem Counts.step {remaining ready degrees : List Nat} (h : dag.Counts remaining degrees)
    (hsub : ∀ node ∈ ready, node ∈ remaining) (hnodup : ready.Nodup) :
    dag.Counts (remaining.filter (· ∉ ready)) (lower degrees (ready.flatMap dag.outgoing)) := by
  intro node hnode
  rw [getElem?_lower, h node hnode, Option.map_some, count_outgoing node hnodup, pending_filter hsub,
    Nat.add_sub_cancel_left]

/-! ## A dag and the relation that it shows -/

/-- The variant that a node stands for, when it stands for one. -/
def idOf (dag : Dag) (node : Nat) : VariantId := dag.ids.getD node 0

/-- The nodes of a dag stand for those of a digraph, each for one of its own, and there is an edge wherever
the digraph leads from one to another. -/
structure Shows (dag : Dag) (graph : Digraph) : Prop where
  nodes : graph.nodes = dag.ids
  nodup : dag.ids.Nodup
  edges : ∀ source target, (source, target) ∈ dag.edges ↔ source < dag.ids.length ∧ target < dag.ids.length ∧
    graph.Leads (dag.idOf target) (dag.idOf source)

variable {graph : Digraph}

theorem map_idOf_range (dag : Dag) : (List.range dag.ids.length).map dag.idOf = dag.ids := by
  refine List.ext_getElem (by simp) fun node hnode hnode' => ?_
  simp [idOf, hnode']

namespace Shows
variable (h : dag.Shows graph)
include h

theorem idOf_inj {a b : Nat} (ha : a < dag.ids.length) (hb : b < dag.ids.length) :
    dag.idOf a = dag.idOf b ↔ a = b := by
  simp [idOf, ha, hb, h.nodup.getElem_inj_iff]

theorem idOf_mem_map {node : Nat} {nodes : List Nat} (hn : node < dag.ids.length)
    (hlt : ∀ other ∈ nodes, other < dag.ids.length) : dag.idOf node ∈ nodes.map dag.idOf ↔ node ∈ nodes := by
  refine ⟨fun hmem => ?_, List.mem_map_of_mem⟩
  obtain ⟨other, hother, he⟩ := List.mem_map.1 hmem
  exact (h.idOf_inj (hlt other hother) hn).1 he ▸ hother

/-- No edge counts for a node exactly if it leads to nothing that remains. -/
theorem pending_eq_zero_iff {node : Nat} {remaining : List Nat} (hn : node < dag.ids.length)
    (hlt : ∀ other ∈ remaining, other < dag.ids.length) :
    dag.pending remaining node = 0 ↔ ∀ id, graph.Leads (dag.idOf node) id → id ∉ remaining.map dag.idOf := by
  simp only [pending, List.countP_eq_zero, Bool.and_eq_true, decide_eq_true_eq, not_and]
  constructor
  · intro hnone id hleads hmem
    obtain ⟨source, hsource, rfl⟩ := List.mem_map.1 hmem
    exact hnone (source, node) ((h.edges source node).2 ⟨hlt source hsource, hn, hleads⟩) rfl hsource
  · rintro hnone ⟨source, target⟩ hedge rfl hsource
    obtain ⟨-, -, hleads⟩ := (h.edges source target).1 hedge
    exact hnone _ hleads (List.mem_map_of_mem hsource)

theorem ready_map {remaining : List Nat} (hlt : ∀ node ∈ remaining, node < dag.ids.length) :
    graph.ready (remaining.map dag.idOf) =
      (remaining.filter fun node => dag.pending remaining node = 0).map dag.idOf := by
  rw [Digraph.ready, List.filter_map]
  refine congrArg _ (List.filter_congr fun node hnode => ?_)
  rw [Bool.eq_iff_iff]
  simpa [Digraph.Leads] using (h.pending_eq_zero_iff (hlt node hnode) hlt).symm

theorem filter_map_idOf {remaining ready : List Nat} (hlt : ∀ node ∈ remaining, node < dag.ids.length)
    (hsub : ∀ node ∈ ready, node ∈ remaining) :
    (remaining.map dag.idOf).filter (· ∉ ready.map dag.idOf) = (remaining.filter (· ∉ ready)).map dag.idOf := by
  rw [List.filter_map]
  refine congrArg _ (List.filter_congr fun node hnode => ?_)
  rw [Bool.eq_iff_iff]
  simpa using not_congr (h.idOf_mem_map (hlt node hnode) fun other ho => hlt other (hsub other ho))

end Shows

/-- All levels, if nothing is left. -/
def whole : List (List Nat) × List Nat → Option (List (List Nat))
  | (levels, []) => some levels
  | (_, _ :: _) => none

theorem levels?_eq_whole (graph : Digraph) : graph.levels? = whole graph.peeled := rfl

theorem whole_of_ne_nil {levels : List (List Nat)} {left : List Nat} (h : left ≠ []) : whole (levels, left) = none := by
  cases left with
  | nil => exact absurd rfl h
  | cons first rest => rfl

theorem whole_cons (level : List Nat) (peeled : List (List Nat) × List Nat) :
    whole (level :: peeled.1, peeled.2) = (whole peeled).map (level :: ·) := by
  obtain ⟨levels, left⟩ := peeled
  cases left <;> rfl

/-- **Counting finds the waves.** With as much fuel as there are nodes that remain, no degree is missed that is
asked for, and the levels are those of the relation. -/
theorem peel_eq (h : dag.Shows graph) : ∀ (fuel : Nat) (remaining degrees : List Nat), remaining.length ≤ fuel →
    remaining.Nodup → (∀ node ∈ remaining, node < dag.ids.length) → dag.Counts remaining degrees →
      dag.peel fuel remaining degrees = .ok (whole (graph.peel fuel (remaining.map dag.idOf)))
  | 0, remaining, _, hlen, _, _, _ => by
    obtain rfl : remaining = [] := List.length_eq_zero_iff.1 (Nat.le_zero.1 hlen)
    rfl
  | fuel + 1, remaining, degrees, hlen, hnodup, hlt, hcounts => by
    by_cases hnil : remaining = []
    · subst hnil; rfl
    have hdegree : keep (fun node => return (← degree degrees node) = 0) remaining =
        .ok (remaining.filter fun node => dag.pending remaining node = 0) :=
      keep_eq_ok fun node hmem => by rw [degree, hcounts node (hlt node hmem)]; rfl
    have hready := h.ready_map hlt
    have hsub : ∀ node ∈ remaining.filter fun node => dag.pending remaining node = 0, node ∈ remaining :=
      fun node hmem => List.mem_of_mem_filter hmem
    have hkept : (remaining.filter fun node => dag.pending remaining node = 0).Nodup := hnodup.filter _
    rw [peel, if_neg hnil, hdegree, ok_bind]
    generalize remaining.filter (fun node => dag.pending remaining node = 0) = ready at *
    by_cases hne : ready = []
    · rw [if_pos hne, Digraph.peel_of_stuck (by rw [hready, hne]; rfl), whole_of_ne_nil (by simpa using hnil)]
      rfl
    · have hsmaller : (remaining.filter (· ∉ ready)).length < remaining.length := by
        obtain ⟨node, hmem⟩ := List.exists_mem_of_ne_nil _ hne
        exact List.length_filter_lt_length_iff_exists.2 ⟨node, hsub node hmem, by simpa using hmem⟩
      rw [if_neg hne, mapM_eq_ok fun node hmem => weight_eq (hlt node (hsub node hmem)), ok_bind,
        peel_eq h fuel (remaining.filter (· ∉ ready)) _ (by omega) (hnodup.filter _)
          (fun node hmem => hlt node (List.mem_of_mem_filter hmem)) (hcounts.step hsub hkept), ok_bind,
        Digraph.peel_of_ready (by rw [hready]; simpa using hne), hready, h.filter_map_idOf hlt hsub, whole_cons]
      rfl

/-- All edges count at first. -/
theorem counts_degrees (h : dag.Shows graph) : dag.Counts (List.range dag.ids.length) dag.degrees := by
  intro node hnode
  have hall : dag.edges.countP (·.2 = node) = dag.pending (List.range dag.ids.length) node :=
    List.countP_congr fun edge hedge => by simpa using fun _ => ((h.edges edge.1 edge.2).1 hedge).1
  simp [degrees, hnode, hall]

theorem waves?_eq (h : dag.Shows graph) : dag.waves? = .ok graph.levels? := by
  rw [waves?, peel_eq h _ _ _ (by simp) List.nodup_range (fun node hnode => List.mem_range.1 hnode)
    (counts_degrees h), map_idOf_range, levels?_eq_whole, Digraph.peeled, h.nodes]

end Dag

/-! ## The dag of a graph -/

variable {graph : Graph}

/-- The edges that a variant gives rise to, one for each target that is live. -/
def edgesOf (graph : Graph) (id : VariantId) : List (Nat × Nat) :=
  ((graph.variant id).targets.filterMap graph.liveIds.idxOf?).map (·, graph.liveIds.idxOf id)

theorem build_eq (graph : Graph) :
    Dag.build graph = .ok ⟨graph.liveIds, (graph.liveIds.map (edgesOf graph)).flatten⟩ := by
  have hrows : (graph.liveIds.mapM fun id => do
      let dependent ← nodeOf graph.liveIds id
      let shape ← variant graph id
      return (shape.targets.filterMap graph.liveIds.idxOf?).map (·, dependent)) =
      .ok (graph.liveIds.map (edgesOf graph)) :=
    mapM_eq_ok fun id hmem => by
      rw [nodeOf_eq hmem, ok_bind, variant_of_isLive (Graph.mem_liveIds.1 hmem), ok_bind]
      rfl
  rw [Dag.build, hrows, ok_bind]
  rfl

theorem mem_edgesOf {id : VariantId} {source target : Nat} :
    (source, target) ∈ edgesOf graph id ↔
      (source < graph.liveIds.length ∧ graph.liveIds.getD source 0 ∈ (graph.variant id).targets) ∧
        target = graph.liveIds.idxOf id := by
  simp only [edgesOf, List.mem_map, List.mem_filterMap, Prod.mk.injEq, idxOf?_eq_some_iff graph.nodup_liveIds]
  constructor
  · rintro ⟨_, ⟨t, ht, hlt, rfl⟩, rfl, rfl⟩
    exact ⟨⟨hlt, ht⟩, rfl⟩
  · rintro ⟨⟨hlt, ht⟩, rfl⟩
    exact ⟨source, ⟨_, ht, hlt, rfl⟩, rfl, rfl⟩

/-- The edges of the dag are the dependencies among live variants. -/
theorem shows_build (graph : Graph) :
    Dag.Shows ⟨graph.liveIds, (graph.liveIds.map (edgesOf graph)).flatten⟩ graph.dependencyGraph where
  nodes := rfl
  nodup := graph.nodup_liveIds
  edges source target := by
    simp only [List.mem_flatten, List.mem_map, exists_exists_and_eq_and, Graph.leads_dependencyGraph, Dag.idOf]
    constructor
    · rintro ⟨id, hid, hedge⟩
      obtain ⟨⟨hsource, ht⟩, rfl⟩ := mem_edgesOf.1 hedge
      rw [getD_idxOf hid]
      exact ⟨hsource, List.idxOf_lt_length_iff.2 hid, ht, Graph.mem_liveIds.1 (getD_mem hsource)⟩
    · rintro ⟨hsource, htarget, ht, -⟩
      refine ⟨_, getD_mem htarget, mem_edgesOf.2 ⟨⟨hsource, ht⟩, ?_⟩⟩
      simp [htarget, graph.nodup_liveIds.idxOf_getElem]

/-! ## Waves and cycles of a graph -/

/-- All variants on a cycle are live. -/
theorem isLive_of_findCycle? {path : List VariantId} (h : graph.findCycle? = some path) :
    ∀ id ∈ path, graph.isLive id = true := fun id hid =>
  Graph.mem_liveIds.1 (Digraph.mem_nodes_of_mem_cycles (List.mem_of_mem_head? h) id hid)

theorem findCycle?_eq (graph : Graph) : findCycle? graph = .ok graph.findCycle? := by
  unfold findCycle?
  cases hpath : graph.findCycle? with
  | none => rfl
  | some path =>
    dsimp only
    rw [throughNodes_eq fun id hid => Graph.mem_liveIds.2 (isLive_of_findCycle? hpath id hid)]
    rfl

/-- A graph that has no waves has a cycle. -/
theorem findCycle?_ne_none (h : graph.dependencyGraph.levels? = none) : graph.findCycle? ≠ none := by
  intro hnone
  obtain ⟨levels, hlevels⟩ := Digraph.exists_levels? (Digraph.cycles_eq_nil_iff.1 (List.head?_eq_none_iff.1 hnone))
  rw [h] at hlevels
  cases hlevels

/-- **No look-up fails on the way to the waves**, and where there are none a cycle is found. -/
theorem waves_eq (graph : Graph) : waves graph = .ok graph.waves := by
  rw [waves, build_eq, ok_bind, Dag.waves?_eq (shows_build graph), ok_bind, Graph.waves]
  cases hlevels : graph.dependencyGraph.levels? with
  | some levels => rfl
  | none =>
    obtain ⟨path, hpath⟩ := Option.ne_none_iff_exists'.1 (findCycle?_ne_none hlevels)
    dsimp only
    rw [findCycle?_eq, hpath, ok_bind]
    rfl

end VariantGraph.Checked
