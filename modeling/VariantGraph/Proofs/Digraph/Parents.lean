import VariantGraph.Proofs.Digraph.Shortest
/-!
# A search that notes parents

The way back can also be searched among the members of one component only, with a table that says from where a
node was put in line; the way is read off the table when the start shows up again (`closeCycle`). In a component
this finds the cycle of `searchBack`, which carries the ways along in its queue (`cycleWithin_eq`): a node outside
the component leads to none of its members, so its turn changes nothing, and the ways are the lines of parents.
-/
namespace VariantGraph.Digraph

variable {graph : Digraph}

/-- For every node that was put in line, the one whose turn it was. -/
abbrev Parents := List (Nat × Nat)

/-- The parent of a node, its parent, and so on. -/
def ancestors (parents : Parents) : Nat → Nat → List Nat
  | 0, _ => []
  | fuel + 1, node =>
    match parents.lookup node with
    | none => []
    | some parent => parent :: ancestors parents fuel parent

/-- The way from the start over the ancestors of a node to the node and back to the start, which is named once at
each end. -/
def closeCycle (start node : Nat) (parents : Parents) : List Nat :=
  let back := node :: ancestors parents parents.length node
  let inner := if back.getLast? = some start then back.dropLast else back
  start :: inner.reverse ++ [start]

/-- Puts in line what a node leads to and has no parent yet; the cycle, if the node leads to the start. -/
def visit (start node : Nat) : List Nat → Parents → List Nat → Except (List Nat) (Parents × List Nat)
  | [], parents, line => .ok (parents, line)
  | next :: rest, parents, line =>
    if next = start then .error (closeCycle start node parents)
    else if (parents.lookup next).isSome then visit start node rest parents line
    else visit start node rest (parents ++ [(next, node)]) (line ++ [next])

/-- Searches breadth first among some members for a way back to the start. -/
def searchWithin (graph : Digraph) (members : List Nat) (start : Nat) : Nat → Parents → List Nat → Option (List Nat)
  | 0, _, _ => none
  | _, _, [] => none
  | fuel + 1, parents, node :: line =>
    match visit start node ((graph.successors node).filter (· ∈ members)) parents line with
    | .error path => some path
    | .ok (parents, line) => searchWithin graph members start fuel parents line

/-- A shortest cycle through the first of some members. -/
def cycleWithin (graph : Digraph) (members : List Nat) : Option (List Nat) :=
  members.head?.bind fun start => graph.searchWithin members start (graph.nodes.length + 1) [] [start]

/-! ## Lines of parents -/

/-- The parents of a node, one after the other, up to the start. -/
def Descends (parents : Parents) (start : Nat) : Nat → List Nat → Prop
  | node, [] => node = start
  | node, parent :: way => parents.lookup node = some parent ∧ Descends parents start parent way

section Descends
variable {parents : Parents} {start node : Nat} {way : List Nat}

theorem Descends.mono (h : Descends parents start node way) (more : Parents) :
    Descends (parents ++ more) start node way := by
  induction way generalizing node with
  | nil => exact h
  | cons parent way ih => exact ⟨by rw [List.lookup_append, h.1, Option.some_or], ih h.2⟩

theorem Descends.ancestors (h : Descends parents start node way) (hs : parents.lookup start = none) {fuel : Nat}
    (hfuel : way.length ≤ fuel) : ancestors parents fuel node = way := by
  induction way generalizing node fuel with
  | nil =>
    obtain rfl : node = start := h
    cases fuel with
    | zero => rfl
    | succ fuel => simp only [Digraph.ancestors, hs]
  | cons parent way ih =>
    obtain ⟨fuel, rfl⟩ : ∃ n, fuel = n + 1 := Nat.exists_eq_add_one.2 (Nat.lt_of_lt_of_le (Nat.succ_pos _) hfuel)
    simp only [Digraph.ancestors, h.1, ih h.2 (Nat.le_of_succ_le_succ hfuel)]

/-- All but the last of a line are in the table. -/
theorem Descends.mem_keys (h : Descends parents start node way) :
    ∀ b ∈ (node :: way).dropLast, b ∈ parents.map (·.1) := by
  induction way generalizing node with
  | nil => exact fun b hb => absurd hb List.not_mem_nil
  | cons parent way ih =>
    intro b hb
    rw [List.dropLast_cons_cons] at hb
    rcases List.mem_cons.1 hb with rfl | hb
    · obtain ⟨before, after, rfl, -⟩ := List.lookup_eq_some_iff.1 h.1
      simp
    · exact ih h.2 b hb

/-- A line that names no node twice is no longer than the table. -/
theorem Descends.length_le (h : Descends parents start node way) (hn : (node :: way).Nodup) :
    way.length ≤ parents.length := by
  have hle := (List.subperm_of_subset (hn.sublist (List.dropLast_sublist _)) h.mem_keys).length_le
  rwa [List.length_dropLast, List.length_map] at hle

theorem Descends.getLast? (h : Descends parents start node way) : (node :: way).getLast? = some start := by
  induction way generalizing node with
  | nil => exact congrArg some h
  | cons parent way ih =>
    rw [List.getLast?_cons_cons]
    exact ih h.2

/-- **The table gives the way back**: the cycle that is closed over the parents of a node is the start, the line
of parents from there to the node, and the start. -/
theorem Descends.closeCycle (h : Descends parents start node way) (hs : parents.lookup start = none)
    (hn : (node :: way).Nodup) : closeCycle start node parents = (start :: node :: way).reverse := by
  obtain ⟨front, hfront⟩ := List.getLast?_eq_some_iff.1 h.getLast?
  rw [Digraph.closeCycle, h.ancestors hs (h.length_le hn), List.reverse_cons, if_pos h.getLast?, hfront]
  simp

end Descends

/-! ## A turn -/

/-- Those of some nodes that have no parent yet. -/
def newcomers (parents : Parents) (nexts : List Nat) : List Nat := nexts.filter fun b => (parents.lookup b).isNone

/-- To note a parent for a node changes nothing for the others. -/
theorem newcomers_append {parents : Parents} {next node : Nat} {nexts : List Nat} (h : next ∉ nexts) :
    newcomers (parents ++ [(next, node)]) nexts = newcomers parents nexts := by
  refine List.filter_congr fun b hb => ?_
  have hne : (b == next) = false := beq_eq_false_iff_ne.2 fun he => h (he ▸ hb)
  rw [List.lookup_append, List.lookup_cons, hne]
  simp

theorem visit_of_not_mem {start node : Nat} {nexts : List Nat} (hs : start ∉ nexts) (hn : nexts.Nodup)
    (parents : Parents) (line : List Nat) : visit start node nexts parents line =
      .ok (parents ++ (newcomers parents nexts).map (·, node), line ++ newcomers parents nexts) := by
  induction nexts generalizing parents line with
  | nil => simp [visit, newcomers]
  | cons next nexts ih =>
    obtain ⟨hnext, hn⟩ := List.nodup_cons.1 hn
    obtain ⟨hne, hs⟩ := not_or.1 (mt List.mem_cons.2 hs)
    rw [visit, if_neg (Ne.symm hne)]
    split
    · next hold =>
      have hdrop : newcomers parents (next :: nexts) = newcomers parents nexts :=
        List.filter_cons_of_neg (by simpa using hold)
      rw [ih hs hn, hdrop]
    · next hnew =>
      have hkeep : newcomers parents (next :: nexts) = next :: newcomers parents nexts :=
        List.filter_cons_of_pos (by simpa only [Option.isNone_iff_eq_none, Option.not_isSome_iff_eq_none] using hnew)
      rw [ih hs hn, newcomers_append hnext, hkeep]
      simp

theorem visit_of_head {start node : Nat} {nexts : List Nat} (h : nexts.head? = some start) (parents : Parents)
    (line : List Nat) : visit start node nexts parents line = .error (closeCycle start node parents) := by
  obtain ⟨rest, rfl⟩ : ∃ rest, nexts = start :: rest := ⟨_, List.eq_cons_of_mem_head? h⟩
  rw [visit, if_pos rfl]

/-! ## The two searches side by side -/

/-- The members are what is on a cycle with the start, which is the lowest of them. -/
structure Around (graph : Digraph) (members : List Nat) (start : Nat) : Prop where
  start_mem : start ∈ members
  least : ∀ b ∈ members, start ≤ b
  mem : ∀ b, graph.Mutual start b → b ∈ members
  back : ∀ b ∈ members, graph.Path b start

/-- A table and a line say of the members what a search knows that carries the ways along. -/
structure Notes (members : List Nat) (start : Nat) (seen : List Nat) (queue : List (Nat × List Nat))
    (parents : Parents) (line : List Nat) : Prop where
  line_eq : line = (queue.map (·.1)).filter (· ∈ members)
  rootless : parents.lookup start = none
  known : ∀ b ∈ members, b ≠ start → (b ∈ seen ↔ (parents.lookup b).isSome)
  descends : ∀ entry ∈ queue, entry.1 ∈ members → Descends parents start entry.1 entry.2

theorem notes_start (start : Nat) {members : List Nat} (h : start ∈ members) :
    Notes members start [start] [(start, [])] [] [start] where
  line_eq := by simp [h]
  rootless := rfl
  known b _ hne := by simp [hne]
  descends entry he _ := by
    obtain rfl := List.mem_singleton.1 he
    rfl

section Turn
variable {members : List Nat} {start a : Nat} {way seen : List Nat} {queue : List (Nat × List Nat)}
  {parents : Parents} {line : List Nat} (hn : Notes members start seen ((a, way) :: queue) parents line)
include hn

/-- The turn of a node outside the component adds no member. -/
theorem Notes.skip (ha : a ∉ members) (hout : ∀ b, graph.Leads a b → b ∉ members) :
    Notes members start (seen ++ graph.fresh seen a) (queue ++ (graph.fresh seen a).map (·, a :: way)) parents line where
  line_eq := by
    have hnone : (graph.fresh seen a).filter (· ∈ members) = [] :=
      List.filter_eq_nil_iff.2 fun b hb => by simpa using hout b (mem_fresh.1 hb).1
    rw [hn.line_eq, map_fst_enqueue, List.filter_append, hnone, List.append_nil, List.map_cons,
      List.filter_cons_of_neg (by simpa using ha)]
  rootless := hn.rootless
  known b hb hne := by
    have hold : b ∉ graph.fresh seen a := fun hmem => hout b (mem_fresh.1 hmem).1 hb
    rw [List.mem_append, or_iff_left hold]
    exact hn.known b hb hne
  descends entry he hmem := by
    rcases List.mem_append.1 he with he | he
    · exact hn.descends entry (List.mem_cons_of_mem _ he) hmem
    · obtain ⟨b, hb, rfl⟩ := List.mem_map.1 he
      exact absurd hmem (hout b (mem_fresh.1 hb).1)

/-- The members that come into line are those that a search comes to see. -/
theorem Notes.newcomers_eq (hno : ¬ graph.Leads a start) :
    newcomers parents ((graph.successors a).filter (· ∈ members)) = (graph.fresh seen a).filter (· ∈ members) := by
  rw [newcomers, fresh, List.filter_filter, List.filter_filter]
  refine List.filter_congr fun b hb => ?_
  have hne : b ≠ start := fun he => hno (he ▸ mem_successors.1 hb)
  by_cases hmem : b ∈ members
  · have hknown := hn.known b hmem hne
    rw [Bool.eq_iff_iff]
    simp only [hmem, Bool.and_eq_true, decide_eq_true_eq, hknown, Option.isNone_iff_eq_none,
      Option.not_isSome_iff_eq_none, and_true, true_and]
  · simp [hmem]

/-- The turn of a member notes it for the members that come into line. -/
theorem Notes.step (ha : a ∈ members) (hno : ¬ graph.Leads a start) :
    Notes members start (seen ++ graph.fresh seen a) (queue ++ (graph.fresh seen a).map (·, a :: way))
      (parents ++ ((graph.fresh seen a).filter (· ∈ members)).map (·, a))
      ((queue.map (·.1)).filter (· ∈ members) ++ (graph.fresh seen a).filter (· ∈ members)) := by
  have hlookup : ∀ b, (((graph.fresh seen a).filter (· ∈ members)).map (·, a)).lookup b =
      if b ∈ (graph.fresh seen a).filter (· ∈ members) then some a else none := by
    intro b
    induction (graph.fresh seen a).filter (· ∈ members) with
    | nil => rfl
    | cons c l ih =>
      rw [List.map_cons, List.lookup_cons]
      by_cases he : b = c
      · simp [he]
      · simp [beq_eq_false_iff_ne.2 he, he, ih]
  refine ⟨?_, ?_, fun b hb hne => ?_, fun entry he hmem => ?_⟩
  · rw [map_fst_enqueue, List.filter_append]
  · have hstart : start ∉ (graph.fresh seen a).filter (· ∈ members) := fun hmem =>
      hno (mem_fresh.1 (List.mem_of_mem_filter hmem)).1
    rw [List.lookup_append, hn.rootless, hlookup, if_neg hstart, Option.none_or]
  · rw [List.mem_append, hn.known b hb hne, List.lookup_append, hlookup, Option.isSome_or, Bool.or_eq_true]
    refine or_congr_right ?_
    simp [hb]
  · rcases List.mem_append.1 he with he | he
    · exact (hn.descends entry (List.mem_cons_of_mem _ he) hmem).mono _
    · obtain ⟨b, hb, rfl⟩ := List.mem_map.1 he
      have hnew : b ∈ (graph.fresh seen a).filter (· ∈ members) := List.mem_filter.2 ⟨hb, by simpa using hmem⟩
      have hparent : parents.lookup b = none := by
        have hne : b ≠ start := fun he => hno (he ▸ (mem_fresh.1 hb).1)
        rw [← Option.not_isSome_iff_eq_none, ← hn.known b hmem hne]
        exact (mem_fresh.1 hb).2
      refine ⟨?_, (hn.descends _ List.mem_cons_self ha).mono _⟩
      rw [List.lookup_append, hparent, hlookup, if_pos hnew, Option.none_or]

end Turn

/-- What waits was come to from the start. -/
theorem CameFrom.path {start : Nat} {queue : List (Nat × List Nat)} (h : graph.CameFrom start queue)
    {entry : Nat × List Nat} (he : entry ∈ queue) : Relation.ReflTransGen graph.Leads start entry.1 := by
  obtain ⟨hchain, hlast⟩ := h entry he
  have hfrom : ∀ b ∈ entry.1 :: entry.2, Relation.ReflTransGen graph.Leads b entry.1 :=
    List.IsChain.induction _ _ hchain (fun _ _ hlead hb => Relation.ReflTransGen.head hlead hb) fun _ => .refl
  exact hfrom start (List.mem_of_getLast? hlast)

/-- A node that leads to the start leads to no member before it. -/
theorem Around.head?_successors {members : List Nat} {start a : Nat} (hc : graph.Around members start)
    (hlead : graph.Leads a start) : ((graph.successors a).filter (· ∈ members)).head? = some start := by
  have hmem : start ∈ (graph.successors a).filter (· ∈ members) :=
    List.mem_filter.2 ⟨mem_successors.2 hlead, by simpa using hc.start_mem⟩
  obtain ⟨first, rest, hcons⟩ := List.exists_cons_of_ne_nil (List.ne_nil_of_mem hmem)
  have hfirst : first ∈ members := by
    have hkept : first ∈ (graph.successors a).filter (· ∈ members) := hcons ▸ List.mem_cons_self
    simpa using (List.mem_filter.1 hkept).2
  have hincreasing : ((graph.successors a).filter (· ∈ members)).Pairwise (· < ·) :=
    (increasing_successors graph a).filter _
  rw [hcons] at hmem hincreasing ⊢
  rcases List.mem_cons.1 hmem with rfl | hmem
  · rfl
  · exact absurd ((List.pairwise_cons.1 hincreasing).1 start hmem) (Nat.not_lt_of_le (hc.least first hfirst))

/-- The two searches take their turns together, by induction on the fuel of the whole search: a turn outside the
component is skipped by the other one. -/
theorem searchWithin_of_searchBack {members : List Nat} {start : Nat} (hc : graph.Around members start)
    {path : List Nat} : ∀ {fuel fuel' : Nat} {seen : List Nat} {queue : List (Nat × List Nat)} {parents : Parents}
      {line : List Nat}, graph.Seeking start seen queue → Notes members start seen queue parents line →
      fuel ≤ fuel' → graph.searchBack start fuel seen queue = some path →
      graph.searchWithin members start fuel' parents line = some path
  | 0, _, _, _, _, _, _, _, _, h => by simp [searchBack] at h
  | _ + 1, _, _, [], _, _, _, _, _, h => by simp [searchBack] at h
  | fuel + 1, fuel', seen, (a, way) :: queue, parents, line, hp, hn, hle, h => by
    obtain ⟨fuel', rfl⟩ : ∃ n, fuel' = n + 1 := Nat.exists_eq_add_one.2 (Nat.lt_of_lt_of_le (Nat.succ_pos _) hle)
    have hfrom := hp.cameFrom.path List.mem_cons_self
    -- whatever leads back to the start from here is a member
    have hback : graph.Path a start → a ∈ members := fun ha =>
      hc.mem a ⟨(hc.back start hc.start_mem).trans_left hfrom, ha⟩
    by_cases ha : a ∈ members
    · have hline : line = a :: (queue.map (·.1)).filter (· ∈ members) := by
        rw [hn.line_eq, List.map_cons, List.filter_cons_of_pos (by simpa using ha)]
      rw [hline, searchWithin]
      by_cases hlead : graph.Leads a start
      · rw [searchBack_of_leads hlead] at h
        rw [visit_of_head (hc.head?_successors hlead), ← h,
          (hn.descends _ List.mem_cons_self ha).closeCycle hn.rootless (hp.simple _ List.mem_cons_self).1]
      · have hnot : start ∉ (graph.successors a).filter (· ∈ members) := fun hmem =>
          hlead (mem_successors.1 (List.mem_of_mem_filter hmem))
        rw [searchBack_of_not_leads hlead] at h
        rw [visit_of_not_mem hnot ((nodup_successors graph a).filter _), hn.newcomers_eq hlead]
        exact searchWithin_of_searchBack hc (hp.step hlead) (hn.step ha hlead) (Nat.le_of_succ_le_succ hle) h
    · have hout : ∀ b, graph.Leads a b → b ∉ members := fun b hab hb => ha (hback (.head hab (hc.back b hb)))
      have hlead : ¬ graph.Leads a start := fun hlead => hout start hlead hc.start_mem
      rw [searchBack_of_not_leads hlead] at h
      exact searchWithin_of_searchBack hc (hp.step hlead) (hn.skip ha hout) (Nat.le_of_succ_le hle) h

/-- **The search among the members finds the cycle of the whole search.** -/
theorem cycleWithin_eq {members : List Nat} {start : Nat} (hc : graph.Around members start)
    (hhead : members.head? = some start) : graph.cycleWithin members = graph.cycleThrough? start := by
  have hround := hc.back start hc.start_mem
  obtain ⟨path, hfound⟩ := Option.ne_none_iff_exists'.1 (cycleThrough?_ne_none hround)
  rw [cycleWithin, hhead, hfound]
  exact searchWithin_of_searchBack hc (seeking_start hround.mem_nodes) (notes_start start hc.start_mem)
    (Nat.le_refl _) hfound

end VariantGraph.Digraph
