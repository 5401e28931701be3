import VariantGraph.Proofs.Digraph.Longest
/-!
# The cycles that are found are shortest

A search that goes on from what waits longest keeps its queue in the order of the ways (`Layered`): whatever so
many steps lead to was dealt with, or waits with a way that is no longer. So the first way back to the start is
a shortest one (`shortest_of_cycleThrough?`). It goes through no node twice, since nodes are put in line once
(`Simple.step`).
-/
namespace VariantGraph.Digraph

variable {graph : Digraph}

/-- A number of steps lead from a node to another one. -/
inductive Walk (graph : Digraph) (start : Nat) : Nat → Nat → Prop where
  | here : Walk graph start 0 start
  | on {n a b : Nat} : Walk graph start n a → graph.Leads a b → Walk graph start (n + 1) b

/-- The nodes in line, each with a way that led to it, are in the order of these ways, and no other walk comes
before its turn. -/
structure Layered (graph : Digraph) (start : Nat) (seen : List Nat) (queue : List (Nat × List Nat)) : Prop where
  once : (queue.map (·.1)).Nodup
  sorted : queue.Pairwise fun entry later => entry.2.length ≤ later.2.length
  close : ∀ entry ∈ queue, ∀ other ∈ queue, other.2.length ≤ entry.2.length + 1
  /-- What a walk leads to was dealt with, or waits with no longer a way; or nothing in line came a longer way. -/
  reached : ∀ {n b : Nat}, graph.Walk start n b → (b ∈ seen ∧ b ∉ queue.map (·.1)) ∨
    (∃ way, (b, way) ∈ queue ∧ way.length ≤ n) ∨ (b ∉ seen ∧ ∀ entry ∈ queue, entry.2.length ≤ n)

theorem layered_start (graph : Digraph) (start : Nat) : graph.Layered start [start] [(start, [])] where
  once := List.nodup_singleton start
  sorted := List.pairwise_singleton _ _
  close entry he other ho := by
    obtain rfl := List.mem_singleton.1 he
    obtain rfl := List.mem_singleton.1 ho
    exact Nat.le_succ _
  reached {n b} _ := by
    by_cases hb : b = start
    · subst hb
      exact Or.inr (Or.inl ⟨[], List.mem_singleton_self _, Nat.zero_le n⟩)
    · refine Or.inr (Or.inr ⟨by simpa using hb, fun entry he => ?_⟩)
      obtain rfl := List.mem_singleton.1 he
      exact Nat.zero_le n

section Step
variable {start a : Nat} {way seen : List Nat} {queue : List (Nat × List Nat)}
  (h : graph.Layered start seen ((a, way) :: queue)) (hs : graph.Searched seen (a :: queue.map (·.1)))
include h

theorem Layered.head_le {entry : Nat × List Nat} (he : entry ∈ (a, way) :: queue) : way.length ≤ entry.2.length := by
  rcases List.mem_cons.1 he with rfl | he
  · exact Nat.le_refl _
  · exact (List.pairwise_cons.1 h.sorted).1 entry he

/-- A step from a node that was not dealt with comes no earlier than one from the first in line. -/
theorem Layered.head_le_of_step {n c : Nat} (hw : graph.Walk start n c)
    (hc : ¬ (c ∈ seen ∧ c ∉ ((a, way) :: queue).map (·.1))) : way.length + 1 ≤ n + 1 := by
  rcases h.reached hw with hdone | ⟨way', hmem, hle⟩ | ⟨-, hall⟩
  · exact absurd hdone hc
  · exact Nat.succ_le_succ (Nat.le_trans (h.head_le hmem) hle)
  · exact Nat.succ_le_succ (hall _ List.mem_cons_self)

include hs

/-- A walk to a node that was not seen is longer than the way of the first in line. -/
theorem Layered.lt_of_unseen (hstart : start ∈ seen) {n b : Nat} (hw : graph.Walk start n b) (hb : b ∉ seen) :
    way.length + 1 ≤ n := by
  cases hw with
  | here => exact absurd hstart hb
  | on hw hcb => exact h.head_le_of_step hw fun ⟨hseen, hdone⟩ => hb (hs.closed _ hseen hdone _ hcb)

theorem Layered.step (hstart : start ∈ seen) : graph.Layered start (seen ++ graph.fresh seen a)
    (queue ++ (graph.fresh seen a).map (·, a :: way)) := by
  obtain ⟨ha, honce⟩ := List.nodup_cons.1 h.once
  obtain ⟨hfirst, hsorted⟩ := List.pairwise_cons.1 h.sorted
  have hlimit : ∀ entry ∈ queue, entry.2.length ≤ way.length + 1 := fun entry he =>
    h.close _ List.mem_cons_self entry (List.mem_cons_of_mem _ he)
  refine ⟨?_, ?_, ?_, fun {n b} hw => ?_⟩
  · rw [map_fst_enqueue, List.nodup_append]
    refine ⟨honce, (nodup_successors graph a).filter _, ?_⟩
    rintro b hb c hc rfl
    exact (mem_fresh.1 hc).2 (hs.waits b (List.mem_cons_of_mem _ hb))
  · rw [List.pairwise_append]
    refine ⟨hsorted, ?_, fun entry he later hl => ?_⟩
    · exact List.pairwise_map.2 (List.pairwise_of_forall fun _ _ => Nat.le_refl _)
    · obtain ⟨b, -, rfl⟩ := List.mem_map.1 hl
      exact hlimit entry he
  · intro entry he other ho
    rcases List.mem_append.1 he with he | he <;> rcases List.mem_append.1 ho with ho | ho
    · exact h.close entry (List.mem_cons_of_mem _ he) other (List.mem_cons_of_mem _ ho)
    · obtain ⟨b, -, rfl⟩ := List.mem_map.1 ho
      exact Nat.succ_le_succ (hfirst entry he)
    · obtain ⟨b, -, rfl⟩ := List.mem_map.1 he
      exact Nat.le_succ_of_le (hlimit other ho)
    · obtain ⟨b, -, rfl⟩ := List.mem_map.1 he
      obtain ⟨c, -, rfl⟩ := List.mem_map.1 ho
      exact Nat.le_succ _
  · rw [map_fst_enqueue]
    rcases h.reached hw with ⟨hseen, hdone⟩ | ⟨way', hmem, hle⟩ | ⟨hunseen, hall⟩
    · refine Or.inl ⟨List.mem_append_left _ hseen, fun hmem => ?_⟩
      rcases List.mem_append.1 hmem with hmem | hmem
      · exact hdone (List.mem_cons_of_mem _ hmem)
      · exact (mem_fresh.1 hmem).2 hseen
    · rcases List.mem_cons.1 hmem with he | hmem
      · -- the first in line is dealt with now
        obtain ⟨rfl, rfl⟩ := Prod.mk.inj he
        have hseen := hs.waits b List.mem_cons_self
        refine Or.inl ⟨List.mem_append_left _ hseen, fun hmem => ?_⟩
        rcases List.mem_append.1 hmem with hmem | hmem
        · exact ha hmem
        · exact (mem_fresh.1 hmem).2 hseen
      · exact Or.inr (Or.inl ⟨way', List.mem_append_left _ hmem, hle⟩)
    · have hlonger := h.lt_of_unseen hs hstart hw hunseen
      by_cases hb : b ∈ graph.fresh seen a
      · exact Or.inr (Or.inl ⟨a :: way, List.mem_append_right _ (List.mem_map_of_mem hb), hlonger⟩)
      · refine Or.inr (Or.inr ⟨by simp [hunseen, hb], fun entry he => ?_⟩)
        rcases List.mem_append.1 he with he | he
        · exact hall entry (List.mem_cons_of_mem _ he)
        · obtain ⟨c, -, rfl⟩ := List.mem_map.1 he
          exact hlonger

end Step

/-- The ways of the nodes in line go through no node twice, and only through nodes that were seen. -/
def Simple (seen : List Nat) (queue : List (Nat × List Nat)) : Prop :=
  ∀ entry ∈ queue, (entry.1 :: entry.2).Nodup ∧ ∀ b ∈ entry.1 :: entry.2, b ∈ seen

theorem Simple.step {a : Nat} {seen way : List Nat} {queue : List (Nat × List Nat)}
    (h : Simple seen ((a, way) :: queue)) :
    Simple (seen ++ graph.fresh seen a) (queue ++ (graph.fresh seen a).map (·, a :: way)) := by
  obtain ⟨hnodup, hseen⟩ := h _ List.mem_cons_self
  intro entry he
  rcases List.mem_append.1 he with he | he
  · obtain ⟨hold, hsub⟩ := h entry (List.mem_cons_of_mem _ he)
    exact ⟨hold, fun b hb => List.mem_append_left _ (hsub b hb)⟩
  · obtain ⟨c, hc, rfl⟩ := List.mem_map.1 he
    refine ⟨List.nodup_cons.2 ⟨fun hmem => (mem_fresh.1 hc).2 (hseen c hmem), hnodup⟩, fun b hb => ?_⟩
    rcases List.mem_cons.1 hb with rfl | hb
    · exact List.mem_append_right _ hc
    · exact List.mem_append_left _ (hseen b hb)

/-- All that a search for a shortest way back keeps. -/
structure Seeking (graph : Digraph) (start : Nat) (seen : List Nat) (queue : List (Nat × List Nat)) : Prop where
  searching : graph.Searching start seen queue
  layered : graph.Layered start seen queue
  simple : Simple seen queue
  cameFrom : graph.CameFrom start queue

/-- A cycle from a node back to itself that goes through no node twice, as short as any closed walk through the
node. -/
structure ShortestCycle (graph : Digraph) (start : Nat) (path : List Nat) : Prop extends graph.IsCycle path where
  simple : ∃ interior, path = start :: interior ++ [start] ∧ (start :: interior).Nodup
  shortest : ∀ walk, graph.IsCycle walk → start ∈ walk → path.length ≤ walk.length

theorem Walk.append {start n a : Nat} (h : graph.Walk start n a) {way : List Nat}
    (hway : (a :: way).IsChain graph.Leads) :
    graph.Walk start (n + way.length) ((a :: way).getLast (List.cons_ne_nil _ _)) := by
  induction way generalizing n a with
  | nil => exact h
  | cons b way ih =>
    obtain ⟨hab, hway⟩ := List.isChain_cons_cons.1 hway
    rw [List.getLast_cons_cons, List.length_cons, Nat.add_comm way.length 1, ← Nat.add_assoc]
    exact ih (h.on hab) hway

/-- A closed walk may begin at any of its nodes. -/
theorem IsCycle.exists_walk {walk : List Nat} (h : graph.IsCycle walk) {start : Nat} (hs : start ∈ walk) :
    ∃ n, walk.length = n + 2 ∧ graph.Walk start (n + 1) start := by
  obtain ⟨before, after, rfl⟩ := List.append_of_mem hs
  obtain ⟨hchain, hcloses, hmoves⟩ := h
  have hon : graph.Walk start (0 + after.length) ((start :: after).getLast (List.cons_ne_nil _ _)) :=
    Walk.here.append (List.isChain_append.1 hchain).2.1
  have hlast : (before ++ start :: after).getLast? = some ((start :: after).getLast (List.cons_ne_nil _ _)) := by
    rw [List.getLast?_append_cons, List.getLast?_eq_some_getLast]
  cases before with
  | nil =>
    have hround : (start :: after).getLast (List.cons_ne_nil _ _) = start :=
      Option.some.inj (hlast.symm.trans (hcloses.symm.trans rfl))
    obtain ⟨n, hn⟩ : ∃ n, after.length = n + 1 := Nat.exists_eq_add_one.2 (Nat.lt_of_succ_lt_succ hmoves)
    refine ⟨n, congrArg Nat.succ hn, ?_⟩
    rwa [hround, Nat.zero_add, hn] at hon
  | cons first before =>
    have hround : (start :: after).getLast (List.cons_ne_nil _ _) = first :=
      Option.some.inj (hlast.symm.trans (hcloses.symm.trans rfl))
    -- on from the start to the end, which is the first node, and from there back to the start
    have hback : (first :: (before ++ [start])).IsChain graph.Leads := by
      rw [List.append_cons] at hchain
      exact (List.isChain_append.1 hchain).1
    have hwhole := (hround ▸ hon).append hback
    refine ⟨before.length + after.length, by simp; omega, ?_⟩
    have hend : (first :: (before ++ [start])).getLast (List.cons_ne_nil _ _) = start := by simp
    rw [hend] at hwhole
    convert hwhole using 1
    simp
    omega

/-! ## What is found -/

theorem Seeking.step {start a : Nat} {seen way : List Nat} {queue : List (Nat × List Nat)}
    (h : graph.Seeking start seen ((a, way) :: queue)) (hno : ¬ graph.Leads a start) :
    graph.Seeking start (seen ++ graph.fresh seen a) (queue ++ (graph.fresh seen a).map (·, a :: way)) where
  searching := h.searching.step hno
  layered := h.layered.step h.searching.toSearched h.searching.begun
  simple := h.simple.step
  cameFrom := h.cameFrom.step seen

theorem seeking_start {start : Nat} (h : start ∈ graph.nodes) : graph.Seeking start [start] [(start, [])] where
  searching := searching_start h
  layered := layered_start graph start
  simple entry he := by
    obtain rfl := List.mem_singleton.1 he
    exact ⟨List.nodup_singleton start, fun _ hb => hb⟩
  cameFrom := cameFrom_start graph start

/-- **The first way back is a shortest one**, and goes through no node twice. -/
theorem shortest_of_cycleThrough? {start : Nat} {path : List Nat} (hs : start ∈ graph.nodes)
    (h : graph.cycleThrough? start = some path) : graph.ShortestCycle start path := by
  obtain ⟨seen, a, way, queue, hp, hback, rfl⟩ :=
    searchBack_induction (p := graph.Seeking start) (fun _ _ _ _ hp hno => hp.step hno) (seeking_start hs) h
  obtain ⟨-, hlast⟩ := hp.cameFrom _ List.mem_cons_self
  obtain ⟨hnodup, -⟩ := hp.simple _ List.mem_cons_self
  refine ⟨(isCycle_of_cycleThrough? h).1, ?_, fun walk hwalk hmem => ?_⟩
  · have hreverse : ∃ interior, (a :: way).reverse = start :: interior := by
      rw [← List.head?_reverse] at hlast
      exact ⟨_, List.eq_cons_of_mem_head? hlast⟩
    obtain ⟨interior, hinterior⟩ := hreverse
    refine ⟨interior, by rw [List.reverse_cons, hinterior], ?_⟩
    rw [← hinterior]
    exact List.nodup_reverse.2 hnodup
  · obtain ⟨n, hlength, hw⟩ := hwalk.exists_walk hmem
    cases hw with
    | on hw hlead =>
      have hle := hp.layered.head_le_of_step hw fun ⟨hseen, hdone⟩ => hp.searching.apart _ hseen hdone hlead
      rw [hlength, List.length_reverse, List.length_cons, List.length_cons]
      omega

end VariantGraph.Digraph
