import VariantGraph.Proofs.Digraph.Levels
import Mathlib.Data.Fintype.Card
import Mathlib.Data.List.Chain
import Mathlib.Data.List.NodupEquivFin
import Mathlib.Data.Set.Finite.Basic
import Mathlib.Logic.Relation
import Mathlib.Order.WellFounded
/-!
# Cycles of a directed graph are found

A search that marks nodes when they are put into its queue needs no more steps than there are nodes,
so both searches run until what they have seen is closed under going on. Hence `reachable` is exactly
what one step or more leads to (`mem_reachable_iff`), and what `cycles` finds is a cycle for each
component that has any (`cycles_exact`); a graph in which none is found is all levels
(`exists_levels?`).
-/
namespace VariantGraph.Digraph

variable {graph : Digraph}

/-- A way of one step or more. -/
def Path (graph : Digraph) : Nat → Nat → Prop := Relation.TransGen graph.Leads

theorem Path.mem_nodes {a b : Nat} (h : graph.Path a b) : b ∈ graph.nodes := by
  induction h with
  | single h => exact h.mem_nodes
  | tail _ h _ => exact h.mem_nodes

/-! ## Successors -/

theorem mem_insertOnce {a b : Nat} : ∀ {l : List Nat}, b ∈ insertOnce a l ↔ b = a ∨ b ∈ l
  | [] => by simp [insertOnce]
  | c :: l => by
    unfold insertOnce
    split
    · simp
    · split
      · next he => subst he; simp
      · rw [List.mem_cons, mem_insertOnce, List.mem_cons]
        exact or_left_comm

theorem sorted_insertOnce {a : Nat} : ∀ {l : List Nat}, l.Pairwise (· < ·) → (insertOnce a l).Pairwise (· < ·)
  | [], _ => List.pairwise_singleton _ _
  | c :: l, h => by
    obtain ⟨hc, hl⟩ := List.pairwise_cons.1 h
    unfold insertOnce
    split
    · next hlt =>
      refine List.pairwise_cons.2 ⟨fun x hx => ?_, h⟩
      rcases List.mem_cons.1 hx with rfl | hx
      · exact hlt
      · exact Nat.lt_trans hlt (hc x hx)
    · split
      · exact h
      · refine List.pairwise_cons.2 ⟨fun x hx => ?_, sorted_insertOnce hl⟩
        rcases mem_insertOnce.1 hx with rfl | hx
        · omega
        · exact hc x hx

theorem mem_successors {a b : Nat} : b ∈ graph.successors a ↔ graph.Leads a b := by
  unfold successors Leads
  induction graph.next a with
  | nil => rfl
  | cons c l ih => rw [List.foldr_cons, mem_insertOnce, ih, List.mem_cons]

theorem increasing_successors (graph : Digraph) (a : Nat) : (graph.successors a).Pairwise (· < ·) := by
  unfold successors
  induction graph.next a with
  | nil => exact List.Pairwise.nil
  | cons c l ih => exact sorted_insertOnce ih

theorem nodup_successors (graph : Digraph) (a : Nat) : (graph.successors a).Nodup :=
  (increasing_successors graph a).imp fun h => Nat.ne_of_lt h

/-! ## What a search keeps -/

/-- A search has seen each node once, and whatever a node leads to that is not waiting any more. -/
structure Searched (graph : Digraph) (seen waiting : List Nat) : Prop where
  nodup : seen.Nodup
  nodes : ∀ a ∈ seen, a ∈ graph.nodes
  waits : ∀ a ∈ waiting, a ∈ seen
  closed : ∀ a ∈ seen, a ∉ waiting → ∀ b, graph.Leads a b → b ∈ seen

/-- The nodes that a search comes to see when it goes on from one. -/
def fresh (graph : Digraph) (seen : List Nat) (a : Nat) : List Nat :=
  (graph.successors a).filter (· ∉ seen)

theorem mem_fresh {seen : List Nat} {a b : Nat} : b ∈ graph.fresh seen a ↔ graph.Leads a b ∧ b ∉ seen := by
  simp [fresh, mem_successors]

theorem Searched.length_le {seen waiting : List Nat} (h : graph.Searched seen waiting) :
    seen.length ≤ graph.nodes.length :=
  (List.subperm_of_subset h.nodup h.nodes).length_le

theorem Searched.step {seen rest : List Nat} {a : Nat} (h : graph.Searched seen (a :: rest)) :
    graph.Searched (seen ++ graph.fresh seen a) (rest ++ graph.fresh seen a) := by
  refine ⟨?_, ?_, ?_, ?_⟩
  · rw [List.nodup_append]
    refine ⟨h.nodup, (nodup_successors graph a).filter _, ?_⟩
    rintro b hb c hc rfl
    exact (mem_fresh.1 hc).2 hb
  · intro b hb
    rcases List.mem_append.1 hb with hb | hb
    · exact h.nodes b hb
    · exact (mem_fresh.1 hb).1.mem_nodes
  · intro b hb
    rcases List.mem_append.1 hb with hb | hb
    · exact List.mem_append_left _ (h.waits b (List.mem_cons_of_mem a hb))
    · exact List.mem_append_right _ hb
  · intro b hb hnot c hbc
    rcases List.mem_append.1 hb with hb | hb
    · by_cases he : b = a
      · subst he
        by_cases hc : c ∈ seen
        · exact List.mem_append_left _ hc
        · exact List.mem_append_right _ (mem_fresh.2 ⟨hbc, hc⟩)
      · refine List.mem_append_left _ (h.closed b hb ?_ c hbc)
        intro hmem
        rcases List.mem_cons.1 hmem with rfl | hmem
        · exact he rfl
        · exact hnot (List.mem_append_left _ hmem)
    · exact absurd (List.mem_append_right rest hb) hnot

/-- Every step of a search uses up one unit of fuel that it can spare. -/
theorem fuel_step {fuel rest fresh nodes seen : Nat} (h : rest + 1 + nodes ≤ fuel + 1 + seen) :
    rest + fresh + nodes ≤ fuel + (seen + fresh) := by omega

/-! ## Reachability -/

theorem explore_sound {p : Nat → Prop} (hp : ∀ a b, p a → graph.Leads a b → p b) :
    ∀ (fuel : Nat) (seen waiting : List Nat), (∀ a ∈ seen, p a) → (∀ a ∈ waiting, a ∈ seen) →
      ∀ a ∈ graph.explore fuel seen waiting, p a
  | 0, seen, _, hs, _ => by unfold explore; exact hs
  | fuel + 1, seen, [], hs, _ => by unfold explore; exact hs
  | fuel + 1, seen, a :: rest, hs, hw => by
    unfold explore
    refine explore_sound hp fuel _ _ ?_ ?_
    · intro b hb
      rcases List.mem_append.1 hb with hb | hb
      · exact hs b hb
      · exact hp a b (hs a (hw a List.mem_cons_self)) (mem_fresh.1 hb).1
    · intro b hb
      rcases List.mem_append.1 hb with hb | hb
      · exact List.mem_append_left _ (hw b (List.mem_cons_of_mem a hb))
      · exact List.mem_append_right _ hb

theorem explore_closed : ∀ (fuel : Nat) (seen waiting : List Nat), graph.Searched seen waiting →
    waiting.length + graph.nodes.length ≤ fuel + seen.length →
    (∀ a ∈ seen, a ∈ graph.explore fuel seen waiting) ∧
      ∀ a ∈ graph.explore fuel seen waiting, ∀ b, graph.Leads a b → b ∈ graph.explore fuel seen waiting
  | 0, seen, waiting, h, hf => by
    have hl := h.length_le
    obtain rfl : waiting = [] := List.length_eq_zero_iff.1 (by omega)
    unfold explore
    exact ⟨fun _ => id, fun a ha => h.closed a ha List.not_mem_nil⟩
  | fuel + 1, seen, [], h, _ => by
    unfold explore
    exact ⟨fun _ => id, fun a ha => h.closed a ha List.not_mem_nil⟩
  | fuel + 1, seen, a :: rest, h, hf => by
    have ih := explore_closed fuel _ _ h.step (by
      rw [List.length_append, List.length_append]; exact fuel_step hf)
    unfold explore
    exact ⟨fun b hb => ih.1 b (List.mem_append_left _ hb), ih.2⟩

/-- **What is reachable** is what a way of one step or more leads to. -/
theorem mem_reachable_iff {a b : Nat} : b ∈ graph.reachable a ↔ graph.Path a b := by
  constructor
  · intro h
    refine explore_sound (fun b c hb hbc => hb.tail hbc) _ _ _ ?_ (fun _ => id) b h
    intro c hc
    exact .single (mem_successors.1 hc)
  · intro h
    have hs : graph.Searched (graph.successors a) (graph.successors a) :=
      ⟨nodup_successors graph a, fun b hb => (mem_successors.1 hb).mem_nodes, fun _ => id,
        fun b hb hnot => absurd hb hnot⟩
    have hc := explore_closed graph.nodes.length _ _ hs (by omega)
    induction h with
    | single h => exact hc.1 _ (mem_successors.2 h)
    | tail _ hbc ih => exact hc.2 _ ih _ hbc

/-! ## Searching the way back -/

/-- The nodes in line after some were put there with one way. -/
theorem map_fst_enqueue (queue : List (Nat × List Nat)) (nodes way : List Nat) :
    (queue ++ nodes.map (·, way)).map (·.1) = queue.map (·.1) ++ nodes := by
  rw [List.map_append, List.map_map]
  exact congrArg _ (List.map_id _)

section SearchBack
variable {start fuel a : Nat} {seen way : List Nat} {queue : List (Nat × List Nat)}

theorem searchBack_of_leads (h : graph.Leads a start) :
    graph.searchBack start (fuel + 1) seen ((a, way) :: queue) = some (start :: a :: way).reverse := by
  rw [searchBack]
  exact if_pos (mem_successors.2 h)

theorem searchBack_of_not_leads (h : ¬ graph.Leads a start) :
    graph.searchBack start (fuel + 1) seen ((a, way) :: queue) = graph.searchBack start fuel
      (seen ++ graph.fresh seen a) (queue ++ (graph.fresh seen a).map (·, a :: way)) := by
  rw [searchBack]
  exact if_neg fun hmem => h (mem_successors.1 hmem)

/-- What every step of a search keeps holds when it is back at the start. -/
theorem searchBack_induction {p : List Nat → List (Nat × List Nat) → Prop}
    (hstep : ∀ seen a way queue, p seen ((a, way) :: queue) → ¬ graph.Leads a start →
      p (seen ++ graph.fresh seen a) (queue ++ (graph.fresh seen a).map (·, a :: way)))
    (hp : p seen queue) {path : List Nat} (h : graph.searchBack start fuel seen queue = some path) :
    ∃ seen a way queue, p seen ((a, way) :: queue) ∧ graph.Leads a start ∧ path = (start :: a :: way).reverse := by
  induction fuel generalizing seen queue with
  | zero => simp [searchBack] at h
  | succ fuel ih =>
    match queue, hp, h with
    | [], _, h => simp [searchBack] at h
    | (a, way) :: queue, hp, h =>
      by_cases hback : graph.Leads a start
      · rw [searchBack_of_leads hback] at h
        exact ⟨seen, a, way, queue, hp, hback, (Option.some.inj h).symm⟩
      · rw [searchBack_of_not_leads hback] at h
        exact ih (hstep seen a way queue hp hback) h

end SearchBack

/-- A search for the way back to the start: nothing that was dealt with leads there. -/
structure Searching (graph : Digraph) (start : Nat) (seen : List Nat) (queue : List (Nat × List Nat)) : Prop
    extends Searched graph seen (queue.map (·.1)) where
  begun : start ∈ seen
  apart : ∀ a ∈ seen, a ∉ queue.map (·.1) → ¬ graph.Leads a start

theorem searching_start {start : Nat} (h : start ∈ graph.nodes) :
    graph.Searching start [start] [(start, [])] where
  nodup := List.nodup_singleton start
  nodes _ ha := List.mem_singleton.1 ha ▸ h
  waits _ := id
  closed _ ha hnot := absurd ha hnot
  begun := List.mem_singleton_self start
  apart _ ha hnot := absurd ha hnot

theorem Searching.step {start a : Nat} {seen way : List Nat} {queue : List (Nat × List Nat)}
    (h : graph.Searching start seen ((a, way) :: queue)) (hno : ¬ graph.Leads a start) :
    graph.Searching start (seen ++ graph.fresh seen a) (queue ++ (graph.fresh seen a).map (·, a :: way)) := by
  refine ⟨?_, List.mem_append_left _ h.begun, fun b hb hnot hlead => ?_⟩
  · rw [map_fst_enqueue]
    exact Searched.step h.toSearched
  · rw [map_fst_enqueue] at hnot
    rcases List.mem_append.1 hb with hb | hb
    · refine h.apart b hb (fun hmem => ?_) hlead
      rcases List.mem_cons.1 hmem with rfl | hmem
      · exact hno hlead
      · exact hnot (List.mem_append_left _ hmem)
    · exact hnot (List.mem_append_right _ hb)

theorem searchBack_ne_none {start : Nat} : ∀ (fuel : Nat) (seen : List Nat) (queue : List (Nat × List Nat)),
    graph.Searching start seen queue → queue.length + graph.nodes.length ≤ fuel + seen.length →
    graph.Path start start → graph.searchBack start fuel seen queue ≠ none
  | fuel, seen, [], h, _, hpath => by
    -- nothing is waiting: what was seen is closed and none of it leads back
    have hall : ∀ b, graph.Path start b → b ∈ seen ∧ b ≠ start := fun b hb => by
      induction hb with
      | single hb =>
        exact ⟨h.closed _ h.begun List.not_mem_nil _ hb, by
          rintro rfl; exact h.apart _ h.begun List.not_mem_nil hb⟩
      | tail _ hbc ih =>
        exact ⟨h.closed _ ih.1 List.not_mem_nil _ hbc, by
          rintro rfl; exact h.apart _ ih.1 List.not_mem_nil hbc⟩
    exact absurd rfl (hall start hpath).2
  | 0, seen, (a, way) :: queue, h, hf, _ => by
    have hl := h.length_le
    rw [List.length_cons] at hf
    omega
  | fuel + 1, seen, (a, way) :: queue, h, hf, hpath => by
    by_cases hback : graph.Leads a start
    · rw [searchBack_of_leads hback]
      exact Option.some_ne_none _
    · rw [searchBack_of_not_leads hback]
      refine searchBack_ne_none fuel _ _ (h.step hback) ?_ hpath
      rw [List.length_append, List.length_append, List.length_map]
      exact fuel_step hf

theorem cycleThrough?_ne_none {start : Nat} (h : graph.Path start start) : graph.cycleThrough? start ≠ none :=
  searchBack_ne_none _ _ _ (searching_start h.mem_nodes) (by simp; omega) h

/-! ## What is found is a cycle -/

/-- A way from a node back to itself, given by the nodes on it. -/
structure IsCycle (graph : Digraph) (path : List Nat) : Prop where
  chain : path.IsChain graph.Leads
  closes : path.head? = path.getLast?
  moves : 1 < path.length

/-- Two nodes with a way there and back. -/
def Mutual (graph : Digraph) (a b : Nat) : Prop := graph.Path a b ∧ graph.Path b a

theorem Mutual.symm {a b : Nat} (h : graph.Mutual a b) : graph.Mutual b a := ⟨h.2, h.1⟩

theorem Mutual.trans {a b c : Nat} (h : graph.Mutual a b) (h' : graph.Mutual b c) : graph.Mutual a c :=
  ⟨Relation.TransGen.trans h.1 h'.1, Relation.TransGen.trans h'.2 h.2⟩

/-- The nodes of a cycle are all on it with the first one. -/
theorem IsCycle.mutual {path : List Nat} (h : graph.IsCycle path) {start : Nat} (hs : path.head? = some start) :
    ∀ a ∈ path, graph.Mutual start a := by
  obtain ⟨hchain, hcloses, hmoves⟩ := h
  match path, hs with
  | [_], _ => simp at hmoves
  | first :: second :: rest, hs =>
    injection hs with hs
    subst hs
    have hstep : graph.Leads first second := (List.isChain_cons_cons.1 hchain).1
    have hlast : (first :: second :: rest).getLast (List.cons_ne_nil _ _) = first :=
      Option.some_inj.1 ((List.getLast?_eq_some_getLast _).symm.trans hcloses.symm)
    -- every node leads back to the last one, which is the first
    have hback : ∀ a ∈ first :: second :: rest, Relation.ReflTransGen graph.Leads a first := by
      refine List.IsChain.backwards_induction _ _ hchain (fun _ _ hab hb => hb.head hab) fun _ => ?_
      rw [hlast]
    have hround : graph.Path first first :=
      Relation.TransGen.head' hstep (hback second (List.mem_cons_of_mem _ List.mem_cons_self))
    have hforth : ∀ a ∈ first :: second :: rest, graph.Path first a :=
      List.IsChain.induction _ _ hchain (fun _ _ hab ha => Relation.TransGen.tail ha hab) fun _ => hround
    exact fun a ha => ⟨hforth a ha, Relation.TransGen.trans_right (hback a ha) hround⟩

theorem IsCycle.exists_path {path : List Nat} (h : graph.IsCycle path) : ∃ a, graph.Path a a := by
  cases path with
  | nil => exact absurd h.moves (Nat.not_lt_zero _)
  | cons start rest => exact ⟨start, (h.mutual rfl start List.mem_cons_self).1⟩

/-- The nodes in line came from the start by their ways. -/
def CameFrom (graph : Digraph) (start : Nat) (queue : List (Nat × List Nat)) : Prop :=
  ∀ entry ∈ queue, (entry.1 :: entry.2).IsChain (fun a b => graph.Leads b a) ∧
    (entry.1 :: entry.2).getLast? = some start

theorem CameFrom.step {start a : Nat} {way : List Nat} {queue : List (Nat × List Nat)}
    (h : graph.CameFrom start ((a, way) :: queue)) (seen : List Nat) :
    graph.CameFrom start (queue ++ (graph.fresh seen a).map (·, a :: way)) := by
  obtain ⟨hchain, hlast⟩ := h _ List.mem_cons_self
  intro entry he
  rcases List.mem_append.1 he with he | he
  · exact h entry (List.mem_cons_of_mem _ he)
  · obtain ⟨b, hb, rfl⟩ := List.mem_map.1 he
    refine ⟨List.isChain_cons_cons.2 ⟨(mem_fresh.1 hb).1, hchain⟩, ?_⟩
    rw [List.getLast?_cons_cons]
    exact hlast

theorem cameFrom_start (graph : Digraph) (start : Nat) : graph.CameFrom start [(start, [])] := by
  intro entry he
  obtain rfl := List.mem_singleton.1 he
  exact ⟨List.IsChain.singleton _, rfl⟩

/-- A search that succeeds gives a cycle. -/
theorem isCycle_of_cycleThrough? {start : Nat} {path : List Nat} (h : graph.cycleThrough? start = some path) :
    graph.IsCycle path ∧ path.head? = some start := by
  obtain ⟨_, a, way, _, hcame, hback, rfl⟩ := searchBack_induction (p := fun _ => graph.CameFrom start)
    (fun seen _ _ _ hp _ => hp.step seen) (cameFrom_start graph start) h
  obtain ⟨hchain, hlast⟩ := hcame _ List.mem_cons_self
  have hfirst : (start :: a :: way).reverse.head? = some start := by
    rw [List.head?_reverse, List.getLast?_cons_cons]
    exact hlast
  refine ⟨⟨?_, ?_, by simp⟩, hfirst⟩
  · rw [List.isChain_reverse]
    exact List.isChain_cons_cons.2 ⟨hback, hchain⟩
  · rw [hfirst, List.getLast?_reverse, List.head?_cons]

/-! ## Every cycle shows -/

/-- A node on a cycle is in the core: it leads to another node on a cycle. -/
theorem mem_core_of_path {a : Nat} (h : graph.Path a a) : a ∈ graph.core := by
  refine subset_core (p := fun b => graph.Path b b) (fun b hb => ?_) (fun b hb => ?_) a h
  · obtain ⟨c, hbc, hcb⟩ := Relation.TransGen.head'_iff.1 hb
    exact ⟨c, Relation.TransGen.tail' hcb hbc, hbc⟩
  · exact Path.mem_nodes hb

/-- A node leads its component if it is on a cycle and no node that is on one with it is lower. -/
theorem leadsComponent_iff {a : Nat} :
    graph.leadsComponent a = true ↔ graph.Path a a ∧ ∀ b, graph.Mutual a b → a ≤ b := by
  simp only [leadsComponent, Bool.and_eq_true, decide_eq_true_eq, List.all_eq_true, Bool.or_eq_true,
    mem_reachable_iff]
  refine and_congr_right' (forall_congr' fun b => ?_)
  rw [Mutual, and_imp]
  exact imp_congr_right fun _ => or_iff_not_imp_right.trans (imp_congr_left not_not)

/-- The lowest node of a component with a cycle leads it. -/
theorem exists_leadsComponent {a : Nat} (h : graph.Path a a) :
    ∃ b, graph.Mutual a b ∧ graph.leadsComponent b = true := by
  obtain ⟨b, ⟨hab, hba⟩, hmin⟩ := WellFounded.has_min Nat.lt_wfRel.wf
    {b | graph.Path a b ∧ graph.Path b a} ⟨a, h, h⟩
  refine ⟨b, ⟨hab, hba⟩, leadsComponent_iff.2 ⟨hba.trans hab, fun c hbc => ?_⟩⟩
  exact Nat.le_of_not_lt (hmin c ⟨hab.trans hbc.1, hbc.2.trans hba⟩)

/-- Whoever is on a cycle is on one with all nodes of a cycle that is found. -/
theorem exists_mem_cycles {a : Nat} (h : graph.Path a a) :
    ∃ path ∈ graph.cycles, ∀ b ∈ path, graph.Mutual a b := by
  obtain ⟨start, hmutual, hlead⟩ := exists_leadsComponent h
  have hround : graph.Path start start := (hmutual.symm.trans hmutual).1
  obtain ⟨path, hfound⟩ := Option.ne_none_iff_exists'.1 (cycleThrough?_ne_none hround)
  have hmem : start ∈ graph.core.filter graph.leadsComponent :=
    List.mem_filter.2 ⟨mem_core_of_path hround, hlead⟩
  obtain ⟨hcycle, hhead⟩ := isCycle_of_cycleThrough? hfound
  exact ⟨path, List.mem_filterMap.2 ⟨start, hmem, hfound⟩, fun b hb => hmutual.trans (hcycle.mutual hhead b hb)⟩

theorem nodup_core (h : graph.nodes.Nodup) : graph.core.Nodup :=
  (List.nodup_append.1 ((peel_perm graph _ _).nodup_iff.2 h)).2.1

/-- **What is found are cycles, one for each component that has any.** Whoever is on a cycle is on one
with all nodes of a cycle that was found, and with no node of another one. -/
theorem cycles_exact (graph : Digraph) (hnodes : graph.nodes.Nodup) :
    (∀ path ∈ graph.cycles, graph.IsCycle path) ∧
    (∀ a, graph.Path a a → ∃ path ∈ graph.cycles, ∀ b ∈ path, graph.Mutual a b) ∧
    graph.cycles.Pairwise fun path path' => ∀ a ∈ path, ∀ b ∈ path', ¬ graph.Mutual a b := by
  refine ⟨fun path hpath => ?_, fun a ha => exists_mem_cycles ha, ?_⟩
  · obtain ⟨start, -, hfound⟩ := List.mem_filterMap.1 hpath
    exact (isCycle_of_cycleThrough? hfound).1
  · refine List.pairwise_filterMap.2 (((nodup_core hnodes).filter _).pairwise_of_forall_ne ?_)
    intro start hstart other hother hne path hpath path' hpath' a ha b hb hab
    obtain ⟨hcycle, hhead⟩ := isCycle_of_cycleThrough? hpath
    obtain ⟨hcycle', hhead'⟩ := isCycle_of_cycleThrough? hpath'
    have hmutual : graph.Mutual start other :=
      ((hcycle.mutual hhead a ha).trans hab).trans (hcycle'.mutual hhead' b hb).symm
    exact hne (Nat.le_antisymm ((leadsComponent_iff.1 (List.mem_filter.1 hstart).2).2 other hmutual)
      ((leadsComponent_iff.1 (List.mem_filter.1 hother).2).2 start hmutual.symm))

theorem mem_nodes_of_mem_cycles {path : List Nat} (h : path ∈ graph.cycles) : ∀ a ∈ path, a ∈ graph.nodes := by
  obtain ⟨start, -, hfound⟩ := List.mem_filterMap.1 h
  obtain ⟨hcycle, hhead⟩ := isCycle_of_cycleThrough? hfound
  exact fun a ha => (hcycle.mutual hhead a ha).1.mem_nodes

/-- **No cycle is found exactly if there is none.** -/
theorem cycles_eq_nil_iff : graph.cycles = [] ↔ ∀ a, ¬ graph.Path a a := by
  constructor
  · intro h a ha
    obtain ⟨path, hpath, -⟩ := exists_mem_cycles ha
    rw [h] at hpath
    cases hpath
  · intro h
    refine List.eq_nil_iff_forall_not_mem.2 fun path hpath => ?_
    obtain ⟨start, -, hfound⟩ := List.mem_filterMap.1 hpath
    obtain ⟨a, ha⟩ := (isCycle_of_cycleThrough? hfound).1.exists_path
    exact h a ha

/-! ## Levels of a graph without cycles -/

/-- What is left of the levels holds a cycle: each node of it leads to another one, and there are
finitely many. -/
theorem core_eq_nil (h : ∀ a, ¬ graph.Path a a) : graph.core = [] := by
  by_contra hne
  obtain ⟨a, ha⟩ := List.exists_mem_of_ne_nil _ hne
  -- a node of the core from which no way leads on within it
  let back : {b // b ∈ graph.core} → {b // b ∈ graph.core} → Prop := fun b c => graph.Path c b
  have htrans : IsTrans _ back := ⟨fun _ _ _ hb hc => Relation.TransGen.trans hc hb⟩
  have hirrefl : Std.Irrefl back := ⟨fun b => h b⟩
  have hfinite : Finite {b // b ∈ graph.core} := (Multiset.finite_toSet (graph.core : Multiset Nat)).to_subtype
  have hwf := Finite.wellFounded_of_trans_of_irrefl back
  obtain ⟨m, -, hmin⟩ := hwf.has_min Set.univ ⟨⟨a, ha⟩, trivial⟩
  have hready : m.1 ∈ graph.ready graph.core :=
    mem_ready.2 ⟨m.2, fun b hb hcore => hmin ⟨b, hcore⟩ trivial (.single hb)⟩
  rw [stuck_core] at hready
  cases hready

/-- **A graph without cycles is all levels.** -/
theorem exists_levels? (h : ∀ a, ¬ graph.Path a a) : ∃ levels, graph.levels? = some levels := by
  refine ⟨graph.peeled.1, levels?_eq_some_iff.2 (Prod.ext rfl ?_)⟩
  exact core_eq_nil h

end VariantGraph.Digraph
