import VariantGraph.Graph.Digraph
import Mathlib.Data.List.Perm.Basic
/-!
# Levels of a directed graph

Taking levels off a graph loses no node and doubles none (`perm_of_levels?`), and stops only where
every node that is left leads to another one (`stuck_core`); whatever is closed under going on is left
in the end (`subset_core`), the cycles first of all.
-/
namespace VariantGraph.Digraph

variable {graph : Digraph}

/-- One node leads to another. -/
def Leads (graph : Digraph) (a b : Nat) : Prop := b ∈ graph.next a

theorem Leads.mem_nodes {a b : Nat} (h : graph.Leads a b) : b ∈ graph.nodes := by
  unfold Leads next at h
  rw [Array.getD_eq_getD_getElem?] at h
  cases hr : graph.rows[a]? with
  | none => rw [hr] at h; cases h
  | some row => rw [hr] at h; exact graph.closed row (Array.mem_of_getElem? hr) b h

theorem mem_ready {remaining : List Nat} {a : Nat} :
    a ∈ graph.ready remaining ↔ a ∈ remaining ∧ ∀ b, graph.Leads a b → b ∉ remaining := by
  simp [ready, Leads]

/-- The nodes that a level leaves. -/
theorem filter_not_mem_ready (graph : Digraph) (remaining : List Nat) :
    remaining.filter (· ∉ graph.ready remaining) =
      remaining.filter fun a => !(graph.next a).all (· ∉ remaining) := by
  apply List.filter_congr
  intro a ha
  rw [Bool.eq_iff_iff]
  simp [ready, ha]

theorem peel_of_stuck {fuel : Nat} {remaining : List Nat} (h : graph.ready remaining = []) :
    graph.peel fuel remaining = ([], remaining) := by
  cases fuel with
  | zero => rfl
  | succ fuel => rw [peel, h]

theorem peel_of_ready {fuel : Nat} {remaining : List Nat} (h : graph.ready remaining ≠ []) :
    graph.peel (fuel + 1) remaining =
      (graph.ready remaining :: (graph.peel fuel (remaining.filter (· ∉ graph.ready remaining))).1,
        (graph.peel fuel (remaining.filter (· ∉ graph.ready remaining))).2) := by
  rw [peel]
  split
  · next hnone => exact absurd hnone h
  · rfl

theorem peel_perm (graph : Digraph) : ∀ (fuel : Nat) (remaining : List Nat),
    ((graph.peel fuel remaining).1.flatten ++ (graph.peel fuel remaining).2).Perm remaining
  | 0, remaining => List.Perm.refl _
  | fuel + 1, remaining => by
    unfold peel
    split
    · exact List.Perm.refl _
    · next level hne =>
      have ih := peel_perm graph fuel (remaining.filter (· ∉ graph.ready remaining))
      dsimp only
      rw [List.flatten_cons, List.append_assoc]
      refine (ih.append_left _).trans ?_
      rw [filter_not_mem_ready, ready]
      exact List.filter_append_perm _ _

/-- With a unit of fuel per node, levels are taken off until none is left that can be. -/
theorem peel_stuck (graph : Digraph) : ∀ (fuel : Nat) (remaining : List Nat), remaining.length ≤ fuel →
    graph.ready (graph.peel fuel remaining).2 = []
  | 0, remaining, h => by
    obtain rfl : remaining = [] := List.length_eq_zero_iff.1 (Nat.le_zero.1 h)
    rfl
  | fuel + 1, remaining, h => by
    unfold peel
    split
    · next he => exact he
    · next hne =>
      apply peel_stuck
      obtain ⟨a, ha⟩ := List.exists_mem_of_ne_nil _ hne
      have hlt : (remaining.filter (· ∉ graph.ready remaining)).length < remaining.length := by
        apply List.length_filter_lt_length_iff_exists.2
        exact ⟨a, (mem_ready.1 ha).1, by simpa using ha⟩
      omega

theorem stuck_core (graph : Digraph) : graph.ready graph.core = [] := peel_stuck graph _ _ (Nat.le_refl _)

theorem subset_peel {p : Nat → Prop} (hp : ∀ a, p a → ∃ b, p b ∧ graph.Leads a b) :
    ∀ (fuel : Nat) (remaining : List Nat), (∀ a, p a → a ∈ remaining) →
      ∀ a, p a → a ∈ (graph.peel fuel remaining).2
  | 0, remaining, h => h
  | fuel + 1, remaining, h => by
    unfold peel
    split
    · exact h
    · apply subset_peel hp
      intro a ha
      obtain ⟨b, hb, hab⟩ := hp a ha
      have hnot : a ∉ graph.ready remaining := fun hr => (mem_ready.1 hr).2 b hab (h b hb)
      simpa [hnot] using h a ha

/-- Nodes that lead on among themselves are in the core. -/
theorem subset_core {p : Nat → Prop} (hp : ∀ a, p a → ∃ b, p b ∧ graph.Leads a b)
    (hn : ∀ a, p a → a ∈ graph.nodes) : ∀ a, p a → a ∈ graph.core :=
  subset_peel hp _ _ hn

theorem levels?_eq_some_iff {levels : List (List Nat)} :
    graph.levels? = some levels ↔ graph.peeled = (levels, []) := by
  unfold levels?
  obtain ⟨ls, left⟩ := graph.peeled
  cases left <;> simp

/-- The levels hold every node, as often as the graph does. -/
theorem perm_of_levels? {levels : List (List Nat)} (h : graph.levels? = some levels) :
    levels.flatten.Perm graph.nodes := by
  have hp := peel_perm graph graph.nodes.length graph.nodes
  have he := levels?_eq_some_iff.1 h
  unfold peeled at he
  rw [he, List.append_nil] at hp
  exact hp

/-! ## The order of the levels -/

/-- Nodes in an order in which each comes after those it leads to, when some others have come before. -/
def InOrder (graph : Digraph) : List Nat → List Nat → Prop
  | _, [] => True
  | done, a :: rest => (∀ b, graph.Leads a b → b ∈ done) ∧ InOrder graph (a :: done) rest

theorem inOrder_append {done first second : List Nat} : graph.InOrder done (first ++ second) ↔
    graph.InOrder done first ∧ graph.InOrder (first.reverse ++ done) second := by
  induction first generalizing done with
  | nil => simp [InOrder]
  | cons a first ih =>
    simp only [List.cons_append, InOrder, ih, List.reverse_cons, List.append_assoc, List.nil_append, and_assoc]

/-- Nodes that lead to nothing but what has come before are in order. -/
theorem inOrder_of_leads {done level : List Nat} (h : ∀ a ∈ level, ∀ b, graph.Leads a b → b ∈ done) :
    graph.InOrder done level := by
  induction level generalizing done with
  | nil => trivial
  | cons a level ih =>
    refine ⟨h a List.mem_cons_self, ih fun c hc b hb => ?_⟩
    exact List.mem_cons_of_mem _ (h c (List.mem_cons_of_mem _ hc) b hb)

theorem inOrder_peel : ∀ (fuel : Nat) (done remaining : List Nat), (∀ a ∈ graph.nodes, a ∈ remaining ∨ a ∈ done) →
    graph.InOrder done (graph.peel fuel remaining).1.flatten
  | 0, _, _, _ => trivial
  | fuel + 1, done, remaining, h => by
    unfold peel
    split
    · trivial
    · dsimp only
      rw [List.flatten_cons, inOrder_append]
      refine ⟨inOrder_of_leads fun a ha b hb => ?_, inOrder_peel fuel _ _ fun a ha => ?_⟩
      · exact (h b hb.mem_nodes).resolve_left ((mem_ready.1 ha).2 b hb)
      · by_cases hready : a ∈ graph.ready remaining
        · exact Or.inr (List.mem_append_left _ (List.mem_reverse.2 hready))
        · exact (h a ha).imp (fun hr => by simpa [hready] using hr) (List.mem_append_right _)

/-- **In the levels every node comes after those it leads to.** -/
theorem inOrder_of_levels? {levels : List (List Nat)} (h : graph.levels? = some levels) :
    graph.InOrder [] levels.flatten := by
  have ho : graph.InOrder [] (graph.peel graph.nodes.length graph.nodes).1.flatten :=
    inOrder_peel _ _ _ fun a ha => Or.inl ha
  have he := levels?_eq_some_iff.1 h
  unfold peeled at he
  rwa [he] at ho

/-- What a node of a level leads to was done before, or is in an earlier level. -/
theorem leads_peel {fuel : Nat} {done remaining : List Nat} (h : ∀ a ∈ graph.nodes, a ∈ remaining ∨ a ∈ done)
    {k : Nat} {level : List Nat} (hk : (graph.peel fuel remaining).1[k]? = some level) {a b : Nat} (ha : a ∈ level)
    (hab : graph.Leads a b) : b ∈ done ∨ b ∈ ((graph.peel fuel remaining).1.take k).flatten := by
  induction fuel generalizing done remaining k with
  | zero => cases hk
  | succ fuel ih =>
    unfold peel at hk ⊢
    split at hk
    · cases hk
    · dsimp only at hk ⊢
      cases k with
      | zero =>
        obtain rfl := Option.some.inj hk
        exact Or.inl ((h b hab.mem_nodes).resolve_left ((mem_ready.1 ha).2 b hab))
      | succ k =>
        have hnext : ∀ c ∈ graph.nodes,
            c ∈ remaining.filter (· ∉ graph.ready remaining) ∨ c ∈ graph.ready remaining ++ done := by
          intro c hc
          by_cases hready : c ∈ graph.ready remaining
          · exact Or.inr (List.mem_append_left _ hready)
          · exact (h c hc).imp (fun hr => by simpa [hready] using hr) (List.mem_append_right _)
        rw [List.take_succ_cons, List.flatten_cons, List.mem_append]
        rcases ih hnext (by simpa using hk) with hb | hb
        · exact (List.mem_append.1 hb).symm.imp_right Or.inl
        · exact Or.inr (Or.inr hb)

theorem mem_flatten_take {levels : List (List Nat)} {k b : Nat} : b ∈ (levels.take k).flatten ↔
    ∃ j < k, ∃ level, levels[j]? = some level ∧ b ∈ level := by
  simp only [List.mem_flatten, List.mem_take_iff_getElem, List.getElem?_eq_some_iff]
  constructor
  · rintro ⟨level, ⟨j, hj, rfl⟩, hb⟩
    exact ⟨j, by omega, _, ⟨by omega, rfl⟩, hb⟩
  · rintro ⟨j, hj, level, ⟨hlt, rfl⟩, hb⟩
    exact ⟨_, ⟨j, by omega, rfl⟩, hb⟩

theorem mem_flatten_drop {levels : List (List Nat)} {k b : Nat} : b ∈ (levels.drop k).flatten ↔
    ∃ j, k ≤ j ∧ ∃ level, levels[j]? = some level ∧ b ∈ level := by
  simp only [List.mem_flatten, List.mem_drop_iff_getElem, List.getElem?_eq_some_iff]
  constructor
  · rintro ⟨level, ⟨j, hj, rfl⟩, hb⟩
    exact ⟨k + j, by omega, _, ⟨by omega, rfl⟩, hb⟩
  · rintro ⟨j, hj, level, ⟨hlt, rfl⟩, hb⟩
    obtain ⟨i, rfl⟩ := Nat.exists_eq_add_of_le hj
    exact ⟨_, ⟨i, by omega, rfl⟩, hb⟩

/-- Levels have no node in common. -/
theorem level_unique {levels : List (List Nat)} (h : levels.flatten.Nodup) {i j a : Nat} {first second : List Nat}
    (hi : levels[i]? = some first) (hj : levels[j]? = some second) (ha : a ∈ first) (ha' : a ∈ second) : ¬ i < j := by
  intro hlt
  rw [← List.take_append_drop j levels, List.flatten_append, List.nodup_append] at h
  exact h.2.2 a (mem_flatten_take.2 ⟨i, hlt, first, hi, ha⟩) a
    (mem_flatten_drop.2 ⟨j, Nat.le_refl j, second, hj, ha'⟩) rfl

/-- **Every node leads to nodes of lower levels only.** -/
theorem lt_of_leads {levels : List (List Nat)} (h : graph.levels? = some levels) (hnodes : graph.nodes.Nodup)
    {i j a b : Nat} {first second : List Nat} (hi : levels[i]? = some first) (ha : a ∈ first)
    (hj : levels[j]? = some second) (hb : b ∈ second) (hab : graph.Leads a b) : j < i := by
  have hlower : b ∈ (levels.take i).flatten := by
    have he := levels?_eq_some_iff.1 h
    unfold peeled at he
    have hpeel : b ∈ ([] : List Nat) ∨ b ∈ ((graph.peel graph.nodes.length graph.nodes).1.take i).flatten :=
      leads_peel (fun a ha => Or.inl ha) (by rw [he]; exact hi) ha hab
    rw [he] at hpeel
    exact hpeel.resolve_left List.not_mem_nil
  obtain ⟨k, hk, level, hlevel, hmem⟩ := mem_flatten_take.1 hlower
  by_contra hge
  have hnodup : levels.flatten.Nodup := (perm_of_levels? h).nodup_iff.2 hnodes
  exact level_unique hnodup hlevel hj hmem hb (by omega)

/-- What passes from all nodes that a node leads to on to the node, one step later, holds of all nodes
of an order after as many steps as there are nodes. -/
theorem InOrder.induction {p : Nat → Nat → Prop} (hmono : ∀ n a, p n a → p (n + 1) a)
    (hstep : ∀ n a, (∀ b, graph.Leads a b → p n b) → p (n + 1) a) {done order : List Nat}
    (h : graph.InOrder done order) {n : Nat} (hdone : ∀ a ∈ done, p n a) :
    ∀ a ∈ order, p (n + order.length) a := by
  induction order generalizing done n with
  | nil => exact fun a ha => absurd ha List.not_mem_nil
  | cons first rest ih =>
    have hfirst : p (n + 1) first := hstep n first fun b hb => hdone b (h.1 b hb)
    have hall : ∀ a ∈ first :: done, p (n + 1) a := by
      intro a ha
      rcases List.mem_cons.1 ha with rfl | ha
      · exact hfirst
      · exact hmono n a (hdone a ha)
    have hrest := ih h.2 hall
    have hlater : ∀ k a, p (n + 1) a → p (n + 1 + k) a := by
      intro k a ha
      induction k with
      | zero => exact ha
      | succ k ih => exact hmono _ a ih
    intro a ha
    rw [List.length_cons, Nat.add_comm rest.length 1, ← Nat.add_assoc]
    rcases List.mem_cons.1 ha with rfl | ha
    · exact hlater _ _ hfirst
    · exact hrest a ha

end VariantGraph.Digraph
