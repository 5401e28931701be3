import VariantGraph.Defaults
import VariantGraph.Proofs.Digraph.Cycles
import VariantGraph.Proofs.Graph.Access
/-!
# References to defaults

What the entries in the lists of defaults come to. An entry is refused for one of three reasons
(`Refused`); what is left says which module takes over from which (`TakesFrom`), and that relation is
all that the digraph of sources holds (`leads_sourceGraph`). Nothing is found wrong exactly if no entry
is refused and no module takes over from itself (`faults_eq_nil_iff`).
-/
namespace VariantGraph.Defaults

variable {registry : Registry} {graph : Graph}

/-! ## Single entries -/

/-- Why an entry in the list of a module is refused: it leads to no module, to one that is no defaults
module, or to one whose rules keep the package from taking its defaults. -/
inductive Refused (registry : Registry) (graph : Graph) (user : Module) (reference : String) :
    BuildError → Prop where
  | unresolved {cause : ResolveError} (h : registry.resolve user.package reference = .error cause) :
      Refused registry graph user reference (.unresolved ⟨user.name, user.package⟩ field cause)
  | notDefaults {id : ModuleId} (h : registry.resolve user.package reference = .ok id)
      (hcan : (graph.module id).can .defaults = false) :
      Refused registry graph user reference
        (.notDefaults ⟨user.name, user.package⟩ (graph.module id).name)
  | notVisible {id : ModuleId} {rules : List VisibilityRule}
      (h : registry.resolve user.package reference = .ok id)
      (hcan : (graph.module id).can .defaults = true)
      (hdenied : registry.deniedBy? user.package (graph.module id).defaultsVisibility
        (graph.module id).package = some rules) :
      Refused registry graph user reference
        (.notVisible ⟨user.name, user.package⟩ field (graph.module id).name (graph.module id).package rules)

theorem resolve_eq_error_iff {user : Module} {reference : String} {error : BuildError} :
    resolve registry graph user reference = .error error ↔ Refused registry graph user reference error := by
  constructor
  · intro h
    unfold resolve at h
    cases hr : registry.resolve user.package reference with
    | error cause => rw [hr] at h; injection h with h; exact h ▸ .unresolved hr
    | ok id =>
      rw [hr] at h
      dsimp only at h
      cases hcan : (graph.module id).can .defaults with
      | false => rw [hcan] at h; injection h with h; exact h ▸ .notDefaults hr hcan
      | true =>
        rw [hcan] at h
        cases hdenied : registry.deniedBy? user.package (graph.module id).defaultsVisibility
            (graph.module id).package with
        | some rules => rw [hdenied] at h; injection h with h; exact h ▸ .notVisible hr hcan hdenied
        | none => rw [hdenied] at h; cases h
  · rintro (h | ⟨h, hcan⟩ | ⟨h, hcan, hdenied⟩)
    · simp only [resolve, h]
    · simp [resolve, h, hcan]
    · simp [resolve, h, hcan, hdenied]

/-- Only modules that exist have capabilities. -/
theorem lt_of_can {id : ModuleId} {capability : Capability} (h : (graph.module id).can capability = true) :
    id < graph.modules.length := by
  by_contra hge
  rw [Graph.module_of_le (Nat.le_of_not_lt hge)] at h
  exact absurd h (by simp [Module.can, show (default : Module).capabilities = [] from rfl])

theorem lt_of_resolve {user : Module} {reference : String} {id : ModuleId}
    (h : resolve registry graph user reference = .ok id) : id < graph.modules.length := by
  unfold resolve at h
  dsimp only at h
  split at h
  · cases h
  · next target _ =>
    split at h
    · cases h
    · next hcan =>
      split at h
      · cases h
      · injection h with h
        subst h
        exact lt_of_can (by simpa using hcan)

/-! ## Which module takes over from which -/

/-- A module takes over from another one: an entry in its list leads there. -/
def TakesFrom (registry : Registry) (graph : Graph) (user target : ModuleId) : Prop :=
  user < graph.modules.length ∧ ∃ reference ∈ (ownProperties graph user).getList field,
    resolve registry graph (graph.module user) reference = .ok target

theorem mem_sources {user target : ModuleId} : target ∈ sources registry graph user ↔
    ∃ reference ∈ (ownProperties graph user).getList field,
      resolve registry graph (graph.module user) reference = .ok target := by
  simp only [sources, resolveAll, List.mem_filterMap, List.mem_map, exists_exists_and_eq_and]
  refine exists_congr fun reference => and_congr_right fun _ => ?_
  cases resolve registry graph (graph.module user) reference <;> simp [Except.toOption]

theorem next_sourceGraph {id : ModuleId} (h : id < graph.modules.length) :
    (sourceGraph registry graph).next id = sources registry graph id := by
  have hall : ∀ target ∈ sources registry graph id, target ∈ graph.moduleIds := fun target ht => by
    obtain ⟨reference, -, hr⟩ := mem_sources.1 ht
    exact List.mem_range.2 (lt_of_resolve hr)
  rw [← List.filter_eq_self.2 fun target ht => decide_eq_true (hall target ht)]
  simp [Digraph.next, sourceGraph, Digraph.ofRows, Graph.moduleIds, List.getElem?_range h]

theorem next_sourceGraph_of_le {id : ModuleId} (h : graph.modules.length ≤ id) :
    (sourceGraph registry graph).next id = [] := by
  have hnone : (List.range graph.modules.length)[id]? = none := List.getElem?_eq_none (by simpa using h)
  simp [Digraph.next, sourceGraph, Digraph.ofRows, Graph.moduleIds, hnone]

theorem leads_sourceGraph : (sourceGraph registry graph).Leads = TakesFrom registry graph := by
  funext user target
  by_cases h : user < graph.modules.length
  · rw [Digraph.Leads, next_sourceGraph h, mem_sources, TakesFrom]
    exact propext (and_iff_right h).symm
  · rw [Digraph.Leads, next_sourceGraph_of_le (Nat.le_of_not_lt h)]
    exact propext ⟨fun hm => absurd hm List.not_mem_nil, fun ht => absurd ht.1 h⟩

/-! ## What is found wrong -/

/-- Some entry is refused, or some module takes over from itself. -/
def Faulty (registry : Registry) (graph : Graph) : Prop :=
  (∃ user < graph.modules.length, ∃ reference ∈ (ownProperties graph user).getList field,
    ∃ error, Refused registry graph (graph.module user) reference error) ∨
  ∃ id, Relation.TransGen (TakesFrom registry graph) id id

theorem mem_referenceErrors {error : BuildError} : error ∈ referenceErrors registry graph ↔
    ∃ user < graph.modules.length, ∃ reference ∈ (ownProperties graph user).getList field,
      Refused registry graph (graph.module user) reference error := by
  simp only [referenceErrors, resolveAll, Graph.moduleIds, List.mem_flatMap, List.mem_range,
    List.mem_filterMap, List.mem_map, exists_exists_and_eq_and, ← resolve_eq_error_iff]
  refine exists_congr fun user => and_congr_right fun _ => exists_congr fun reference => and_congr_right fun _ => ?_
  cases resolve registry graph (graph.module user) reference <;> simp

/-- The cycles that are reported are cycles, and stand for all there are: each module that takes over
from itself does so along with all modules of one reported cycle, and of no other. -/
structure Cyclic (registry : Registry) (graph : Graph) (paths : List (List ModuleId)) : Prop where
  isCycle : ∀ path ∈ paths, path.IsChain (TakesFrom registry graph) ∧ path.head? = path.getLast? ∧ 1 < path.length
  covers : ∀ id, Relation.TransGen (TakesFrom registry graph) id id →
    ∃ path ∈ paths, ∀ other ∈ path, Relation.TransGen (TakesFrom registry graph) id other ∧
      Relation.TransGen (TakesFrom registry graph) other id
  apart : paths.Pairwise fun path path' => ∀ a ∈ path, ∀ b ∈ path',
    ¬ (Relation.TransGen (TakesFrom registry graph) a b ∧ Relation.TransGen (TakesFrom registry graph) b a)

theorem cyclic_sourceGraph (registry : Registry) (graph : Graph) :
    Cyclic registry graph (sourceGraph registry graph).cycles := by
  obtain ⟨hcycle, hcovers, hapart⟩ :=
    Digraph.cycles_exact (sourceGraph registry graph) (List.nodup_range : graph.moduleIds.Nodup)
  simp only [Digraph.Mutual, Digraph.Path, leads_sourceGraph] at hcovers hapart
  refine ⟨fun path hpath => ?_, hcovers, hapart⟩
  obtain ⟨hchain, hcloses, hmoves⟩ := hcycle path hpath
  rw [leads_sourceGraph] at hchain
  exact ⟨hchain, hcloses, hmoves⟩

theorem faults_eq_nil_iff : referenceErrors registry graph ++ cycleErrors graph (sourceGraph registry graph) = [] ↔
    ¬ Faulty registry graph := by
  rw [List.append_eq_nil_iff, Faulty, not_or]
  refine and_congr ?_ ?_
  · rw [List.eq_nil_iff_forall_not_mem]
    simp only [mem_referenceErrors]
    constructor
    · rintro h ⟨user, hu, reference, hr, error, he⟩
      exact h error ⟨user, hu, reference, hr, he⟩
    · rintro h error ⟨user, hu, reference, hr, he⟩
      exact h ⟨user, hu, reference, hr, error, he⟩
  · rw [cycleErrors, List.map_eq_nil_iff, not_exists, Digraph.cycles_eq_nil_iff]
    simp only [Digraph.Path, leads_sourceGraph]

end VariantGraph.Defaults
