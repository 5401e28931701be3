import VariantGraph.ModuleType.Builtin
import VariantGraph.Proofs.Defaults.Demand
import VariantGraph.Proofs.Graph.Reachable
/-!
# Taking over defaults equals its recursive definition

Main statement (`propagate_effective`): if anything is wrong with the references, exactly that is
reported and the graph stays as it is; otherwise every module carries its effective properties, or keeps
its own and is reported if it has none, and asking for them on demand, in any order, does the same.
-/
namespace VariantGraph.Defaults

variable {registry : Registry} {types : TypeTable} {graph : Graph}
  {effective : ModuleId → Except PropertyError Properties}

/-- What taking over comes to, given what every module ends up with. -/
structure Fulfilled (graph : Graph) (effective : ModuleId → Except PropertyError Properties) (build : Build) :
    Prop where
  carries : ∀ id < graph.modules.length, ∀ properties, effective id = .ok properties →
    ownProperties build.graph id = properties
  keeps : ∀ id < graph.modules.length, ∀ error, effective id = .error error →
    ownProperties build.graph id = ownProperties graph id
  /-- There is one error for each module that ends up with nothing, in the order of the modules. -/
  reports : build.errors = graph.moduleIds.filterMap (failure? graph effective)
  /-- The lists of defaults and of rules stay what they are. -/
  lists : ∀ id < graph.modules.length, ∀ name ∈ notInherited,
    Table.find? (ownProperties build.graph id) name = Table.find? (ownProperties graph id) name
  /-- Nothing but properties changes, and those of first variants only. -/
  shape : build.graph.SameShape graph
  others : ∀ v, (∀ id < graph.modules.length, firstVariant (graph.module id) ≠ v) →
    build.graph.variant v = graph.variant v

/-! ## Merging without faults -/

theorem lt_of_mem_users {id : ModuleId} (h : id ∈ users registry graph) : id < graph.modules.length :=
  List.mem_range.1 (List.mem_of_mem_filter h)

theorem nodup_users (registry : Registry) (graph : Graph) : (users registry graph).Nodup :=
  List.nodup_range.filter _

/-- A module that takes over from none ends up with its own properties. -/
theorem Effective.of_not_mem_users (he : Effective registry types graph effective) {id : ModuleId}
    (hid : id < graph.modules.length) (h : id ∉ users registry graph) :
    effective id = .ok (ownProperties graph id) := by
  have hnone : sources registry graph id = [] := by
    by_contra hne
    exact h (List.mem_filter.2 ⟨List.mem_range.2 hid, by simpa using hne⟩)
  rw [he id hid, overlay, hnone]

/-- The properties of a module after those that take over were given what they end up with. -/
theorem ownProperties_foldl_place (hlinked : graph.Linked) (he : Effective registry types graph effective)
    {id : ModuleId} (hid : id < graph.modules.length) :
    ownProperties ((users registry graph).foldl (place graph effective) graph) id =
      match effective id with
      | .ok properties => properties
      | .error _ => ownProperties graph id := by
  have hmodule : ((users registry graph).foldl (place graph effective) graph).module id = graph.module id :=
    Graph.module_congr (modules_foldl_place _ _) id
  rw [ownProperties, hmodule]
  by_cases hu : id ∈ users registry graph
  · rw [variant_place_of_mem hlinked (fun _ => lt_of_mem_users) (nodup_users _ _) rfl hu, deliver]
    cases effective id <;> rfl
  · rw [variant_place_of_ne fun other ho hv =>
      hu (firstVariant_injective hlinked (lt_of_mem_users ho) hid hv ▸ ho), he.of_not_mem_users hid hu]
    rfl

theorem fulfilled_foldl_store (hlinked : graph.Linked)
    (hordered : ∀ id < graph.modules.length, Table.Ordered (ownProperties graph id))
    (he : Effective registry types graph effective) :
    Fulfilled graph effective ((users registry graph).foldl (store effective) ⟨graph, []⟩) := by
  have hshape := sameShape_foldl_store effective (users registry graph) ⟨graph, []⟩
  rw [foldl_store_eq _ _ rfl] at hshape ⊢
  have hown := fun id (hid : id < graph.modules.length) => ownProperties_foldl_place hlinked he hid
  refine ⟨fun id hid properties hok => ?_, fun id hid error herror => ?_, ?_, fun id hid name hname => ?_,
    hshape, fun v hv => ?_⟩
  · rw [hown id hid, hok]
  · rw [hown id hid, herror]
  · rw [List.nil_append, users, List.filterMap_filter]
    refine List.filterMap_congr fun id hid => ?_
    by_cases hu : sources registry graph id = []
    · have hnot : id ∉ users registry graph := fun hmem => by simpa [hu] using List.of_mem_filter hmem
      simp [hu, failure?, he.of_not_mem_users (List.mem_range.1 hid) hnot]
    · simp [hu]
  · rw [hown id hid]
    cases hok : effective id with
    | error error => rfl
    | ok properties => exact find?_of_overlay hname (hordered id hid) ((he id hid).symm.trans hok)
  · exact variant_place_of_ne fun id hid => hv id (lt_of_mem_users hid)

/-! ## Both ways to take over -/

theorem propagate_of_faulty (h : Faulty registry graph) : propagate registry types graph =
    ⟨graph, referenceErrors registry graph ++ cycleErrors graph (sourceGraph registry graph)⟩ :=
  if_neg (mt faults_eq_nil_iff.1 (not_not_intro h))

theorem not_faulty_of_errors (h : (propagate registry types graph).errors = []) : ¬ Faulty registry graph := by
  intro hfaulty
  rw [propagate_of_faulty hfaulty] at h
  exact faults_eq_nil_iff.1 h hfaulty

theorem propagateOnDemand_of_faulty (h : Faulty registry graph) (order : List ModuleId) :
    propagateOnDemand registry types graph order = some (propagate registry types graph) :=
  (if_neg (mt faults_eq_nil_iff.1 (not_not_intro h))).trans (congrArg some (propagate_of_faulty h).symm)

section Faultless
variable (h : ¬ Faulty registry graph)
include h

theorem exists_levels_of_not_faulty : ∃ levels, (sourceGraph registry graph).levels? = some levels := by
  refine Digraph.exists_levels? fun id hid => h (Or.inr ⟨id, ?_⟩)
  rwa [Digraph.Path, leads_sourceGraph] at hid

theorem propagate_eq_foldl_store (he : Effective registry types graph effective) :
    propagate registry types graph = (users registry graph).foldl (store effective) ⟨graph, []⟩ := by
  obtain ⟨levels, hlevels⟩ := exists_levels_of_not_faulty h
  have husers : (graph.moduleIds.filter fun id => (sourceGraph registry graph).next id ≠ []) =
      users registry graph :=
    List.filter_congr fun id hid => by rw [next_sourceGraph (List.mem_range.1 hid)]
  have hmerge : propagate registry types graph = merge types graph (sourceGraph registry graph) :=
    if_pos (faults_eq_nil_iff.2 h)
  rw [hmerge, merge, husers, hlevels, Option.getD_some]
  refine List.foldl_ext _ _ _ fun build id hid => ?_
  unfold store
  rw [(effective_settleAll hlevels).unique hlevels he (lt_of_mem_users hid)]

theorem propagateOnDemand_eq_foldl_store (hlinked : graph.Linked) (he : Effective registry types graph effective)
    {order : List ModuleId} (horder : ∀ id ∈ order, id ∈ users registry graph) :
    propagateOnDemand registry types graph order = some (order.foldl (store effective) ⟨graph, []⟩) := by
  obtain ⟨levels, hlevels⟩ := exists_levels_of_not_faulty h
  have hstart : Remembered graph effective graph [] :=
    ⟨fun _ _ hfound => absurd hfound (Option.some_ne_none _).symm, fun _ _ _ => rfl⟩
  exact (if_pos (faults_eq_nil_iff.2 h)).trans (demandEach_eq hlinked he hlevels horder rfl hstart)

/-- Asking in another order leads to the same graph and the same errors. -/
theorem propagateOnDemand_perm (hlinked : graph.Linked) (he : Effective registry types graph effective)
    {order : List ModuleId} (hperm : order.Perm (users registry graph)) :
    ∃ build, propagateOnDemand registry types graph order = some build ∧
      build.graph = (propagate registry types graph).graph ∧
      build.errors.Perm (propagate registry types graph).errors := by
  refine ⟨_, propagateOnDemand_eq_foldl_store h hlinked he fun id hid => hperm.mem_iff.1 hid, ?_⟩
  rw [propagate_eq_foldl_store h he, foldl_store_eq _ _ rfl, foldl_store_eq _ _ rfl]
  exact ⟨foldl_place_perm hlinked (fun id hid => lt_of_mem_users (hperm.mem_iff.1 hid)) hperm graph,
    (hperm.filterMap _).append_left []⟩

end Faultless

/-- Without errors, every module has something to end up with, and carries it. -/
theorem ownProperties_propagate (hlinked : graph.Linked) (he : Effective registry types graph effective)
    (h : (propagate registry types graph).errors = []) {id : ModuleId} (hid : id < graph.modules.length) :
    effective id = .ok (ownProperties (propagate registry types graph).graph id) := by
  have hfaultless := not_faulty_of_errors h
  rw [propagate_eq_foldl_store hfaultless he, foldl_store_eq _ _ rfl] at h ⊢
  have hown := ownProperties_foldl_place hlinked he hid
  cases hok : effective id with
  | ok properties => rw [hown, hok]
  | error error =>
    by_cases hu : id ∈ users registry graph
    · have hnone := List.filterMap_eq_nil_iff.1 (List.append_eq_nil_iff.1 h).2 id hu
      rw [failure?, hok] at hnone
      cases hnone
    · rw [he.of_not_mem_users hid hu] at hok
      cases hok

/-! ## All together -/

/-- **Taking over defaults equals its recursive definition**, for every registry, all types and every
graph that operations lead to, with properties that are tables. If an entry is refused or a module takes
over from itself, there is an error for every refused entry and one for every group of modules that take
over from each other, and the graph stays as it is. Otherwise what modules end up with is well defined,
and it is what they carry afterwards. It does not matter whether modules are settled level by level or on
demand, and in which order they are asked for. The properties of a module are those of its first variant,
its only one before it is split. -/
theorem propagate_effective (registry : Registry) (types : TypeTable) {graph : Graph} (hreach : graph.Reachable)
    (hordered : ∀ variant ∈ graph.variants, Table.Ordered variant.properties) :
    (Faulty registry graph →
      (∀ error, error ∈ referenceErrors registry graph ↔
        ∃ user < graph.modules.length, ∃ reference ∈ (ownProperties graph user).getList field,
          Refused registry graph (graph.module user) reference error) ∧
      ∃ paths, Cyclic registry graph paths ∧
        propagate registry types graph = ⟨graph, referenceErrors registry graph ++
          paths.map fun path => .defaultsCycle (path.map fun id => (graph.module id).name)⟩) ∧
    (¬ Faulty registry graph →
      (∃ effective, Effective registry types graph effective ∧
        ∀ effective', Effective registry types graph effective' →
          ∀ id < graph.modules.length, effective' id = effective id) ∧
      ∀ effective, Effective registry types graph effective →
        Fulfilled graph effective (propagate registry types graph)) ∧
    propagateOnDemand registry types graph (users registry graph) = some (propagate registry types graph) ∧
    ∀ order, order.Perm (users registry graph) →
      ∃ build, propagateOnDemand registry types graph order = some build ∧
        build.graph = (propagate registry types graph).graph ∧
        build.errors.Perm (propagate registry types graph).errors := by
  have hlinked : graph.Linked := hreach.consistent.toLinked
  have hown : ∀ id < graph.modules.length, Table.Ordered (ownProperties graph id) := fun id hid => by
    have hlt := firstVariant_lt hlinked hid
    rw [ownProperties, Graph.variant, List.getD_eq_getElem?_getD, List.getElem?_eq_getElem hlt]
    exact hordered _ (List.getElem_mem hlt)
  by_cases hfaulty : Faulty registry graph
  · refine ⟨fun _ => ⟨fun error => mem_referenceErrors, _, cyclic_sourceGraph registry graph,
      propagate_of_faulty hfaulty⟩, fun hnot => absurd hfaulty hnot, propagateOnDemand_of_faulty hfaulty _, ?_⟩
    exact fun order _ => ⟨_, propagateOnDemand_of_faulty hfaulty order, rfl, .refl _⟩
  · obtain ⟨levels, hlevels⟩ := exists_levels_of_not_faulty hfaulty
    have hsettled : Effective registry types graph _ := effective_settleAll hlevels
    refine ⟨fun h => absurd h hfaulty, fun _ => ⟨⟨_, hsettled, fun other ho id hid => ?_⟩, fun other ho => ?_⟩, ?_,
      fun order hperm => propagateOnDemand_perm hfaulty hlinked hsettled hperm⟩
    · exact ho.unique hlevels hsettled hid
    · rw [propagate_eq_foldl_store hfaulty ho]
      exact fulfilled_foldl_store hlinked hown ho
    · rw [propagate_eq_foldl_store hfaulty hsettled]
      exact propagateOnDemand_eq_foldl_store hfaulty hlinked hsettled fun _ => id

/-- Four modules of one package: the second takes over from the first, the others from the second, and one
of these sets a list where it takes over a text. -/
def chain : Graph :=
  (((Graph.empty
    |>.addModule ⟨"base", "cc_defaults", "a", globalNamespace, [.defaults], none, none, [], []⟩
      [("cflags", .list ["-base"]), ("visibility", .list ["//a"])])
    |>.addModule ⟨"mid", "cc_defaults", "a", globalNamespace, [.defaults], none, none, [], []⟩
      [("cflags", .list ["-mid"]), ("defaults", .list ["base"]), ("stl", .string "none")])
    |>.addModule ⟨"lib", "cc_library", "a", globalNamespace, [], none, none, [], []⟩
      [("cflags", .list ["-lib"]), ("defaults", .list ["mid", "base"])])
    |>.addModule ⟨"odd", "cc_library", "a", globalNamespace, [], none, none, [], []⟩
      [("defaults", .list ["mid"]), ("stl", .list ["libc"])]

/-- The names of `chain`. -/
def chainNames : Registry :=
  ⟨.preferImports, [(globalNamespace, ⟨[], [("base", 0), ("lib", 2), ("mid", 1), ("odd", 3)]⟩)], []⟩

theorem propagate_effective_chain :
    chain.Reachable ∧ (∀ variant ∈ chain.variants, Table.Ordered variant.properties) ∧
    ¬ Faulty chainNames chain ∧
    (∃ effective, Effective chainNames Builtin.types chain effective ∧
      Fulfilled chain effective (propagate chainNames Builtin.types chain)) ∧
    (∃ build, propagateOnDemand chainNames Builtin.types chain [3, 2, 1] = some build ∧
      build.graph = (propagate chainNames Builtin.types chain).graph) ∧
    (ownProperties (propagate chainNames Builtin.types chain).graph 2).getList "cflags" =
      ["-base", "-mid", "-base", "-lib"] ∧
    (propagate chainNames Builtin.types chain).errors =
      [.invalidProperty ⟨"odd", "a"⟩ (.shapeMismatch "stl" "string" "list")] := by
  have hreach : chain.Reachable :=
    (((Relation.ReflTransGen.refl.tail (.addModule _ _)).tail (.addModule _ _)).tail (.addModule _ _)).tail
      (.addModule _ _)
  have hrun : (∀ variant ∈ chain.variants, variant.properties.Pairwise fun a b => a.1 < b.1) ∧
      referenceErrors chainNames chain ++ cycleErrors chain (sourceGraph chainNames chain) = [] ∧
      [3, 2, 1].Perm (users chainNames chain) ∧
      (ownProperties (propagate chainNames Builtin.types chain).graph 2).getList "cflags" =
        ["-base", "-mid", "-base", "-lib"] ∧
      (propagate chainNames Builtin.types chain).errors =
        [.invalidProperty ⟨"odd", "a"⟩ (.shapeMismatch "stl" "string" "list")] := by decide +kernel
  obtain ⟨hordered, hfaults, hperm, hflags, herrors⟩ := hrun
  have hfaultless := faults_eq_nil_iff.1 hfaults
  obtain ⟨-, hsettled, -, hdemand⟩ := propagate_effective chainNames Builtin.types hreach hordered
  obtain ⟨⟨effective, heffective, -⟩, hall⟩ := hsettled hfaultless
  obtain ⟨build, hbuild, hsame, -⟩ := hdemand [3, 2, 1] hperm
  exact ⟨hreach, hordered, hfaultless, ⟨effective, heffective, hall effective heffective⟩, ⟨build, hbuild, hsame⟩,
    hflags, herrors⟩

end VariantGraph.Defaults
