import VariantGraph.Proofs.Defaults
import VariantGraph.Proofs.Defaults.Storing
import VariantGraph.Proofs.Lookup.Names
import VariantGraph.Proofs.Lookup.Waves
/-!
# Looking up defaults

Taking over defaults looks up first variants, the modules that references lead to, and the nodes of all of them.
In a consistent graph with names below the number of its modules, nothing of that is missed (`propagate_eq`):
modules list variants, and after the cycles were ruled out there is an order to merge in.
-/
namespace VariantGraph.Checked
open VariantGraph.Graph (Linked Consistent)

variable {registry : Registry} {graph : Graph}

/-! ## References -/

/-- The first variant of a module. -/
def firstVariant (module : Module) : Found VariantId := find (.firstVariant module.name) module.variants.head?

/-- The own properties of a module. -/
def ownProperties (graph : Graph) (id : ModuleId) : Found Properties := do
  let first ← firstVariant (← module graph id)
  return (← variant graph first).properties

/-- The defaults module that an entry in the list of another one means. -/
def resolveSource (registry : Registry) (graph : Graph) (user : Module) (reference : String) :
    Found (Except BuildError ModuleId) := do
  let origin : Origin := ⟨user.name, user.package⟩
  match ← resolve registry user.package reference with
  | .error cause => return .error (.unresolved origin Defaults.field cause)
  | .ok id =>
    let target ← module graph id
    return if !target.can .defaults then .error (.notDefaults origin target.name)
      else match registry.deniedBy? user.package target.defaultsVisibility target.package with
        | some rules => .error (.notVisible origin Defaults.field target.name target.package rules)
        | none => .ok id

/-- What each entry in the list of a module leads to. -/
def resolveSources (registry : Registry) (graph : Graph) (id : ModuleId) :
    Found (List (Except BuildError ModuleId)) := do
  let own ← ownProperties graph id
  let user ← module graph id
  (own.getList Defaults.field).mapM (resolveSource registry graph user)

/-- Which module takes over from which, over the nodes of all modules. -/
def sourceGraph (graph : Graph) (references : List (ModuleId × List ModuleId)) : Found Digraph := do
  let rows ← references.mapM fun (user, targets) => do
    let _ ← nodeOf graph.moduleIds user
    throughNodes graph.moduleIds targets
  return .ofRows graph.moduleIds rows

/-- The errors for modules that take over from themselves. -/
def cycleErrors (graph : Graph) (taken : Digraph) : Found (List BuildError) :=
  taken.cycles.mapM fun path => do
    let path ← throughNodes graph.moduleIds path
    return .defaultsCycle ((← path.mapM (module graph)).map (·.name))

section
variable (hg : Linked graph) {id : ModuleId} (hid : id < graph.modules.length)
include hg hid

theorem firstVariant_eq : firstVariant (graph.module id) = .ok (Defaults.firstVariant (graph.module id)) := by
  unfold firstVariant Defaults.firstVariant
  cases h : (graph.module id).variants with
  | nil => exact absurd h (hg.inhabited id hid)
  | cons first rest => rfl

theorem ownProperties_eq : ownProperties graph id = .ok (Defaults.ownProperties graph id) := by
  rw [ownProperties, module_eq hid, ok_bind, firstVariant_eq hg hid, ok_bind,
    variant_eq (Defaults.firstVariant_lt hg hid)]
  rfl

end

section
variable (hr : registry.Rooted) (hb : registry.Below graph.modules.length)
include hr hb

theorem resolveSource_eq (user : Module) (reference : String) :
    resolveSource registry graph user reference = .ok (Defaults.resolve registry graph user reference) := by
  rw [resolveSource, resolve_eq hr, ok_bind, Defaults.resolve]
  cases h : registry.resolve user.package reference with
  | error cause => rfl
  | ok id =>
    dsimp only
    rw [module_eq (hb _ _ _ h)]
    rfl

theorem resolveSources_eq (hg : Linked graph) {id : ModuleId} (hid : id < graph.modules.length) :
    resolveSources registry graph id = .ok (Defaults.resolveAll registry graph id) := by
  rw [resolveSources, ownProperties_eq hg hid, ok_bind, module_eq hid, ok_bind]
  exact mapM_eq_ok fun reference _ => resolveSource_eq hr hb _ reference

end

theorem sourceGraph_eq (registry : Registry) (graph : Graph) :
    sourceGraph graph (graph.moduleIds.map fun id => (id, Defaults.sources registry graph id)) =
      .ok (Defaults.sourceGraph registry graph) := by
  rw [sourceGraph, mapM_eq_ok (g := Prod.snd), ok_bind, List.map_map]
  · rfl
  · intro entry hentry
    obtain ⟨id, hid, rfl⟩ := List.mem_map.1 hentry
    dsimp only
    rw [nodeOf_eq hid, ok_bind, throughNodes_eq]
    intro target ht
    obtain ⟨reference, -, hresolve⟩ := Defaults.mem_sources.1 ht
    exact List.mem_range.2 (Defaults.lt_of_resolve hresolve)

theorem cycleErrors_eq {taken : Digraph} (h : taken.nodes = graph.moduleIds) :
    cycleErrors graph taken = .ok (Defaults.cycleErrors graph taken) := by
  refine mapM_eq_ok fun path hpath => ?_
  have hmem : ∀ id ∈ path, id ∈ graph.moduleIds := fun id hid =>
    h ▸ Digraph.mem_nodes_of_mem_cycles hpath id hid
  rw [throughNodes_eq hmem, ok_bind, mapM_eq_ok fun id hid => module_eq (List.mem_range.1 (hmem id hid)), ok_bind,
    List.map_map]
  rfl

/-! ## Merging -/

/-- What a module ends up with; one that was not looked at keeps its properties. -/
def settledOf (graph : Graph) (settled : Defaults.Settled) (id : ModuleId) :
    Found (Except PropertyError Properties) :=
  match settled.lookup id with
  | some answer => return answer
  | none => return .ok (← ownProperties graph id)

/-- Appends what is taken over from some modules. -/
def inheritAll (schema? : Option Schema) (settled : ModuleId → Found (Except PropertyError Properties)) :
    Properties → List ModuleId → Found (Except PropertyError Properties)
  | merged, [] => return .ok merged
  | merged, id :: rest => do
    match ← settled id with
    | .error error => return .error error
    | .ok inherited =>
      let attempt := Defaults.inherit schema? merged inherited
      match attempt.result with
      | .ok _ => inheritAll schema? settled attempt.state rest
      | .error error => return .error error

/-- What a module ends up with, given what the modules that it takes over from end up with. -/
def settle (types : TypeTable) (graph : Graph) (taken : Digraph)
    (settled : ModuleId → Found (Except PropertyError Properties)) (id : ModuleId) :
    Found (Except PropertyError Properties) := do
  let own ← ownProperties graph id
  match taken.next id with
  | [] => return .ok own
  | ids =>
    let user ← module graph id
    match ← inheritAll ((types.find? user.moduleType).map (·.schema)) settled [] ids with
    | .error error => return .error error
    | .ok merged =>
      -- the modules that were merged are named in the log
      let _ ← ids.mapM (module graph)
      let attempt := merged.append own
      match attempt.result with
      | .ok _ => return .ok attempt.state
      | .error error => return .error error

/-- What the modules of a list end up with, where each comes after those it takes over from. -/
def settleAll (types : TypeTable) (graph : Graph) (taken : Digraph) (ids : List ModuleId) : Found Defaults.Settled :=
  ids.foldlM (fun settled id => do
    let answer ← settle types graph taken (settledOf graph settled) id
    return (id, answer) :: settled) []

/-- Gives one module what it ends up with, or reports why there is nothing. -/
def store (settled : ModuleId → Found (Except PropertyError Properties)) (build : Build) (id : ModuleId) :
    Found Build := do
  let user ← module build.graph id
  match ← settled id with
  | .ok properties =>
    let graph ← setProperties build.graph (← firstVariant user) properties
    return { build with graph }
  | .error cause => return build.fail (.invalidProperty ⟨user.name, user.package⟩ cause)

/-- Merges the properties of all modules that take some over, once there are no cycles. -/
def merge (types : TypeTable) (graph : Graph) (taken : Digraph) : Found Build :=
  match taken.levels? with
  | none => throw .cycle
  | some levels => do
    let settled ← settleAll types graph taken levels.flatten
    (graph.moduleIds.filter fun id => taken.next id ≠ []).foldlM (store (settledOf graph settled)) ⟨graph, []⟩

/-- Takes over all defaults. -/
def propagate (registry : Registry) (types : TypeTable) (graph : Graph) : Found Build := do
  let resolved ← graph.moduleIds.mapM fun id => do return (id, ← resolveSources registry graph id)
  let errors := resolved.flatMap fun (_, entries) => entries.filterMap fun
    | .error error => some error
    | .ok _ => none
  let taken ← sourceGraph graph (resolved.map fun (id, entries) => (id, entries.filterMap (·.toOption)))
  let faults := errors ++ (← cycleErrors graph taken)
  if faults = [] then merge types graph taken else return ⟨graph, faults⟩

theorem inheritAll_eq (schema? : Option Schema) {checked : ModuleId → Found (Except PropertyError Properties)}
    {settled : ModuleId → Except PropertyError Properties} : ∀ {ids : List ModuleId} (merged : Properties),
      (∀ id ∈ ids, checked id = .ok (settled id)) →
      inheritAll schema? checked merged ids = .ok (Defaults.inheritAll schema? settled merged ids)
  | [], _, _ => rfl
  | id :: rest, merged, h => by
    rw [inheritAll, Defaults.inheritAll, h id List.mem_cons_self, ok_bind]
    cases settled id with
    | error error => rfl
    | ok inherited =>
      dsimp only
      rw [ok_bind]
      cases (Defaults.inherit schema? merged inherited).result with
      | error error => rfl
      | ok _ => exact inheritAll_eq schema? _ fun other ho => h other (List.mem_cons_of_mem id ho)

section
variable (hg : Linked graph)
include hg

theorem settledOf_eq (settled : Defaults.Settled) {id : ModuleId} (hid : id < graph.modules.length) :
    settledOf graph settled id = .ok (settled.of graph id) := by
  unfold settledOf Defaults.Settled.of
  cases settled.lookup id with
  | some answer => rfl
  | none =>
    dsimp only
    rw [ownProperties_eq hg hid]
    rfl

variable {taken : Digraph} (ht : taken.nodes = graph.moduleIds)
include ht

omit hg in
theorem lt_of_next {id source : ModuleId} (h : source ∈ taken.next id) : source < graph.modules.length :=
  List.mem_range.1 (show source ∈ graph.moduleIds from ht ▸ Digraph.Leads.mem_nodes h)

theorem settle_eq (types : TypeTable) (settled : Defaults.Settled) {id : ModuleId} (hid : id < graph.modules.length) :
    settle types graph taken (settledOf graph settled) id =
      .ok (Defaults.settle types graph taken (settled.of graph) id) := by
  rw [settle, ownProperties_eq hg hid, ok_bind, Defaults.settle]
  cases hnext : taken.next id with
  | nil => rfl
  | cons first rest =>
    have hlt : ∀ source ∈ first :: rest, source < graph.modules.length := fun source hmem =>
      lt_of_next ht (hnext ▸ hmem)
    dsimp only
    rw [module_eq hid, ok_bind, inheritAll_eq _ [] fun source hmem => settledOf_eq hg settled (hlt source hmem),
      ok_bind]
    cases Defaults.inheritAll _ _ _ _ with
    | error error => rfl
    | ok merged =>
      dsimp only
      rw [mapM_eq_ok fun source hmem => module_eq (hlt source hmem), ok_bind, ok_bind]
      cases (merged.append (Defaults.ownProperties graph id)).result <;> rfl

theorem settleAll_eq (types : TypeTable) {ids : List ModuleId} (h : ∀ id ∈ ids, id < graph.modules.length) :
    settleAll types graph taken ids = .ok (Defaults.settleAll types graph taken ids) := by
  refine foldlM_eq_ok (motive := fun rest _ => ∀ id ∈ rest, id < graph.modules.length) ?_ h
  intro id rest settled h
  rw [settle_eq hg ht types settled (h id List.mem_cons_self), ok_bind]
  exact ⟨rfl, fun other ho => h other (List.mem_cons_of_mem id ho)⟩

end

theorem store_eq {build : Build} (hg : Linked build.graph) {id : ModuleId} (hid : id < build.graph.modules.length)
    {checked : ModuleId → Found (Except PropertyError Properties)}
    {settled : ModuleId → Except PropertyError Properties} (hs : checked id = .ok (settled id)) :
    store checked build id = .ok (Defaults.store settled build id) := by
  rw [store, module_eq hid, ok_bind, hs, ok_bind, Defaults.store]
  cases settled id with
  | error cause => rfl
  | ok properties =>
    dsimp only
    rw [firstVariant_eq hg hid, ok_bind, setProperties_eq (Defaults.firstVariant_lt hg hid), ok_bind]
    rfl

theorem merge_eq (hg : Consistent graph) {taken : Digraph} (ht : taken.nodes = graph.moduleIds)
    (hc : taken.cycles = []) (types : TypeTable) :
    merge types graph taken = .ok (Defaults.merge types graph taken) := by
  obtain ⟨levels, hlevels⟩ := Digraph.exists_levels? (Digraph.cycles_eq_nil_iff.1 hc)
  have horder : ∀ id ∈ levels.flatten, id < graph.modules.length := fun id hid =>
    List.mem_range.1 (show id ∈ graph.moduleIds from ht ▸ (Digraph.perm_of_levels? hlevels).mem_iff.1 hid)
  unfold merge Defaults.merge
  rw [hlevels]
  dsimp only
  rw [settleAll_eq hg.toLinked ht types horder, ok_bind]
  -- only properties change while modules get theirs
  refine foldlM_eq_ok (motive := fun rest (build : Build) =>
    (∀ id ∈ rest, id < graph.modules.length) ∧ build.graph.SameShape graph) ?_ ⟨?_, .refl graph⟩
  · rintro id rest build ⟨hlt, hshape⟩
    have hid := hlt id List.mem_cons_self
    refine ⟨store_eq (hshape.consistent hg).toLinked (hshape.modules ▸ hid) (settledOf_eq hg.toLinked _ hid), ?_, ?_⟩
    · exact fun other ho => hlt other (List.mem_cons_of_mem id ho)
    · exact (Defaults.sameShape_store _ build id).trans hshape
  · exact fun id hid => List.mem_range.1 (List.mem_of_mem_filter hid)

/-- **No look-up fails while defaults are taken over.** -/
theorem propagate_eq (hr : registry.Rooted) (hb : registry.Below graph.modules.length) (hg : Consistent graph)
    (types : TypeTable) : propagate registry types graph = .ok (Defaults.propagate registry types graph) := by
  have hresolved : (graph.moduleIds.mapM fun id => do return (id, ← resolveSources registry graph id)) =
      .ok (graph.moduleIds.map fun id => (id, Defaults.resolveAll registry graph id)) :=
    mapM_eq_ok fun id hid => by
      rw [resolveSources_eq hr hb hg.toLinked (List.mem_range.1 hid), ok_bind]
      rfl
  have hgraph := sourceGraph_eq registry graph
  rw [propagate, hresolved, ok_bind, List.flatMap_map, List.map_map]
  show (sourceGraph graph (graph.moduleIds.map fun id => (id, Defaults.sources registry graph id)) >>= fun taken => do
    let faults := Defaults.referenceErrors registry graph ++ (← cycleErrors graph taken)
    if faults = [] then merge types graph taken else return ⟨graph, faults⟩) = _
  rw [hgraph, ok_bind, cycleErrors_eq rfl, ok_bind, Defaults.propagate]
  dsimp only
  split
  · next hnone =>
    rw [List.append_eq_nil_iff, Defaults.cycleErrors, List.map_eq_nil_iff] at hnone
    exact merge_eq hg rfl hnone.2 types
  · rfl

end VariantGraph.Checked
