import VariantGraph.Pipeline
/-!
# Defaults: properties taken over from other modules

A module lists under `defaults` the modules whose properties it takes over. What it ends up with are
the properties of those, in the order of the list and each with its own defaults taken over, followed
by its own. Fields that the module's type does not have are left out, and so are the lists of defaults
and of visibility rules. All references are checked before anything is merged.

| here | there (crates/lib/src) |
| --- | --- |
| `field`, `notInherited` | `DEFAULTS_PROPERTY` (defaults.rs:26), `NON_MERGED_PROPERTIES` (consts.rs:26) |
| `resolve`, `resolveAll`, `sources`, `referenceErrors` | `resolve_references` (defaults.rs:78-127) |
| `sourceGraph`, `cycleErrors` | `defaults_cycles` (defaults.rs:130-143) |
| `inherit`, `inheritAll`, `settle` | `flatten`, `without_non_merged` (defaults.rs:146-195) |
| `settleAll` | the memo of `flatten`, filled level by level |
| `store`, `merge` | the loop over those that list defaults (defaults.rs:51-72) |
| `propagate` | `propagate_defaults` (defaults.rs:29-75) |
| `Stage.runWithDefaults` | `Pipeline::run` (mutator/pipeline.rs:35-56) |
-/
namespace VariantGraph.Defaults

/-- The property that lists defaults. -/
def field : String := "defaults"

/-- The properties that are not taken over. -/
def notInherited : List String := [field, "visibility", "defaults_visibility"]

/-- The first variant of a module: the one that defaults are for. -/
def firstVariant (module : Module) : VariantId := module.variants.headD 0

/-- The own properties of a module. -/
def ownProperties (graph : Graph) (id : ModuleId) : Properties :=
  (graph.variant (firstVariant (graph.module id))).properties

/-! ## References -/

/-- The module that an entry in the list of another one means, which has to be a defaults module that
the other one may use. -/
def resolve (registry : Registry) (graph : Graph) (user : Module) (reference : String) :
    Except BuildError ModuleId :=
  let origin : Origin := ⟨user.name, user.package⟩
  match registry.resolve user.package reference with
  | .error cause => .error (.unresolved origin field cause)
  | .ok id =>
    let target := graph.module id
    if !target.can .defaults then .error (.notDefaults origin target.name)
    else match registry.deniedBy? user.package target.defaultsVisibility target.package with
      | some rules => .error (.notVisible origin field target.name target.package rules)
      | none => .ok id

/-- What each entry in the list of a module leads to. -/
def resolveAll (registry : Registry) (graph : Graph) (id : ModuleId) : List (Except BuildError ModuleId) :=
  ((ownProperties graph id).getList field).map (resolve registry graph (graph.module id))

/-- The good entries in the list of a module. -/
def sources (registry : Registry) (graph : Graph) (id : ModuleId) : List ModuleId :=
  (resolveAll registry graph id).filterMap (·.toOption)

/-- The errors for the bad entries of all lists. -/
def referenceErrors (registry : Registry) (graph : Graph) : List BuildError :=
  graph.moduleIds.flatMap fun id =>
    (resolveAll registry graph id).filterMap fun
      | .error error => some error
      | .ok _ => none

/-- Which module takes over from which, by the good entries. -/
def sourceGraph (registry : Registry) (graph : Graph) : Digraph :=
  .ofRows graph.moduleIds (graph.moduleIds.map (sources registry graph))

/-- The errors for modules that take over from themselves. -/
def cycleErrors (graph : Graph) (taken : Digraph) : List BuildError :=
  taken.cycles.map fun path => .defaultsCycle (path.map fun id => (graph.module id).name)

/-! ## Merging -/

/-- Appends what is taken over from one module. -/
def inherit (schema? : Option Schema) (merged inherited : Properties) : Attempt Properties Unit :=
  match schema? with
  | some schema => merged.appendMatching schema notInherited inherited
  | none => merged.append (notInherited.foldl Table.erase inherited)

/-- Appends what is taken over from some modules, given what each of them ends up with. -/
def inheritAll (schema? : Option Schema) (settled : ModuleId → Except PropertyError Properties) :
    Properties → List ModuleId → Except PropertyError Properties
  | merged, [] => .ok merged
  | merged, id :: rest => do
    let inherited ← settled id
    let attempt := inherit schema? merged inherited
    match attempt.result with
    | .ok _ => inheritAll schema? settled attempt.state rest
    | .error error => .error error

/-- What a module ends up with, given what the modules that it takes over from end up with. -/
def settle (types : TypeTable) (graph : Graph) (taken : Digraph)
    (settled : ModuleId → Except PropertyError Properties) (id : ModuleId) :
    Except PropertyError Properties :=
  let own := ownProperties graph id
  match taken.next id with
  | [] => .ok own
  | ids => do
    let schema? := (types.find? (graph.module id).moduleType).map (·.schema)
    let merged ← inheritAll schema? settled [] ids
    let attempt := merged.append own
    match attempt.result with
    | .ok _ => return attempt.state
    | .error error => .error error

/-- What modules end up with, by their numbers. -/
abbrev Settled := List (ModuleId × Except PropertyError Properties)

/-- What a module ends up with; one that was not looked at keeps its properties. -/
def Settled.of (graph : Graph) (settled : Settled) (id : ModuleId) : Except PropertyError Properties :=
  (settled.lookup id).getD (.ok (ownProperties graph id))

/-- What the modules of a list end up with, where each comes after those it takes over from. -/
def settleAll (types : TypeTable) (graph : Graph) (taken : Digraph) (ids : List ModuleId) : Settled :=
  ids.foldl (fun settled id => (id, settle types graph taken (settled.of graph) id) :: settled) []

/-- Gives one module what it ends up with, or reports why there is nothing. -/
def store (settled : ModuleId → Except PropertyError Properties) (build : Build) (id : ModuleId) : Build :=
  let module := build.graph.module id
  match settled id with
  | .ok properties =>
    { build with graph := build.graph.setProperties (firstVariant module) properties }
  | .error cause => build.fail (.invalidProperty ⟨module.name, module.package⟩ cause)

/-- Merges the properties of all modules that take some over. -/
def merge (types : TypeTable) (graph : Graph) (taken : Digraph) : Build :=
  let order := (taken.levels?.getD []).flatten
  let settled := settleAll types graph taken order
  (graph.moduleIds.filter fun id => taken.next id ≠ []).foldl (store (settled.of graph)) ⟨graph, []⟩

/-- Takes over all defaults. If a reference is bad or a module takes over from itself, nothing is
merged. -/
def propagate (registry : Registry) (types : TypeTable) (graph : Graph) : Build :=
  let taken := sourceGraph registry graph
  let faults := referenceErrors registry graph ++ cycleErrors graph taken
  if faults = [] then merge types graph taken else ⟨graph, faults⟩

end VariantGraph.Defaults

namespace VariantGraph

/-- Takes over defaults, then runs stages, up to the first step with errors. -/
def Stage.runWithDefaults (env : Environment) (stages : List Stage) (graph : Graph) : Build :=
  let build := Defaults.propagate env.registry env.types graph
  if build.errors = [] then Stage.runAll env stages build.graph else build

end VariantGraph
