import VariantGraph.BuildError
import VariantGraph.Config.Basic
import VariantGraph.Graph.Basic
import VariantGraph.Property.Select
/-!
# Stages and what they ask for

A stage visits the live variants wave by wave. Visiting changes nothing: it gives the `Effects` that
the stage asks for, namely new properties, dependencies, a split, and errors. All variants of a wave
are visited with the same graph, and what was asked for is carried out afterwards, so the order within
a wave does not matter to what a stage sees.

| here | there (crates/lib/src) |
| --- | --- |
| `Environment`, `Request` | `Environment`, `DependencyRequest` (mutator/context.rs:12-24) |
| `SplitRequest`, `Effects` | `SplitRequest`, `MutatorOutput` (mutator/context.rs:28-40) |
| `Direction`, `Stage` | `Direction`, `Mutator` (mutator/mod.rs:25-50) |
| `Visit` | `MutatorContext` (mutator/context.rs:47-54) |
| `properties`, `setProperties` | `properties`, `properties_mut` (mutator/context.rs:103-113) |
| `depend`, `splitOn` | `add_dependency`, `create_variations` (mutator/context.rs:122-143) |
| `newProperties?`, `setNewProperties` | `variation_properties_mut` (mutator/context.rs:146-155) |
| `blame`, `report` | `module_error`, `property_error`, `report` (mutator/context.rs:158-176) |
| `splitAndSelect`, `selectNew` | `split_and_select` (mutator/builtin/mod.rs:36-49) |
-/
namespace VariantGraph

/-- What every stage of a build can look up. -/
structure Environment where
  config : Config
  types : TypeTable
  registry : Registry

/-- The order in which a stage goes through the waves. -/
inductive Direction where
  /-- What is depended on comes first. -/
  | bottomUp
  /-- What depends comes first. -/
  | topDown
  deriving DecidableEq, Repr

/-- A dependency that a stage asks for, by reference. -/
structure Request where
  tag : Tag
  reference : String
  property : String
  deriving DecidableEq, Repr

/-- A split that a stage asks for: the properties of each new variant, by its value. -/
structure SplitRequest where
  axis : String
  variations : List (String × Properties)

/-- All that a stage asks for on a visit. -/
structure Effects where
  /-- The new properties, if they change. -/
  properties : Option Properties
  requests : List Request
  split : Option SplitRequest
  errors : List BuildError

/-- Nothing at all. -/
def Effects.none : Effects := ⟨.none, [], .none, []⟩

/-- A stage of a build. -/
structure Stage where
  name : String
  direction : Direction
  visit : Environment → Graph → VariantId → Effects

/-- A visit of a stage to a variant, with what was asked for so far. -/
structure Visit where
  stage : String
  env : Environment
  graph : Graph
  id : VariantId
  effects : Effects

namespace Visit

def variant (visit : Visit) : Variant := visit.graph.variant visit.id

def module (visit : Visit) : Module := visit.graph.module visit.variant.module

def can (visit : Visit) (capability : Capability) : Bool := visit.module.can capability

/-- The type of the visited module. -/
def moduleType? (visit : Visit) : Option ModuleType := visit.env.types.find? visit.module.moduleType

/-- The properties as they are after what was asked for so far. -/
def properties (visit : Visit) : Properties := visit.effects.properties.getD visit.variant.properties

/-! ## Asking -/

/-- Asks for new properties. -/
def setProperties (visit : Visit) (properties : Properties) : Visit :=
  { visit with effects := { visit.effects with properties } }

/-- Asks for a dependency. -/
def depend (visit : Visit) (request : Request) : Visit :=
  { visit with effects := { visit.effects with requests := visit.effects.requests ++ [request] } }

/-- Asks for a split, in place of one that was asked for before. Every new variant starts from the
properties as they are now. -/
def splitOn (visit : Visit) (axis : String) (values : List String) : Visit :=
  let variations := values.map (·, visit.properties)
  { visit with effects := { visit.effects with split := some ⟨axis, variations⟩ } }

/-- The properties of the first new variant with a value. -/
def newProperties? (visit : Visit) (value : String) : Option Properties :=
  visit.effects.split.bind fun split => Table.find? split.variations value

/-- Replaces the value of the first entry under a key. -/
def replaceFirst (key : String) (value : α) : List (String × α) → List (String × α)
  | [] => []
  | (name, old) :: rest =>
    if name = key then (name, value) :: rest else (name, old) :: replaceFirst key value rest

/-- Replaces the properties of the first new variant with a value. -/
def setNewProperties (visit : Visit) (value : String) (properties : Properties) : Visit :=
  let split := visit.effects.split.map fun split =>
    { split with variations := replaceFirst value properties split.variations }
  { visit with effects := { visit.effects with split } }

/-! ## Finding fault -/

def origin (visit : Visit) : Origin := ⟨visit.module.name, visit.module.package⟩

def fail (visit : Visit) (error : BuildError) : Visit :=
  { visit with effects := { visit.effects with errors := visit.effects.errors ++ [error] } }

/-- Blames the module, or one of its properties. -/
def blame (visit : Visit) (property : Option String) (fault : StageFault) : Visit :=
  visit.fail (.stageFault visit.stage visit.origin property fault)

/-- Reports what went wrong with properties, if anything did. -/
def report (visit : Visit) : Option PropertyError → Visit
  | some cause => visit.fail (.invalidProperty visit.origin cause)
  | none => visit

/-! ## Selecting branches -/

/-- Asks for the properties that an operation leaves, and reports why it stopped. -/
def change (visit : Visit) (attempt : Attempt Properties α) : Visit :=
  (visit.setProperties attempt.state).report attempt.error?

/-- Folds branches of a conditional field into the properties of the first new variant with a value. -/
def selectNew (visit : Visit) (value field : String) (keys : List String) : Visit :=
  match visit.newProperties? value with
  | none => visit
  | some properties =>
    let attempt := properties.select field keys
    (visit.setNewProperties value attempt.state).report attempt.error?

/-- Asks for a split on an axis; each new variant selects the branches of a field by its own keys. -/
def splitAndSelect (visit : Visit) (axis field : String) (choices : List (String × List String)) : Visit :=
  choices.foldl (fun visit (value, keys) => visit.selectNew value field keys)
    (visit.splitOn axis (choices.map (·.1)))

end Visit

/-- A stage that is given by what it does on a visit. -/
def Stage.ofVisit (name : String) (direction : Direction) (act : Visit → Visit) : Stage where
  name := name
  direction := direction
  visit := fun env graph id => (act ⟨name, env, graph, id, .none⟩).effects

end VariantGraph
