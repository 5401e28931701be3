import VariantGraph.Graph.Split
import VariantGraph.Graph.Waves
import VariantGraph.Stage.Basic
/-!
# Running stages

A stage visits the graph wave by wave; after each wave, what it asked for is carried out one variant
after another. When all waves are done, every dependency that exists has to lead somewhere. A stage
with errors is the last one that runs.

| here | there (crates/lib/src) |
| --- | --- |
| `Build.request` | `add_requested` (mutator/pipeline.rs:150-197) |
| `Build.apply` | `apply` (mutator/pipeline.rs:137-148) |
| `Build.runWave` | `visit_wave` and the loop around it (mutator/pipeline.rs:76-82, 112-133) |
| `missingErrors`, `cycleError` | the errors made of `missing_variants` and of a cycle (mutator/pipeline.rs:84-93, 199-203) |
| `Direction.arrange`, `Stage.run` | `run_stage` (mutator/pipeline.rs:58-95) |
| `Stage.runAll` | `Pipeline::run` after the defaults (mutator/pipeline.rs:43-56) |
-/
namespace VariantGraph

/-- A graph, and what was found wrong on the way to it. -/
structure Build where
  graph : Graph
  errors : List BuildError

namespace Build

/-- The same graph with one more error. -/
def fail (build : Build) (error : BuildError) : Build :=
  { build with errors := build.errors ++ [error] }

/-- Carries out a request for a dependency of a variant: the reference has to lead to a module that
can be depended on and that the package of the variant may see. -/
def request (env : Environment) (id : VariantId) (build : Build) (request : Request) : Build :=
  let module := build.graph.moduleOf id
  let origin : Origin := ⟨module.name, module.package⟩
  match env.registry.resolve module.package request.reference with
  | .error cause => build.fail (.unresolved origin request.property cause)
  | .ok targetId =>
    let target := build.graph.module targetId
    if target.can .defaults then
      build.fail (.dependsOnDefaults origin request.property target.name)
    else
      match env.registry.deniedBy? module.package target.visibility target.package with
      | some rules => build.fail (.notVisible origin request.property target.name target.package rules)
      | none =>
        { build with
          graph := build.graph.addCheckedDependency id request.tag targetId request.property }

/-- Carries out what a stage asked for on a visit to a variant: properties, then dependencies, then the
split, so that new variants have both. -/
def apply (env : Environment) (build : Build) (id : VariantId) (effects : Effects) : Build :=
  let graph := match effects.properties with
    | some properties => build.graph.setProperties id properties
    | none => build.graph
  let requested := effects.requests.foldl (request env id) ⟨graph, build.errors ++ effects.errors⟩
  match effects.split with
  | some split => { requested with graph := requested.graph.split id split.axis split.variations }
  | none => requested

/-- Visits the variants of a wave, all with the same graph, and carries out what is asked for. -/
def runWave (env : Environment) (stage : Stage) (build : Build) (wave : List VariantId) : Build :=
  (wave.map fun id => (id, stage.visit env build.graph id)).foldl
    (fun build (id, effects) => apply env build id effects) build

end Build

namespace Graph

/-- The errors for dependencies that exist and lead nowhere. -/
def missingErrors (graph : Graph) : List BuildError :=
  graph.missing.map fun (id, dependency) =>
    let module := graph.moduleOf id
    .missingVariant ⟨module.name, module.package⟩ (graph.variant id).variations.render
      dependency.property (graph.module dependency.module).name

/-- The error for a dependency cycle. -/
def cycleError (graph : Graph) (path : List VariantId) : BuildError :=
  .dependencyCycle (path.map graph.describe)

end Graph

/-- The waves in the order of a direction. -/
def Direction.arrange (direction : Direction) (waves : List (List VariantId)) : List (List VariantId) :=
  match direction with
  | .bottomUp => waves
  | .topDown => waves.reverse

/-- Runs a stage over a graph. -/
def Stage.run (env : Environment) (stage : Stage) (graph : Graph) : Build :=
  match graph.waves with
  | .error path => ⟨graph, [graph.cycleError path]⟩
  | .ok waves =>
    let build := (stage.direction.arrange waves).foldl (Build.runWave env stage) ⟨graph, []⟩
    { build with errors := build.errors ++ build.graph.missingErrors }

/-- Runs stages one after another, up to the first one with errors. In the end the graph has to be
free of cycles. -/
def Stage.runAll (env : Environment) : List Stage → Graph → Build
  | [], graph =>
    match graph.findCycle? with
    | some path => ⟨graph, [graph.cycleError path]⟩
    | none => ⟨graph, []⟩
  | stage :: rest, graph =>
    let build := stage.run env graph
    if build.errors = [] then Stage.runAll env rest build.graph else build

end VariantGraph
