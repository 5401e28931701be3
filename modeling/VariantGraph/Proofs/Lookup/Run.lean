import VariantGraph.Proofs.Lookup.Defaults
import VariantGraph.Proofs.Stage.Traversal
import VariantGraph.Stage.Builtin
/-!
# Looking things up while stages run

A visit looks up the variant and its module; the check of dependencies looks up what the variant depends on as
well (`Visitor`). Carrying out what was asked for looks up modules by the names that were asked for. From a
consistent graph nothing of that is missed, whatever the stages ask for and find wrong (`runWithDefaults_eq`):
the variants of a wave are live until their turn comes, and every stage leaves a consistent graph.
-/
namespace VariantGraph.Checked
open VariantGraph.Graph (Linked Consistent)

variable {env : Environment} {graph : Graph}

/-! ## Visits -/

/-- A stage, by what its visits look up besides the visited variant and its module. Every stage can be taken as
one that looks nothing else up; for the one that does, this is said here. -/
inductive Visitor where
  /-- Any stage that looks nothing else up. -/
  | plain (stage : Stage)
  | dependencyCheck

/-- The stage of a visitor. -/
def Visitor.stage : Visitor → Stage
  | plain stage => stage
  | dependencyCheck => .dependencyCheck

/-- The stages of an ordinary build. -/
def Visitor.builtin : List Visitor :=
  [.plain .configVariables, .plain .dependencies, .plain .os, .plain .arch, .plain .link, .dependencyCheck]

example : Visitor.builtin.map Visitor.stage = Stage.builtin := rfl

/-- What is wrong with a dependency. -/
def fault? (graph : Graph) (dependency : Dependency) : Found (Option StageFault) := do
  let target ← module graph dependency.module
  if dependency.tag.role = .tool && !target.can .hostToolProvider then return some (.notToolProvider target.name)
  else
    let targets ← dependency.targets.mapM (variant graph)
    return if targets.any fun shape => DependencyCheck.isDisabled shape.properties then
        some (.disabledTarget target.name)
      else none

/-- Checks the dependencies of a visited variant. -/
def checkDependencies (visit : Visit) : Found Visit :=
  if DependencyCheck.isDisabled visit.properties then return visit
  else visit.variant.dependencies.foldlM (fun visit dependency => do
    match ← fault? visit.graph dependency with
    | some fault => return visit.blame (some dependency.property) fault
    | none => return visit) visit

/-- What a visitor asks for on a visit to a variant. -/
def Visitor.visit (visitor : Visitor) (env : Environment) (graph : Graph) (id : VariantId) : Found Effects := do
  let shape ← variant graph id
  let _ ← module graph shape.module
  match visitor with
  | plain stage => return stage.visit env graph id
  | dependencyCheck => return (← checkDependencies ⟨"dependency_check", env, graph, id, .none⟩).effects

section
variable (hg : Consistent graph) {id : VariantId} (hl : graph.isLive id = true)
include hg hl

theorem fault?_eq {dependency : Dependency} (hd : dependency ∈ (graph.variant id).dependencies) :
    fault? graph dependency = .ok (DependencyCheck.fault? graph dependency) := by
  have htargets : ∀ target ∈ dependency.targets, variant graph target = .ok (graph.variant target) :=
    fun target ht => variant_of_isLive (hg.mem_targets hl hd ht).2.1
  rw [fault?, module_eq (hg.bound id hl dependency hd), ok_bind, DependencyCheck.fault?]
  split
  · rfl
  · rw [mapM_eq_ok htargets, ok_bind, List.any_map]
    rfl

theorem checkDependencies_eq (stage : String) (env : Environment) :
    checkDependencies ⟨stage, env, graph, id, .none⟩ = .ok (DependencyCheck.act ⟨stage, env, graph, id, .none⟩) := by
  unfold checkDependencies DependencyCheck.act
  split
  · rfl
  · -- blame does not change the graph in which the next dependency is looked up
    refine foldlM_eq_ok (motive := fun rest (visit : Visit) =>
      (∀ d ∈ rest, d ∈ (graph.variant id).dependencies) ∧ visit.graph = graph) ?_ ⟨fun _ hd => hd, rfl⟩
    rintro dependency rest visit ⟨hrest, hvisit⟩
    have htail : ∀ d ∈ rest, d ∈ (graph.variant id).dependencies := fun d hd => hrest d (List.mem_cons_of_mem _ hd)
    rw [hvisit, fault?_eq hg hl (hrest dependency List.mem_cons_self), ok_bind]
    cases DependencyCheck.fault? graph dependency with
    | none => exact ⟨rfl, htail, hvisit⟩
    | some fault => exact ⟨rfl, htail, hvisit⟩

theorem visit_eq (visitor : Visitor) (env : Environment) :
    visitor.visit env graph id = .ok (visitor.stage.visit env graph id) := by
  unfold Visitor.visit
  rw [variant_of_isLive hl, ok_bind, module_eq (hg.owner id hl), ok_bind]
  cases visitor with
  | plain stage => rfl
  | dependencyCheck =>
    dsimp only
    rw [checkDependencies_eq hg hl, ok_bind]
    rfl

end

/-! ## Carrying out what was asked for -/

/-- Carries out a request for a dependency of a variant. -/
def request (env : Environment) (id : VariantId) (build : Build) (request : Request) : Found Build := do
  let user ← moduleOf build.graph id
  let origin : Origin := ⟨user.name, user.package⟩
  match ← resolve env.registry user.package request.reference with
  | .error cause => return build.fail (.unresolved origin request.property cause)
  | .ok targetId =>
    let target ← module build.graph targetId
    if target.can .defaults then return build.fail (.dependsOnDefaults origin request.property target.name)
    else
      match env.registry.deniedBy? user.package target.visibility target.package with
      | some rules => return build.fail (.notVisible origin request.property target.name target.package rules)
      | none =>
        let graph ← addCheckedDependency build.graph id request.tag targetId request.property
        return { build with graph }

/-- A graph in which a variant has the properties that were asked for. -/
def changeOn (effects : Effects) (graph : Graph) (id : VariantId) : Found Graph :=
  match effects.properties with
  | some properties => setProperties graph id properties
  | none => return graph

/-- Carries out what was asked for on a visit to a variant. -/
def apply (env : Environment) (build : Build) (id : VariantId) (effects : Effects) : Found Build := do
  let graph ← changeOn effects build.graph id
  let requested ← effects.requests.foldlM (request env id) ⟨graph, build.errors ++ effects.errors⟩
  match effects.split with
  | some axis =>
    let graph ← split requested.graph id axis.axis axis.variations
    return { requested with graph }
  | none => return requested

/-- Visits the variants of a wave and carries out what is asked for. -/
def runWave (env : Environment) (visitor : Visitor) (build : Build) (wave : List VariantId) : Found Build := do
  let visits ← wave.mapM fun id => do return (id, ← visitor.visit env build.graph id)
  visits.foldlM (fun build (id, effects) => apply env build id effects) build

section
variable (hr : env.registry.Rooted) {build : Build} {id : VariantId}
include hr

theorem request_eq (hb : env.registry.Below build.graph.modules.length) (hg : Linked build.graph)
    (hl : build.graph.isLive id = true) (asked : Request) :
    request env id build asked = .ok (build.request env id asked) := by
  rw [request, moduleOf_eq hg hl, ok_bind, resolve_eq hr, ok_bind, Build.request]
  dsimp only
  cases h : env.registry.resolve (build.graph.moduleOf id).package asked.reference with
  | error cause => rfl
  | ok target =>
    have ht := hb _ _ _ h
    dsimp only
    rw [module_eq ht, ok_bind]
    split
    · rfl
    · cases env.registry.deniedBy? _ _ _ with
      | some rules => rfl
      | none =>
        dsimp only
        rw [addCheckedDependency_eq hg hl asked.tag ht, ok_bind]
        rfl

theorem requests_eq (hb : env.registry.Below build.graph.modules.length) (hg : Consistent build.graph)
    (hl : build.graph.isLive id = true) (requests : List Request) :
    requests.foldlM (request env id) build = .ok (requests.foldl (Build.request env id) build) := by
  refine foldlM_eq_ok (motive := fun _ (build : Build) => env.registry.Below build.graph.modules.length ∧
    Consistent build.graph ∧ build.graph.isLive id = true) ?_ ⟨hb, hg, hl⟩
  rintro asked rest build ⟨hb, hg, hl⟩
  have hgrants := Build.grants_request asked hb hg hl
  exact ⟨request_eq hr hb hg.toLinked hl asked, hgrants.headers.length ▸ hb, hgrants.consistent,
    hgrants.isLive.trans hl⟩

theorem apply_eq (hb : env.registry.Below build.graph.modules.length) (hg : Consistent build.graph)
    (hl : build.graph.isLive id = true) (effects : Effects) :
    apply env build id effects = .ok (build.apply env id effects) := by
  have hproperties : changeOn effects build.graph id = .ok (Build.changeOn effects build.graph id) := by
    unfold changeOn Build.changeOn
    cases effects.properties with
    | none => rfl
    | some properties => exact setProperties_eq (Graph.lt_of_isLive hl) properties
  have hrequests : effects.requests.foldlM (request env id)
      ⟨Build.changeOn effects build.graph id, build.errors ++ effects.errors⟩ =
        .ok (build.applyUnsplit env id effects) := by
    refine requests_eq hr ?_ (Build.consistent_changeOn effects hg) ((Build.isLive_changeOn ..).trans hl) _
    rw [(Build.sameHeaders_changeOn effects build.graph id).length]
    exact hb
  rw [apply, hproperties, ok_bind, hrequests, ok_bind, Build.apply_eq]
  cases effects.split with
  | none => rfl
  | some axis =>
    have hy := Build.yields_applyUnsplit effects hb hg hl
    dsimp only
    rw [split_eq hy.consistent.toLinked (hy.isLive_self hl), ok_bind]
    rfl

theorem applyAll_eq {visits : List (VariantId × Effects)} (h : Build.Ready env visits build) :
    visits.foldlM (fun build (id, effects) => apply env build id effects) build =
      .ok (build.applyAll env visits) := by
  refine foldlM_eq_ok (motive := Build.Ready env) ?_ h
  rintro ⟨id, effects⟩ rest build h
  exact ⟨apply_eq hr h.below h.consistent (h.live _ List.mem_cons_self) effects, h.rest⟩

theorem runWave_eq {visitor : Visitor} {wave : List VariantId}
    (h : Build.Ready env (wave.map fun id => (id, visitor.stage.visit env build.graph id)) build) :
    runWave env visitor build wave = .ok (build.runWave env visitor.stage wave) := by
  rw [runWave, mapM_eq_ok, ok_bind, applyAll_eq hr h, Build.runWave_eq]
  intro id hid
  rw [visit_eq h.consistent (h.live _ (List.mem_map_of_mem hid)), ok_bind]
  rfl

end

/-! ## Stages -/

/-- Runs a stage over a graph. -/
def run (env : Environment) (visitor : Visitor) (graph : Graph) : Found Build := do
  match ← waves graph with
  | .error path => return ⟨graph, [← cycleError graph path]⟩
  | .ok waves =>
    let build ← (visitor.stage.direction.arrange waves).foldlM (runWave env visitor) ⟨graph, []⟩
    return { build with errors := build.errors ++ (← missingErrors build.graph) }

/-- Runs stages one after another, up to the first one with errors. -/
def runAll (env : Environment) : List Visitor → Graph → Found Build
  | [], graph => do
    match ← findCycle? graph with
    | some path => return ⟨graph, [← cycleError graph path]⟩
    | none => return ⟨graph, []⟩
  | visitor :: rest, graph => do
    let build ← run env visitor graph
    if build.errors = [] then runAll env rest build.graph else return build

/-- Takes over defaults, then runs stages, up to the first step with errors. -/
def runWithDefaults (env : Environment) (visitors : List Visitor) (graph : Graph) : Found Build := do
  let build ← propagate env.registry env.types graph
  if build.errors = [] then runAll env visitors build.graph else return build

/-- The cycle that keeps a graph from having waves is one of live variants. -/
theorem isLive_of_waves {path : List VariantId} (h : graph.waves = .error path) :
    ∀ id ∈ path, graph.isLive id = true := by
  unfold Graph.waves at h
  split at h
  · cases h
  · cases h
    cases hpath : graph.findCycle? with
    | none => exact fun id hid => absurd hid List.not_mem_nil
    | some path => exact isLive_of_findCycle? hpath

section
variable (hr : env.registry.Rooted)
include hr

theorem runWaves_eq (hb : env.registry.Below graph.modules.length) (hg : Consistent graph) {visitor : Visitor}
    {waves : List (List VariantId)} (h : graph.waves = .ok waves) :
    (visitor.stage.direction.arrange waves).foldlM (runWave env visitor) ⟨graph, []⟩ =
      .ok ((visitor.stage.direction.arrange waves).foldl (Build.runWave env visitor.stage) ⟨graph, []⟩) := by
  have horder := perm_arrange visitor.stage.direction h
  have hnodup := horder.nodup_iff.2 (Graph.nodup_liveIds graph)
  generalize visitor.stage.direction.arrange waves = order at *
  have hunder (k : Nat) (hk : k ≤ order.length) : Underway env visitor.stage graph order k :=
    underway hb hnodup hg horder k hk
  -- the waves to come are those of the order from some point on
  refine foldlM_eq_ok (motive := fun rest build => ∃ k, rest = order.drop k ∧
    build = visitor.stage.reached env graph order k) ?_ ⟨0, rfl, rfl⟩
  rintro wave rest build ⟨k, hrest, rfl⟩
  have hk : order[k]? = some wave := by rw [← List.head?_drop, ← hrest]; rfl
  have hle : k ≤ order.length := Nat.le_of_lt (List.getElem?_eq_some_iff.1 hk).1
  refine ⟨runWave_eq hr ((hunder k hle).ready hb hnodup hk), k + 1, ?_, (Stage.reached_succ hk).symm⟩
  rw [← List.tail_drop, ← hrest]
  rfl

theorem run_eq (hb : env.registry.Below graph.modules.length) (hg : Consistent graph) (visitor : Visitor) :
    run env visitor graph = .ok (visitor.stage.run env graph) := by
  have hkept := (visitor.stage.consistent_run env hb hg).1
  rw [run, waves_eq, ok_bind]
  unfold Stage.run at hkept ⊢
  cases hwaves : graph.waves with
  | error path =>
    dsimp only
    rw [cycleError_eq hg.toLinked (isLive_of_waves hwaves), ok_bind]
    rfl
  | ok waves =>
    rw [hwaves] at hkept
    dsimp only at hkept ⊢
    rw [runWaves_eq hr hb hg hwaves, ok_bind, missingErrors_eq hkept.toLinked, ok_bind]
    rfl

theorem runAll_eq (hb : env.registry.Below graph.modules.length) (hg : Consistent graph) (visitors : List Visitor) :
    runAll env visitors graph = .ok (Stage.runAll env (visitors.map Visitor.stage) graph) := by
  induction visitors generalizing graph with
  | nil =>
    rw [runAll, findCycle?_eq, ok_bind, List.map_nil, Stage.runAll]
    cases hpath : graph.findCycle? with
    | none => rfl
    | some path =>
      dsimp only
      rw [cycleError_eq hg.toLinked (isLive_of_findCycle? hpath), ok_bind]
      rfl
  | cons visitor rest ih =>
    obtain ⟨hconsistent, hheaders⟩ := visitor.stage.consistent_run env hb hg
    rw [runAll, run_eq hr hb hg, ok_bind, List.map_cons, Stage.runAll]
    split
    · exact ih (hheaders.length ▸ hb) hconsistent
    · rfl

/-- **No look-up fails while stages run**, whatever they ask for and find wrong. -/
theorem runWithDefaults_eq (hb : env.registry.Below graph.modules.length) (hg : Consistent graph)
    (visitors : List Visitor) :
    runWithDefaults env visitors graph = .ok (Stage.runWithDefaults env (visitors.map Visitor.stage) graph) := by
  have hshape := Defaults.propagate_sameShape env.registry env.types graph
  rw [runWithDefaults, propagate_eq hr hb hg, ok_bind, Stage.runWithDefaults]
  split
  · exact runAll_eq hr (by rw [hshape.modules]; exact hb) (hshape.consistent hg) visitors
  · rfl

end

end VariantGraph.Checked
