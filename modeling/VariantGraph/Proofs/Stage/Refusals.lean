import VariantGraph.Proofs.Defaults
import VariantGraph.Proofs.Stage.Faults
import VariantGraph.Proofs.Stage.Yield
/-!
# Which rules an error shows

A module that may not be used is reported with rules. They are the ones by which it was kept out: those in force for a
module of the graph, which no step of a run changes (`Build.Explains`). Only requests and lists of defaults find a module
that may not be used, so this is kept by whatever else a run does (`Explains.runWithDefaults`).
-/
namespace VariantGraph
open VariantGraph.Graph

/-- A package is kept out of a module of a graph by some rules: those of the module for dependencies on it, or for
taking over from it. -/
def KeptOut (registry : Registry) (graph : Graph) (visitor target package : String)
    (rules : List VisibilityRule) : Prop :=
  ∃ id < graph.modules.length, (graph.module id).name = target ∧ (graph.module id).package = package ∧
    ∃ own, (own = (graph.module id).visibility ∨ own = (graph.module id).defaultsVisibility) ∧
      registry.deniedBy? visitor own package = some rules

/-- If an error shows rules, they keep the package that it blames out of the module that it names. -/
def BuildError.Explained (registry : Registry) (graph : Graph) (error : BuildError) : Prop :=
  ∀ origin property target package rules, error = .notVisible origin property target package rules →
    KeptOut registry graph origin.package target package rules

theorem KeptOut.congr {registry : Registry} {a b : Graph} (h : SameHeaders a b) {visitor target package : String}
    {rules : List VisibilityRule} (hk : KeptOut registry a visitor target package rules) :
    KeptOut registry b visitor target package rules := by
  obtain ⟨id, hid, hname, hpackage, own, hown, hdenied⟩ := hk
  have hdefaults : (a.module id).defaultsVisibility = (b.module id).defaultsVisibility :=
    show (a.module id).header.defaultsVisibility = (b.module id).header.defaultsVisibility by rw [h.header]
  refine ⟨id, h.length ▸ hid, (Module.name_congr (h.header id)) ▸ hname, h.package id ▸ hpackage, own, ?_, hdenied⟩
  rw [← h.visibility, ← hdefaults]
  exact hown

theorem BuildError.OfVisit.explained {registry : Registry} {graph : Graph} {error : BuildError} (h : error.OfVisit) :
    error.Explained registry graph := by
  rintro _ _ _ _ _ rfl
  cases h

/-- Taking over defaults changes properties only. -/
theorem sameHeaders_propagate (registry : Registry) (types : TypeTable) (graph : Graph) :
    SameHeaders (Defaults.propagate registry types graph).graph graph :=
  have hshape := Defaults.propagate_sameShape registry types graph
  ⟨congrArg List.length hshape.modules, fun m => congrArg Module.header (hshape.module m)⟩

/-- A request that is refused is explained. -/
theorem Request.explained_of_answer {env : Environment} {graph : Graph} {user : Module} {request : Request}
    {error : BuildError} (hb : env.registry.Below graph.modules.length)
    (h : request.answer env graph user = .error error) : error.Explained env.registry graph := by
  rintro origin property target package rules rfl
  unfold answer at h
  dsimp only at h
  split at h
  · cases h
  · next id hresolved =>
    split at h
    · cases h
    · split at h
      · next hdenied =>
        cases h
        exact ⟨id, hb _ _ _ hresolved, rfl, rfl, _, .inl rfl, hdenied⟩
      · cases h

namespace Build

/-- What a build has left of a graph: the same modules, and errors that can be explained by them. -/
structure Explains (env : Environment) (start : Graph) (build : Build) : Prop where
  headers : SameHeaders build.graph start
  errors : ∀ error ∈ build.errors, error.Explained env.registry start

variable {env : Environment} {start : Graph} {build : Build}

theorem Explains.more (h : Explains env start build) {errors : List BuildError}
    (he : ∀ error ∈ errors, error.Explained env.registry start) :
    Explains env start { build with errors := build.errors ++ errors } :=
  ⟨h.headers, List.forall_mem_append.2 ⟨h.errors, he⟩⟩

theorem Explains.graph (h : Explains env start build) {graph : Graph} (hg : SameHeaders graph build.graph) :
    Explains env start { build with graph } := ⟨hg.trans h.headers, h.errors⟩

variable (hb : env.registry.Below start.modules.length)

section
include hb

theorem Explains.request (h : Explains env start build) (id : VariantId) (request : Request) :
    Explains env start (build.request env id request) := by
  rw [Build.request_eq]
  cases hanswer : request.answer env build.graph (build.graph.moduleOf id) with
  | error error =>
    have hbelow : env.registry.Below build.graph.modules.length := h.headers.length ▸ hb
    refine h.more (List.forall_mem_singleton.2 ?_)
    intro origin property target package rules he
    exact (Request.explained_of_answer hbelow hanswer _ _ _ _ _ he).congr h.headers
  | ok target => exact h.graph (sameHeaders_addCheckedDependency ..)

theorem Explains.apply (h : Explains env start build) (id : VariantId) {effects : Effects}
    (he : ∀ error ∈ effects.errors, error.OfVisit) : Explains env start (build.apply env id effects) := by
  have hvisit : Explains env start ⟨changeOn effects build.graph id, build.errors ++ effects.errors⟩ :=
    (h.more fun error herror => (he error herror).explained).graph (sameHeaders_changeOn effects build.graph id)
  have hunsplit : Explains env start (build.applyUnsplit env id effects) :=
    List.foldlRecOn (motive := Explains env start) _ _ hvisit fun _ hr request _ => hr.request hb id request
  rw [apply_eq_split]
  exact hunsplit.graph (sameHeaders_split ..)

theorem Explains.runWave {stage : Stage} (hs : stage.Calm env) (h : Explains env start build) (wave : List VariantId) :
    Explains env start (build.runWave env stage wave) := by
  unfold Build.runWave
  rw [List.foldl_map]
  exact List.foldlRecOn (motive := Explains env start) _ _ h fun _ hr id _ => hr.apply hb id (hs build.graph id)

/-- A stage keeps it, with all that it reports before and after its visits. -/
theorem Explains.run {stage : Stage} (hs : stage.Calm env) {graph : Graph} (hh : SameHeaders graph start) :
    Explains env start (stage.run env graph) := by
  have hstart : Explains env start ⟨graph, []⟩ := ⟨hh, fun _ h => absurd h List.not_mem_nil⟩
  unfold Stage.run
  split
  · refine ⟨hh, List.forall_mem_singleton.2 ?_⟩
    rintro _ _ _ _ _ ⟨⟩
  · refine Explains.more (List.foldlRecOn (motive := Explains env start) _ _ hstart
      fun _ hr wave _ => hr.runWave hb hs wave) fun error herror => ?_
    obtain ⟨_, -, rfl⟩ := List.mem_map.1 herror
    rintro _ _ _ _ _ ⟨⟩

theorem Explains.runAll {stages : List Stage} (hs : ∀ stage ∈ stages, stage.Calm env) {graph : Graph}
    (hh : SameHeaders graph start) : Explains env start (Stage.runAll env stages graph) := by
  induction stages generalizing graph with
  | nil =>
    unfold Stage.runAll
    split
    · refine ⟨hh, List.forall_mem_singleton.2 ?_⟩
      rintro _ _ _ _ _ ⟨⟩
    · exact ⟨hh, fun _ h => absurd h List.not_mem_nil⟩
  | cons stage stages ih =>
    obtain ⟨hstage, hstages⟩ := List.forall_mem_cons.1 hs
    have hrun : Explains env start (stage.run env graph) := Explains.run hb hstage hh
    unfold Stage.runAll
    dsimp only
    split
    · exact ih hstages hrun.headers
    · exact hrun

end

/-- **Every rule list in an error of a run is the one that kept a package out**, and no run changes a header. -/
theorem Explains.runWithDefaults {graph : Graph} (hb : env.registry.Below graph.modules.length) :
    Explains env graph (Stage.runWithDefaults env Stage.builtin graph) := by
  have hheaders := sameHeaders_propagate env.registry env.types graph
  unfold Stage.runWithDefaults
  dsimp only
  split
  · exact Explains.runAll hb (calm_builtin env) hheaders
  · refine ⟨hheaders, fun error herror => ?_⟩
    rintro origin property target package rules rfl
    rcases Defaults.mem_errors_propagate herror with hreference | ⟨_, heq⟩ | ⟨_, _, heq⟩
    · obtain ⟨_, -, _, -, hrefused⟩ := Defaults.mem_referenceErrors.1 hreference
      cases hrefused with
      | notVisible _ hcan hdenied => exact ⟨_, Defaults.lt_of_can hcan, rfl, rfl, _, .inr rfl, hdenied⟩
    · cases heq
    · cases heq

end Build
end VariantGraph
