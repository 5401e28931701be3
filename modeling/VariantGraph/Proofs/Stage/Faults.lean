import VariantGraph.Proofs.Defaults.References
import VariantGraph.Proofs.Stage.Run
import VariantGraph.Stage.Builtin
/-!
# Who reports what

A visit blames modules and their properties (`calm_builtin`), a request its reference, the search for missing variants a
dependency, and taking over defaults reports cycles of its own. So a dependency cycle is reported only where waves
are looked for: by a stage before its first visit, or after the last stage (`Stage.Calm.run`, `noCycleIn_propagate`).
-/
namespace VariantGraph
open VariantGraph.Graph

/-- No error is about a dependency cycle. -/
def NoCycleIn (errors : List BuildError) : Prop := ∀ path, .dependencyCycle path ∉ errors

theorem noCycleIn_nil : NoCycleIn [] := fun _ => List.not_mem_nil

theorem NoCycleIn.append {a b : List BuildError} (ha : NoCycleIn a) (hb : NoCycleIn b) : NoCycleIn (a ++ b) := fun path hmem =>
  (List.mem_append.1 hmem).elim (ha path) (hb path)

theorem NoCycleIn.snoc {errors : List BuildError} (h : NoCycleIn errors) {error : BuildError}
    (hne : ∀ path, error ≠ .dependencyCycle path) : NoCycleIn (errors ++ [error]) :=
  h.append fun path hmem => hne path (List.mem_singleton.1 hmem).symm

/-! ## Visits -/

/-- What a visit finds wrong by itself: a property of the module, or something that the stage blames it for. -/
inductive BuildError.OfVisit : BuildError → Prop
  | property (origin : Origin) (cause : PropertyError) : OfVisit (.invalidProperty origin cause)
  | stage (stage : String) (origin : Origin) (property : Option String) (fault : StageFault) :
      OfVisit (.stageFault stage origin property fault)

namespace Visit

/-- All that was found wrong so far was found by the visit itself. -/
def Calm (visit : Visit) : Prop := ∀ error ∈ visit.effects.errors, error.OfVisit

variable {visit : Visit}

section Calm
variable (h : visit.Calm)
include h

theorem Calm.blame (property : Option String) (fault : StageFault) : (visit.blame property fault).Calm :=
  List.forall_mem_append.2 ⟨h, List.forall_mem_singleton.2 (.stage ..)⟩

theorem Calm.report (cause : Option PropertyError) : (visit.report cause).Calm := by
  cases cause with
  | none => exact h
  | some cause => exact List.forall_mem_append.2 ⟨h, List.forall_mem_singleton.2 (.property ..)⟩

theorem Calm.change {α : Type} (attempt : Attempt Properties α) : (visit.change attempt).Calm := by
  have hset : (visit.setProperties attempt.state).Calm := h
  exact hset.report attempt.error?

theorem Calm.selectNew (value field : String) (keys : List String) : (visit.selectNew value field keys).Calm := by
  unfold Visit.selectNew
  split
  · exact h
  · next properties _ =>
    have hset : (visit.setNewProperties value (properties.select field keys).state).Calm := h
    exact hset.report _

theorem Calm.splitAndSelect (axis field : String) (choices : List (String × List String)) :
    (visit.splitAndSelect axis field choices).Calm :=
  List.foldlRecOn (motive := Visit.Calm) choices _ h fun _ hv choice _ => hv.selectNew choice.1 field choice.2

theorem Calm.settle (name : String) (entry : Value) : (ConfigVariables.settle visit name entry).Calm := by
  unfold ConfigVariables.settle
  split
  · exact h.blame _ _
  · exact h
  · exact h.change _

theorem Calm.configVariables : (ConfigVariables.act visit).Calm := by
  unfold ConfigVariables.act
  split
  · exact h
  · split
    · exact h
    · exact List.foldlRecOn (motive := Visit.Calm) _ _ h fun _ hv entry _ => hv.settle entry.1 entry.2

theorem Calm.dependencies : (Dependencies.act visit).Calm := by
  unfold Dependencies.act
  split
  · exact h
  · split
    · exact h
    · refine List.foldlRecOn (motive := Visit.Calm) _ _ ?_ fun _ hv _ _ => hv
      exact List.foldlRecOn (motive := Visit.Calm) _ _ h fun _ hv _ _ => hv.blame _ _

theorem Calm.splitByOs : (Splitting.splitByOs visit).Calm := by
  unfold Splitting.splitByOs
  split
  · split
    · exact h.blame _ _
    · exact h.splitAndSelect _ _ _
  · exact h

theorem Calm.splitByArch : (Splitting.splitByArch visit).Calm := by
  unfold Splitting.splitByArch
  split
  · exact h.splitAndSelect _ _ _
  · exact h

theorem Calm.splitByLink : (Splitting.splitByLink visit).Calm := by
  unfold Splitting.splitByLink
  split
  · exact h.splitAndSelect _ _ _
  · exact h

theorem Calm.dependencyCheck : (DependencyCheck.act visit).Calm := by
  unfold DependencyCheck.act
  split
  · exact h
  · refine List.foldlRecOn (motive := Visit.Calm) _ _ h fun v hv d _ => ?_
    split
    · exact hv.blame _ _
    · exact hv

end Calm
end Visit

/-- A stage whose visits report only what they find wrong by themselves. -/
def Stage.Calm (env : Environment) (stage : Stage) : Prop :=
  ∀ graph id, ∀ error ∈ (stage.visit env graph id).errors, error.OfVisit

theorem Stage.Calm.noCycleIn {env : Environment} {stage : Stage} (hs : stage.Calm env) (graph : Graph) (id : VariantId) :
    NoCycleIn (stage.visit env graph id).errors := fun path hmem => by cases hs graph id _ hmem

theorem calm_builtin (env : Environment) : ∀ stage ∈ Stage.builtin, stage.Calm env := by
  have hstart : ∀ (name : String) (graph : Graph) (id : VariantId), Visit.Calm ⟨name, env, graph, id, .none⟩ :=
    fun _ _ _ _ hmem => absurd hmem List.not_mem_nil
  simp only [Stage.builtin, List.forall_mem_cons]
  exact ⟨fun graph id => (hstart _ graph id).configVariables, fun graph id => (hstart _ graph id).dependencies,
    fun graph id => (hstart _ graph id).splitByOs, fun graph id => (hstart _ graph id).splitByArch,
    fun graph id => (hstart _ graph id).splitByLink, fun graph id => (hstart _ graph id).dependencyCheck,
    fun _ h => absurd h List.not_mem_nil⟩

/-! ## Stages -/

section Build
variable {env : Environment} {build : Build}

theorem NoCycleIn.request (h : NoCycleIn build.errors) (id : VariantId) (request : Request) :
    NoCycleIn (build.request env id request).errors := by
  unfold Build.request
  dsimp only
  split
  · exact h.snoc fun _ => BuildError.noConfusion
  · split
    · exact h.snoc fun _ => BuildError.noConfusion
    · split
      · exact h.snoc fun _ => BuildError.noConfusion
      · exact h

theorem NoCycleIn.apply (h : NoCycleIn build.errors) (id : VariantId) {effects : Effects} (he : NoCycleIn effects.errors) :
    NoCycleIn (build.apply env id effects).errors := by
  have hrequested : ∀ graph : Graph,
      NoCycleIn (effects.requests.foldl (Build.request env id) ⟨graph, build.errors ++ effects.errors⟩).errors :=
    fun graph => List.foldlRecOn (motive := fun build : Build => NoCycleIn build.errors) _ _ (h.append he)
      fun _ hb request _ => hb.request id request
  unfold Build.apply
  cases effects.split with
  | none => exact hrequested _
  | some split => exact hrequested _

theorem Graph.noCycleIn_missingErrors (graph : Graph) : NoCycleIn graph.missingErrors := by
  intro path hmem
  obtain ⟨_, -, he⟩ := List.mem_map.1 hmem
  cases he

theorem Stage.Calm.runWave {stage : Stage} (hs : stage.Calm env) (h : NoCycleIn build.errors)
    (wave : List VariantId) : NoCycleIn (build.runWave env stage wave).errors := by
  unfold Build.runWave
  rw [List.foldl_map]
  exact List.foldlRecOn (motive := fun build : Build => NoCycleIn build.errors) _ _ h
    fun _ hb id _ => hb.apply id (hs.noCycleIn build.graph id)

/-- **A stage reports a dependency cycle only if there are no waves.** -/
theorem Stage.Calm.run {stage : Stage} (hs : stage.Calm env) {graph : Graph} {waves : List (List VariantId)}
    (hw : graph.waves = .ok waves) : NoCycleIn (stage.run env graph).errors := by
  unfold Stage.run
  rw [hw]
  exact NoCycleIn.append (List.foldlRecOn (motive := fun build : Build => NoCycleIn build.errors)
    _ _ noCycleIn_nil fun _ hb wave _ => hs.runWave hb wave) (Graph.noCycleIn_missingErrors _)

end Build

/-! ## Defaults -/

/-- Taking over defaults reports entries that are refused, cycles of its own, and properties that cannot be merged. -/
theorem Defaults.mem_errors_propagate {registry : Registry} {types : TypeTable} {graph : Graph} {error : BuildError}
    (h : error ∈ (propagate registry types graph).errors) : error ∈ referenceErrors registry graph ∨
      (∃ path, error = .defaultsCycle path) ∨ ∃ origin cause, error = .invalidProperty origin cause := by
  unfold propagate at h
  dsimp only at h
  split at h
  · refine .inr (.inr ?_)
    revert h
    refine List.foldlRecOn (motive := fun build : Build => error ∈ build.errors → ∃ origin cause,
      error = .invalidProperty origin cause) _ _ (fun h => absurd h List.not_mem_nil) fun build hb id _ h => ?_
    unfold store at h
    dsimp only at h
    split at h
    · exact hb h
    · exact (List.mem_append.1 h).elim hb fun h => ⟨_, _, List.mem_singleton.1 h⟩
  · refine (List.mem_append.1 h).imp id fun h => .inl ?_
    obtain ⟨path, -, rfl⟩ := List.mem_map.1 h
    exact ⟨_, rfl⟩

theorem noCycleIn_propagate (registry : Registry) (types : TypeTable) (graph : Graph) :
    NoCycleIn (Defaults.propagate registry types graph).errors := by
  intro path hmem
  rcases Defaults.mem_errors_propagate hmem with hreference | ⟨_, heq⟩ | ⟨_, _, heq⟩
  · obtain ⟨_, -, _, -, hrefused⟩ := Defaults.mem_referenceErrors.1 hreference
    cases hrefused
  · cases heq
  · cases heq

end VariantGraph
