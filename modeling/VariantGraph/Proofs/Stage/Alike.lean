import VariantGraph.Proofs.Graph.Renaming
import VariantGraph.Proofs.Stage.DependencyCheck
import VariantGraph.Stage.Builtin
/-!
# What a stage asks for does not depend on numbers

What is asked for on a visit names modules by references and variants by values, never by numbers. A visit
reads the properties and variations of the variant, the header of its module, the configuration and the
types; if two visits agree in these (`Visit.Alike`), every step of a stage keeps them in agreement. Only
the check of dependencies looks at other variants, and it asks them for their properties. So the built-in
stages ask for the same on graphs that differ in their numbers (`blind_builtin`).
-/
namespace VariantGraph
open VariantGraph.Graph

/-- Two visits of which a stage can see the same. -/
structure Visit.Alike (a b : Visit) : Prop where
  stage : b.stage = a.stage
  config : b.env.config = a.env.config
  types : b.env.types = a.env.types
  header : b.module.header = a.module.header
  variations : b.variant.variations = a.variant.variations
  current : b.variant.properties = a.variant.properties
  effects : b.effects = a.effects

namespace Visit.Alike

variable {a b : Visit}

/-- One step that a stage takes alike on visits that are alike. -/
theorem foldl {α : Type} {step : Visit → α → Visit} (hstep : ∀ a b item, Alike a b → Alike (step a item) (step b item))
    (items : List α) (h : Alike a b) : Alike (items.foldl step a) (items.foldl step b) := by
  induction items generalizing a b with
  | nil => exact h
  | cons item items ih => exact ih (hstep a b item h)

variable (h : Alike a b)
include h

theorem properties : b.properties = a.properties := by rw [Visit.properties, h.effects, h.current]; rfl

theorem can (capability : Capability) : b.can capability = a.can capability := Module.can_congr h.header capability

theorem origin : b.origin = a.origin := by
  rw [Visit.origin, Module.name_congr h.header, Module.package_congr h.header]
  rfl

theorem moduleType? : b.moduleType? = a.moduleType? := by
  rw [Visit.moduleType?, h.types, Module.moduleType_congr h.header]
  rfl

/-- What is asked for may change, as long as it changes alike. -/
theorem withEffects (effects : Effects) : Alike { a with effects } { b with effects } :=
  ⟨h.stage, h.config, h.types, h.header, h.variations, h.current, rfl⟩

/-! ## Steps of a stage -/

theorem setProperties (properties : Properties) : Alike (a.setProperties properties) (b.setProperties properties) := by
  unfold Visit.setProperties
  rw [h.effects]
  exact h.withEffects _

theorem depend (request : Request) : Alike (a.depend request) (b.depend request) := by
  unfold Visit.depend
  rw [h.effects]
  exact h.withEffects _

theorem fail (error : BuildError) : Alike (a.fail error) (b.fail error) := by
  unfold Visit.fail
  rw [h.effects]
  exact h.withEffects _

theorem blame (property : Option String) (fault : StageFault) :
    Alike (a.blame property fault) (b.blame property fault) := by
  unfold Visit.blame
  rw [h.stage, h.origin]
  exact h.fail _

theorem report (cause : Option PropertyError) : Alike (a.report cause) (b.report cause) := by
  unfold Visit.report
  cases cause with
  | none => exact h
  | some cause =>
    rw [h.origin]
    exact h.fail _

theorem change {α : Type} (attempt : Attempt Properties α) : Alike (a.change attempt) (b.change attempt) :=
  (h.setProperties attempt.state).report attempt.error?

theorem splitOn (axis : String) (values : List String) : Alike (a.splitOn axis values) (b.splitOn axis values) := by
  unfold Visit.splitOn
  rw [h.effects, h.properties]
  exact h.withEffects _

theorem setNewProperties (value : String) (properties : Properties) :
    Alike (a.setNewProperties value properties) (b.setNewProperties value properties) := by
  unfold Visit.setNewProperties
  rw [h.effects]
  exact h.withEffects _

theorem selectNew (value field : String) (keys : List String) :
    Alike (a.selectNew value field keys) (b.selectNew value field keys) := by
  have hnew : b.newProperties? value = a.newProperties? value := by
    rw [Visit.newProperties?, h.effects]
    rfl
  unfold Visit.selectNew
  rw [hnew]
  cases a.newProperties? value with
  | none => exact h
  | some properties => exact (h.setNewProperties value _).report _

theorem splitAndSelect (axis field : String) (choices : List (String × List String)) :
    Alike (a.splitAndSelect axis field choices) (b.splitAndSelect axis field choices) :=
  foldl (fun _ _ choice h => h.selectNew choice.1 field choice.2) choices (h.splitOn axis _)

/-! ## The built-in stages -/

theorem configVariables : Alike (ConfigVariables.act a) (ConfigVariables.act b) := by
  have hsettle : ∀ (a b : Visit) (entry : String × Value), Alike a b →
      Alike (ConfigVariables.settle a entry.1 entry.2) (ConfigVariables.settle b entry.1 entry.2) := by
    intro a b entry h
    unfold ConfigVariables.settle
    rw [h.config, h.properties]
    split
    · exact h.blame _ _
    · exact h
    · exact h.change _
  unfold ConfigVariables.act
  rw [h.can, h.properties]
  split
  · exact h
  · split
    · exact h
    · exact foldl hsettle _ (h.setProperties _)

theorem dependencies : Alike (Dependencies.act a) (Dependencies.act b) := by
  unfold Dependencies.act
  rw [h.can, h.moduleType?, h.properties, h.config]
  split
  · exact h
  · split
    · exact h
    · exact foldl (fun _ _ request h => h.depend request) _
        (foldl (fun _ _ list h => h.blame (some list.property) .misplacedDependencies) _ h)

theorem splitByOs : Alike (Splitting.splitByOs a) (Splitting.splitByOs b) := by
  unfold Splitting.splitByOs
  rw [h.can, h.config, h.properties]
  split
  · split
    · exact h.blame _ _
    · exact h.splitAndSelect _ _ _
  · exact h

theorem splitByArch : Alike (Splitting.splitByArch a) (Splitting.splitByArch b) := by
  unfold Splitting.splitByArch
  rw [h.can, h.config, h.variations]
  split
  · exact h.splitAndSelect _ _ _
  · exact h

theorem splitByLink : Alike (Splitting.splitByLink a) (Splitting.splitByLink b) := by
  unfold Splitting.splitByLink
  rw [h.can]
  split
  · exact h.splitAndSelect _ _ _
  · exact h

end Visit.Alike

/-! ## Visits on graphs that differ in their numbers -/

/-- A stage that asks for the same on graphs that differ in their numbers. -/
def Stage.Blind (stage : Stage) : Prop :=
  ∀ ⦃σ φ : Equiv.Perm Nat⦄ ⦃env env' : Environment⦄ ⦃a b : Graph⦄, env'.config = env.config →
    env'.types = env.types → Graph.Renamed σ φ a b → Consistent a → Consistent b →
    ∀ v, a.isLive v = true → stage.visit env' b (φ v) = stage.visit env a v

theorem Stage.blind_ofVisit (name : String) (direction : Direction) {act : Visit → Visit}
    (hact : ∀ a b : Visit, a.Alike b → (act a).Alike (act b)) : (Stage.ofVisit name direction act).Blind := by
  intro σ φ env env' a b hconfig htypes h _ _ v hv
  have hstart : Visit.Alike ⟨name, env, a, v, .none⟩ ⟨name, env', b, φ v, .none⟩ :=
    ⟨rfl, hconfig, htypes, h.moduleOf_header (lt_of_isLive hv), h.variations v, h.properties v, rfl⟩
  exact (hact _ _ hstart).effects

/-- The check of dependencies looks at targets, which have the same properties. -/
theorem blind_dependencyCheck : Stage.dependencyCheck.Blind := by
  intro σ φ env env' a b _ _ h ha hb v hv
  have hhead := h.moduleOf_header (lt_of_isLive hv)
  have horigin : Visit.origin ⟨"dependency_check", env', b, φ v, .none⟩ =
      Visit.origin ⟨"dependency_check", env, a, v, .none⟩ := by
    show (⟨(b.moduleOf (φ v)).name, (b.moduleOf (φ v)).package⟩ : Origin) =
      ⟨(a.moduleOf v).name, (a.moduleOf v).package⟩
    rw [Module.name_congr hhead, Module.package_congr hhead]
  have hfault : ∀ d : Dependency,
      DependencyCheck.fault? b (d.rename σ φ) = DependencyCheck.fault? a d := by
    intro d
    simp only [DependencyCheck.fault?, Dependency.rename, h.can, Module.name_congr (h.header _), List.any_map,
      Function.comp_def, h.properties]
    rfl
  simp only [DependencyCheck.visit_eq, h.variant ha hb hv, Variant.rename,
    DependencyCheck.faults, List.filterMap_map, Function.comp_def, hfault, horigin]
  rfl

/-- **The built-in stages do not see numbers.** -/
theorem blind_builtin : ∀ stage ∈ Stage.builtin, stage.Blind := by
  simp only [Stage.builtin, List.forall_mem_cons]
  refine ⟨?_, ?_, ?_, ?_, ?_, blind_dependencyCheck, fun _ h => absurd h List.not_mem_nil⟩
  · exact Stage.blind_ofVisit _ _ fun _ _ h => h.configVariables
  · exact Stage.blind_ofVisit _ _ fun _ _ h => h.dependencies
  · exact Stage.blind_ofVisit _ _ fun _ _ h => h.splitByOs
  · exact Stage.blind_ofVisit _ _ fun _ _ h => h.splitByArch
  · exact Stage.blind_ofVisit _ _ fun _ _ h => h.splitByLink

end VariantGraph
