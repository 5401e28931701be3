import VariantGraph.Proofs.Stage.Chain
import VariantGraph.Proofs.Stage.Order
import VariantGraph.Proofs.Stage.Slots
/-!
# The variants of a module in closed form

The three splitting stages split every variant in its place, each by its own variations and properties
(`Stage.faces_split`). A module that starts with one variant so ends with one variant for each `Slot`, in
order, and its properties are those it started with after the selections that the slot names
(`Stage.faces_runAll`).
-/
namespace VariantGraph
open VariantGraph.Graph

/-! ## One split -/

/-- What is told of a variant: its variations and its properties. -/
abbrev Face := Variations × Except PropertyError Properties

/-- The face of a variant that there is. -/
def Variant.face (variant : Variant) : Face := (variant.variations, .ok variant.properties)

/-- Targets are not told by a face. -/
@[simp] theorem Variant.face_bare (variant : Variant) :
    variant.bare.face = (variant.variations, .ok variant.properties) := rfl

/-- The faces of what a condition makes of a variant. -/
def facesOf (config : Config) (module : Module) (condition : Condition) (variant : Variant) : List Face :=
  if module.can condition.capability then
    (condition.choices config variant.variations variant.properties).map fun choice =>
      (variant.variations.assign condition.axis choice.1,
        variant.properties.selecting condition.field choice.2)
  else [variant.face]

variable {env : Environment} {start : Graph}

section
variable (hnodup : env.config.device.archs.Nodup) (hos : env.config.host.os ≠ env.config.device.os)
  (harchs : env.config.device.archs ≠ [])
include hnodup hos harchs

/-- **A splitting stage splits every variant in its place**, and no selection of it goes wrong. -/
theorem Stage.faces_split (condition : Condition) (hb : env.registry.Below start.modules.length)
    (hc : Consistent start) (h : (condition.stage.sweep env start).errors = []) {m : ModuleId}
    (hm : m < start.modules.length) :
    ((condition.stage.sweep env start).graph.row m).map Variant.face =
      (start.row m).flatMap (facesOf env.config (start.module m) condition) := by
  obtain ⟨effects, hvisited, hrows⟩ := Stage.rows_sweep hb hc h
  rw [hrows m hm, List.map_flatMap, row, List.flatMap_map]
  refine List.flatMap_congr fun u hu => ?_
  obtain ⟨hlive, howner⟩ := hc.current m hm u hu
  have hmodule : start.moduleOf u = start.module m := by rw [moduleOf, howner]
  obtain ⟨hbecomes, hselected⟩ := (hvisited u hlive).becomes_splitInto hnodup hos harchs
  rw [hbecomes, hmodule]
  rw [hmodule] at hselected
  cases hcan : (start.module m).can condition.capability with
  | false => simp [splitInto, facesOf, hcan]
  | true =>
    simp only [splitInto, facesOf, hcan, if_true, List.map_map, Variant.bare_variations,
      Variant.bare_properties]
    refine List.map_congr_left fun choice hchoice => ?_
    rw [Properties.selecting, Attempt.outcome_eq_ok.2 ⟨hselected hcan choice hchoice, rfl⟩]
    rfl

end

/-- A stage that splits nothing leaves the variations of every variant. -/
theorem Stage.variations_unsplit {stage : Stage} (hb : env.registry.Below start.modules.length)
    (hc : Consistent start) (hs : ∀ graph u, (stage.visit env graph u).split = none)
    (h : (stage.sweep env start).errors = []) {m : ModuleId} (hm : m < start.modules.length) :
    ((stage.sweep env start).graph.row m).map (·.variations) = (start.row m).map (·.variations) := by
  obtain ⟨effects, hvisited, hrows⟩ := Stage.rows_sweep hb hc h
  rw [hrows m hm, List.map_flatMap, row, List.map_map, List.map_eq_flatMap]
  refine List.flatMap_congr fun u hu => ?_
  obtain ⟨graph, -, -, heffects⟩ := (hvisited u (hc.current m hm u hu).1).seen
  rw [becomes, outcome_of_unsplit (by rw [heffects]; exact hs graph u), List.map_singleton]
  congr 1
  exact (linkAll_same ..).2.1

/-! ## All splits -/

/-- What a condition makes of a face, if the values of its split depend on variations only. -/
def spread (config : Config) (module : Module) (condition : Condition) (face : Face) : List Face :=
  if module.can condition.capability then
    (condition.choices config face.1 []).map fun choice =>
      (face.1.assign condition.axis choice.1, face.2.bind (·.selecting condition.field choice.2))
  else [face]

theorem flatMap_facesOf (config : Config) (module : Module) {condition : Condition} (hne : condition ≠ .target)
    (row : List Variant) : row.flatMap (facesOf config module condition) =
      (row.map Variant.face).flatMap (spread config module condition) := by
  rw [List.flatMap_map]
  refine List.flatMap_congr fun variant _ => ?_
  cases condition with
  | target => exact absurd rfl hne
  | arch => rfl
  | link => rfl

theorem choices_target {config : Config} (hos : config.host.os ≠ config.device.os) (variations : Variations)
    (properties : Properties) : Condition.target.choices config variations properties =
      (systemsOf config properties).map fun os =>
        (os.name, if os = config.host.os then [os.name, hostBranch] else [os.name]) := by
  have hdevice : (properties.getBool? "device_supported").getD true = true ↔
      ¬ properties.getBool? "device_supported" = some false := by
    cases properties.getBool? "device_supported" with
    | none => simp
    | some value => cases value <;> simp
  have hhost : (properties.getBool? "host_supported").getD false = true ↔
      properties.getBool? "host_supported" = some true := by
    cases properties.getBool? "host_supported" with
    | none => simp
    | some value => cases value <;> simp
  simp only [Condition.choices, Splitting.systems, systemsOf, List.map_append, hdevice, hhost]
  congr 1
  · by_cases hp : properties.getBool? "device_supported" = some false <;> simp [hp, Ne.symm hos]
  · by_cases hp : properties.getBool? "host_supported" = some true <;> simp [hp]

theorem archs_os (config : Config) (os : Os) :
    Splitting.archs config [(Axis.os, os.name)] = archsOf config os := by
  have hvalue : Variations.value? [(Axis.os, os.name)] Axis.os = some os.name := rfl
  have hiff : os.name = config.host.os.name ↔ os = config.host.os :=
    ⟨Os.name_injective, congrArg Os.name⟩
  simp only [Splitting.archs, archsOf, hvalue, Option.some.injEq, hiff]

/-- The variant in a slot without a link mode comes of two splits. -/
theorem Slot.face_unlinked (os : Os) (arch : Arch) (host : Target) (properties : Properties) :
    ((Slot.mk os arch none).variations, (Slot.mk os arch none).properties host properties) =
      (Variations.assign [(Axis.os, os.name)] Axis.arch arch.name,
        (properties.selecting "target" (if os = host.os then [os.name, hostBranch] else [os.name])).bind
          (·.selecting "arch" [arch.name])) := by
  refine Prod.ext rfl ?_
  simp only [Slot.properties, Slot.selections, Option.map_none, Option.toList_none, List.append_nil,
    List.foldlM_cons, List.foldlM_nil, bind_pure]
  rfl

/-- The variant in a slot with a link mode comes of one more split. -/
theorem Slot.face_linked (os : Os) (arch : Arch) (mode : String) (host : Target) (properties : Properties) :
    ((Slot.mk os arch (some mode)).variations, (Slot.mk os arch (some mode)).properties host properties) =
      ((Slot.mk os arch none).variations.assign Axis.link mode,
        ((Slot.mk os arch none).properties host properties).bind (·.selecting "link" [mode])) := by
  refine Prod.ext rfl ?_
  simp only [Slot.properties, Slot.selections, Option.map_none, Option.map_some, Option.toList_none,
    Option.toList_some, List.append_nil, List.foldlM_append, List.foldlM_cons, List.foldlM_nil, bind_pure]
  rfl

/-- Three splits fill the slots of a module in order. -/
theorem spread_spread {config : Config} (hos : config.host.os ≠ config.device.os) {module : Module}
    (harch : module.can .archVariants = module.can .osVariants)
    (hlink : module.can .linkVariants = true → module.can .osVariants = true) {base : Variant}
    (hbase : base.variations = []) :
    ((facesOf config module .target base).flatMap (spread config module .arch)).flatMap
        (spread config module .link) =
      if module.can .osVariants then
        (slotsOf config module base.properties).map fun slot =>
          (slot.variations, slot.properties config.host base.properties)
      else [([], .ok base.properties)] := by
  cases hcan : module.can .osVariants with
  | false =>
    have hno : module.can .linkVariants = false := by
      rw [Bool.eq_false_iff]
      intro hl
      rw [hlink hl] at hcan
      cases hcan
    simp [facesOf, spread, Condition.capability, hcan, harch, hno, Variant.face, hbase]
  | true =>
    simp only [facesOf, Condition.capability, hcan, if_true, choices_target hos, List.map_map, List.flatMap_map,
      List.flatMap_assoc, slotsOf, List.map_flatMap]
    refine List.flatMap_congr fun os _ => ?_
    simp only [spread, Condition.capability, harch, hcan, if_true]
    have hos : base.variations.assign Condition.target.axis os.name = [(Axis.os, os.name)] := by
      rw [hbase]; rfl
    have harchs : Condition.arch.choices config [(Axis.os, os.name)] [] =
        (archsOf config os).map fun arch => (arch.name, [arch.name]) := by
      rw [Condition.choices, archs_os]
    simp only [Function.comp_apply, hos, harchs, List.map_map, List.flatMap_map]
    refine List.flatMap_congr fun arch _ => ?_
    have hface : (Variations.assign [(Axis.os, os.name)] Condition.arch.axis arch.name,
        (base.properties.selecting Condition.target.field
          (if os = config.host.os then [os.name, hostBranch] else [os.name])).bind
            (·.selecting Condition.arch.field [arch.name])) =
          ((Slot.mk os arch none).variations, (Slot.mk os arch none).properties config.host base.properties) :=
      (Slot.face_unlinked os arch config.host base.properties).symm
    simp only [hface]
    cases hl : module.can .linkVariants with
    | false => simp [spread, Condition.capability, hl, linksOf]
    | true =>
      simp only [spread, Condition.capability, hl, linksOf, if_true, List.map_cons, List.map_nil,
        Function.comp_apply, Slot.face_linked]
      rfl

/-! ## All stages -/

theorem facesOf_congr (config : Config) {a b : Module} (h : a.header = b.header) :
    facesOf config a = facesOf config b := by
  funext condition variant
  unfold facesOf
  rw [Module.can_congr h]

/-- A graph to which some stages without errors lead from another one. -/
structure Swept (env : Environment) (start graph : Graph) : Prop where
  below : env.registry.Below graph.modules.length
  consistent : Consistent graph
  headers : SameHeaders graph start

namespace Swept

variable {graph : Graph} (hs : Swept env start graph)
include hs

theorem sweep {stage : Stage} (h : (stage.sweep env graph).errors = []) :
    Swept env start (stage.sweep env graph).graph := by
  have ht := Stage.transition_sweep hs.below hs.consistent h
  exact ⟨ht.below hs.below, ht.consistent, ht.headers.trans hs.headers⟩

theorem variations {stage : Stage} (hsplit : ∀ graph u, (stage.visit env graph u).split = none)
    (h : (stage.sweep env graph).errors = []) {m : ModuleId} (hm : m < start.modules.length) :
    ((stage.sweep env graph).graph.row m).map (·.variations) = (graph.row m).map (·.variations) :=
  Stage.variations_unsplit hs.below hs.consistent hsplit h (by rw [hs.headers.length]; exact hm)

theorem faces (hnodup : env.config.device.archs.Nodup) (hos : env.config.host.os ≠ env.config.device.os)
    (harchs : env.config.device.archs ≠ []) (condition : Condition)
    (h : (condition.stage.sweep env graph).errors = []) {m : ModuleId} (hm : m < start.modules.length) :
    ((condition.stage.sweep env graph).graph.row m).map Variant.face =
      (graph.row m).flatMap (facesOf env.config (start.module m) condition) := by
  rw [← facesOf_congr _ (hs.headers.header m)]
  exact Stage.faces_split hnodup hos harchs condition hs.below hs.consistent h
    (by rw [hs.headers.length]; exact hm)

end Swept

/-- **The final variants of a module in closed form.** When the built-in stages were run without errors
on a module with one variant, that variant is the only one, unsplit, up to the first splitting stage,
and the final ones are it, or one for each slot of its properties there if the module can be split. -/
theorem Stage.faces_runAll (hb : env.registry.Below start.modules.length) (hc : Consistent start)
    (hnodup : env.config.device.archs.Nodup) (hos : env.config.host.os ≠ env.config.device.os)
    (harchs : env.config.device.archs ≠ []) (h : (Stage.runAll env Stage.builtin start).errors = [])
    {m : ModuleId} (hm : m < start.modules.length) (hwhole : (start.row m).map (·.variations) = [[]])
    (harch : (start.module m).can .archVariants = (start.module m).can .osVariants)
    (hlink : (start.module m).can .linkVariants = true → (start.module m).can .osVariants = true) :
    ∃ base, (Stage.after env [.configVariables, .dependencies] start).row m = [base] ∧
      ((Stage.runAll env Stage.builtin start).graph.row m).map Variant.face =
        if (start.module m).can .osVariants then
          (slotsOf env.config (start.module m) base.properties).map fun slot =>
            (slot.variations, slot.properties env.config.host base.properties)
        else [([], .ok base.properties)] := by
  have hrun := Stage.runAll_graph h
  simp only [Stage.builtin, Stage.runAll_cons_iff] at h
  obtain ⟨h1, -, h2, -, h3, -, h4, -, h5, -, h6, -⟩ := h
  have hkept : Stage.after env Stage.builtin start =
      Stage.after env [.configVariables, .dependencies, .os, .arch, .link] start :=
    (DependencyCheck.passed_of_errors h6).1
  rw [hrun, hkept]
  have s0 : Swept env start start := ⟨hb, hc, .refl start⟩
  have s1 := s0.sweep h1
  have s2 := s1.sweep h2
  have s3 := s2.sweep h3
  have s4 := s3.sweep h4
  -- up to the first split only properties and dependencies change
  have hsettled := s0.variations (fun graph u => (ConfigVariables.visit_spec env graph u).2.1) h1 hm
  have hwired := s1.variations
    (fun graph u => (Dependencies.effects_act ⟨"deps", env, graph, u, .none⟩ rfl).2.1) h2 hm
  obtain ⟨base, hbase, hvariations⟩ := List.map_eq_singleton_iff.1 (hwired.trans (hsettled.trans hwhole))
  refine ⟨base, hbase, ?_⟩
  -- each split goes on from the faces that the one before has left
  have hfaces : ((Stage.after env [.configVariables, .dependencies, .os, .arch, .link] start).row m).map
      Variant.face = ((facesOf env.config (start.module m) .target base).flatMap
        (spread env.config (start.module m) .arch)).flatMap (spread env.config (start.module m) .link) := by
    have f3 := s2.faces hnodup hos harchs .target h3 hm
    have f4 := s3.faces hnodup hos harchs .arch h4 hm
    have f5 := s4.faces hnodup hos harchs .link h5 hm
    rw [hbase, List.flatMap_singleton] at f3
    rw [flatMap_facesOf _ _ (by decide)] at f4 f5
    exact f5.trans (congrArg (List.flatMap _) (f4.trans (congrArg (List.flatMap _) f3)))
  rw [hfaces, spread_spread hos harch hlink hvariations]

end VariantGraph
