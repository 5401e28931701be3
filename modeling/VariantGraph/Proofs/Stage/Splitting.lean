import VariantGraph.Proofs.Stage.Outcome
import VariantGraph.Stage.Splitting
/-!
# What the splitting stages ask for

A split makes one variant for each value (`splits_splitAndSelect`); when no value comes twice, each
variant has selected the branches of its own keys (`splitAndSelect_eq`).
-/
namespace VariantGraph

namespace Visit

variable {visit : Visit} {axis field : String}

/-! ## Values of the new variants -/

theorem keys_replaceFirst {α : Type} (key : String) (value : α) (entries : List (String × α)) :
    (replaceFirst key value entries).map (·.1) = entries.map (·.1) := by
  induction entries with
  | nil => rfl
  | cons entry rest ih =>
    obtain ⟨name, old⟩ := entry
    unfold replaceFirst
    split
    · rfl
    · rw [List.map_cons, List.map_cons, ih]

/-- The error of a selection. -/
def selectionError? (visit : Visit) (properties : Properties) (field : String)
    (choice : String × List String) : Option BuildError :=
  (properties.select field choice.2).error?.map (.invalidProperty visit.origin)

theorem selectNew_eq (field : String) {value : String} {properties : Properties}
    {variations : List (String × Properties)}
    (hp : visit.newProperties? value = some properties)
    (hs : visit.effects.split = some ⟨axis, variations⟩) (keys : List String) :
    visit.selectNew value field keys = { visit with effects := { visit.effects with
      split := some ⟨axis, replaceFirst value (properties.select field keys).state variations⟩
      errors := visit.effects.errors ++
        (selectionError? visit properties field (value, keys)).toList } } := by
  simp only [selectNew, hp, selectionError?, setNewProperties, hs, Option.map_some]
  cases he : (properties.select field keys).error? with
  | none => simp [report]
  | some cause => simp [report, Visit.fail, Visit.origin, Visit.module, Visit.variant]

/-- A visit asks for a split with some values and nothing else. -/
structure Splits (visit : Visit) (axis : String) (values : List String) : Prop where
  properties : visit.effects.properties = none
  requests : visit.effects.requests = []
  split : ∃ variations, visit.effects.split = some ⟨axis, variations⟩ ∧ variations.map (·.1) = values

theorem Splits.selectNew {values : List String} (h : visit.Splits axis values) (value : String)
    (keys : List String) : (visit.selectNew value field keys).Splits axis values := by
  obtain ⟨variations, hs, hv⟩ := h.split
  cases hp : visit.newProperties? value with
  | none => unfold Visit.selectNew; rw [hp]; exact h
  | some properties =>
    rw [selectNew_eq _ hp hs]
    exact ⟨h.properties, h.requests, _, rfl, (keys_replaceFirst ..).trans hv⟩

theorem splitAndSelect_eq_foldl (visit : Visit) (axis field : String) (choices : List (String × List String)) :
    visit.splitAndSelect axis field choices =
      choices.foldl (fun visit choice => visit.selectNew choice.1 field choice.2)
        (visit.splitOn axis (choices.map (·.1))) := rfl

theorem splits_splitAndSelect (visit : Visit) (axis field : String) (h : visit.effects = .none)
    (choices : List (String × List String)) :
    (visit.splitAndSelect axis field choices).Splits axis (choices.map (·.1)) := by
  have hstart : (visit.splitOn axis (choices.map (·.1))).Splits axis (choices.map (·.1)) := by
    refine ⟨?_, ?_, _, rfl, ?_⟩
    · simp only [splitOn, h]; rfl
    · simp only [splitOn, h]; rfl
    · rw [List.map_map]; exact List.map_id _
  have hfold : ∀ (rest : List (String × List String)) (start : Visit) (values : List String),
      start.Splits axis values →
      (rest.foldl (fun visit choice => visit.selectNew choice.1 field choice.2) start).Splits axis values := by
    intro rest
    induction rest with
    | nil => exact fun _ _ hs => hs
    | cons choice rest ih => exact fun start values hs => ih _ _ (hs.selectNew choice.1 choice.2)
  exact hfold choices _ _ hstart

/-! ## Properties of the new variants -/

theorem find?_middle {α : Type} {before after : List (String × α)} {key : String} {value : α}
    (h : key ∉ before.map (·.1)) : Table.find? (before ++ (key, value) :: after) key = some value := by
  induction before with
  | nil => simp [Table.find?]
  | cons entry before ih =>
    obtain ⟨name, old⟩ := entry
    simp only [List.map_cons, List.mem_cons, not_or] at h
    rw [List.cons_append, Table.find?, if_neg (Ne.symm h.1)]
    exact ih h.2

theorem replaceFirst_middle {α : Type} {before after : List (String × α)} {key : String} {value new : α}
    (h : key ∉ before.map (·.1)) :
    replaceFirst key new (before ++ (key, value) :: after) = before ++ (key, new) :: after := by
  induction before with
  | nil => simp [replaceFirst]
  | cons entry before ih =>
    obtain ⟨name, old⟩ := entry
    simp only [List.map_cons, List.mem_cons, not_or] at h
    rw [List.cons_append, replaceFirst, if_neg (Ne.symm h.1), ih h.2, List.cons_append]

/-- The new variant for a value, with the branches selected that its keys name. -/
def selected (properties : Properties) (field : String) (choice : String × List String) :
    String × Properties := (choice.1, (properties.select field choice.2).state)

/-- With values that are all different, every new variant selects its own branches. -/
theorem splitAndSelect_eq (visit : Visit) (axis field : String) (choices : List (String × List String))
    (hv : (choices.map (·.1)).Nodup) :
    (visit.splitAndSelect axis field choices).effects =
      { visit.effects with
        split := some ⟨axis, choices.map (selected visit.properties field)⟩
        errors := visit.effects.errors ++
          choices.filterMap (selectionError? visit visit.properties field) } := by
  -- the choices already made stand before the others, whose variants have the old properties
  have hfold : ∀ (rest done : List (String × List String)) (current : Visit),
      ((done ++ rest).map (·.1)).Nodup → current.origin = visit.origin →
      current.effects.split = some ⟨axis, done.map (selected visit.properties field) ++
        rest.map fun choice => (choice.1, visit.properties)⟩ →
      (rest.foldl (fun visit choice => visit.selectNew choice.1 field choice.2) current).effects =
        { current.effects with
          split := some ⟨axis, (done ++ rest).map (selected visit.properties field)⟩
          errors := current.effects.errors ++
            rest.filterMap (selectionError? visit visit.properties field) } := by
    intro rest
    induction rest with
    | nil =>
      intro done current _ _ hs
      simp only [List.foldl_nil, List.append_nil, List.filterMap_nil]
      simp only [List.map_nil, List.append_nil] at hs
      rw [← hs]
    | cons choice rest ih =>
      intro done current hn ho hs
      obtain ⟨value, keys⟩ := choice
      have hfresh : value ∉ (done.map (selected visit.properties field)).map (·.1) := by
        have : (done.map (selected visit.properties field)).map (·.1) = done.map (·.1) := by
          rw [List.map_map]; rfl
        rw [this]
        rw [List.map_append, List.map_cons, List.nodup_append] at hn
        exact fun hmem => hn.2.2 value hmem value List.mem_cons_self rfl
      have hnew : current.newProperties? value = some visit.properties := by
        rw [newProperties?, hs, Option.bind_some]
        exact find?_middle hfresh
      have hstep := selectNew_eq field hnew hs keys
      rw [List.map_cons, replaceFirst_middle hfresh] at hstep
      have hdone : done ++ (value, keys) :: rest = (done ++ [(value, keys)]) ++ rest := by simp
      have herror : selectionError? current = selectionError? visit := by
        funext properties field choice
        rw [selectionError?, selectionError?, ho]
      rw [hdone] at hn ⊢
      rw [herror] at hstep
      rw [List.foldl_cons, hstep, ih _ _ hn (by exact ho) (by simp [selected]), List.filterMap_cons]
      cases selectionError? visit visit.properties field (value, keys) <;> simp
  rw [splitAndSelect_eq_foldl, hfold choices [] (visit.splitOn axis (choices.map (·.1))) (by simpa using hv) rfl
    (by simp [splitOn])]
  simp [splitOn]

end Visit
/-! ## The three stages as one -/

namespace Condition

/-- The stage that splits on the axis of a condition. -/
def stage : Condition → Stage
  | target => .os
  | arch => .arch
  | link => .link

/-- What a module has to be able to be split on. -/
def capability : Condition → Capability
  | target => .osVariants
  | arch => .archVariants
  | link => .linkVariants

/-- The conditional field whose branches the new variants select. -/
def field : Condition → String
  | target => "target"
  | arch => "arch"
  | link => "link"

/-- The values of the split, each with the branches that its variant selects. -/
def choices (config : Config) (variations : Variations) (properties : Properties) :
    Condition → List (String × List String)
  | target => Splitting.systems config properties
  | arch => (Splitting.archs config variations).map fun arch => (arch.name, [arch.name])
  | link => [(LinkMode.static, [LinkMode.static]), (LinkMode.shared, [LinkMode.shared])]

theorem single_field (condition : Condition) : pathComponents condition.field = [condition.field] := by
  cases condition <;> decide +kernel

theorem field_ne (condition : Condition) : condition.field ≠ "soong_config_variables" := by
  cases condition <;> decide

theorem field_injective {a b : Condition} (h : a.field = b.field) : a = b := by
  revert h; cases a <;> cases b <;> decide

theorem axis_injective {a b : Condition} (h : a.axis = b.axis) : a = b := by
  revert h; cases a <;> cases b <;> decide

end Condition

theorem Os.name_injective {a b : Os} (h : a.name = b.name) : a = b := by
  revert h; cases a <;> cases b <;> decide

theorem Arch.name_injective {a b : Arch} (h : a.name = b.name) : a = b := by
  revert h; cases a <;> cases b <;> decide

/-- No value of a split comes twice, unless an architecture is listed twice or the host is the device. -/
theorem nodup_choices {config : Config} (harchs : config.device.archs.Nodup)
    (hos : config.host.os ≠ config.device.os) (variations : Variations) (properties : Properties)
    (condition : Condition) : ((condition.choices config variations properties).map (·.1)).Nodup := by
  cases condition with
  | target =>
    have hne : config.device.os.name ≠ config.host.os.name := fun he => hos (Os.name_injective he).symm
    simp only [Condition.choices, Splitting.systems]
    split <;> split <;> simp [hne]
  | arch =>
    have hall : (Splitting.archs config variations).Nodup := by
      unfold Splitting.archs
      split
      · exact List.pairwise_singleton _ _
      · exact harchs
    simp only [Condition.choices, List.map_map]
    exact List.pairwise_map.2 (hall.imp fun hne he => hne (Arch.name_injective he))
  | link => exact (by decide : [LinkMode.static, LinkMode.shared].Nodup)

variable {env : Environment} {graph : Graph} {id : VariantId}

/-- A stage that leaves modules without a capability alone. -/
theorem effects_of_can {visit act : Visit} (h : visit.effects = .none) (capability : Capability) :
    (if visit.can capability then act else visit).effects =
      if (visit.graph.moduleOf visit.id).can capability = true then act.effects else .none := by
  have hcan : visit.can capability = (visit.graph.moduleOf visit.id).can capability := rfl
  rw [hcan]
  split
  · rfl
  · exact h

/-- The visit of a splitting stage, by whether the module can be split. -/
theorem visit_stage (env : Environment) (graph : Graph) (id : VariantId) (condition : Condition) :
    condition.stage.visit env graph id =
      if (graph.moduleOf id).can condition.capability = true then
        if condition = .target ∧
            condition.choices env.config (graph.variant id).variations (graph.variant id).properties = [] then
          (Visit.blame ⟨"os", env, graph, id, .none⟩ none .unsupportedEverywhere).effects
        else (Visit.splitAndSelect ⟨condition.stage.name, env, graph, id, .none⟩ condition.axis condition.field
          (condition.choices env.config (graph.variant id).variations (graph.variant id).properties)).effects
      else .none := by
  cases condition with
  | target =>
    show (Splitting.splitByOs ⟨"os", env, graph, id, .none⟩).effects = _
    unfold Splitting.splitByOs
    rw [effects_of_can rfl]
    refine if_congr Iff.rfl ?_ rfl
    cases hs : Splitting.systems env.config (graph.variant id).properties with
    | nil =>
      have hv : Splitting.systems env.config (Visit.properties ⟨"os", env, graph, id, .none⟩) = [] := hs
      rw [hv, if_pos ⟨rfl, hs⟩]
    | cons choice rest =>
      have hv : Splitting.systems env.config (Visit.properties ⟨"os", env, graph, id, .none⟩) =
          choice :: rest := hs
      have hne : ¬ (Condition.target = .target ∧ Condition.choices env.config (graph.variant id).variations
          (graph.variant id).properties .target = []) := fun h => by
        have := hs.symm.trans h.2
        cases this
      rw [hv, if_neg hne]
      simp only [Condition.choices, hs]; rfl
  | arch =>
    show (Splitting.splitByArch ⟨"arch", env, graph, id, .none⟩).effects = _
    unfold Splitting.splitByArch
    rw [effects_of_can rfl]
    refine if_congr Iff.rfl ?_ rfl
    rw [if_neg (by simp)]; rfl
  | link =>
    show (Splitting.splitByLink ⟨"link", env, graph, id, .none⟩).effects = _
    unfold Splitting.splitByLink
    rw [effects_of_can rfl]
    refine if_congr Iff.rfl ?_ rfl
    rw [if_neg (by simp)]; rfl

/-- A splitting stage asks for no dependencies, and for no split on another axis. -/
theorem effects_stage (env : Environment) (graph : Graph) (id : VariantId) (condition : Condition) :
    (condition.stage.visit env graph id).requests = [] ∧
      ∀ split, (condition.stage.visit env graph id).split = some split → split.axis = condition.axis := by
  rw [visit_stage]
  split
  · split
    · exact ⟨rfl, fun _ hsplit => nomatch hsplit⟩
    · have hsplits := Visit.splits_splitAndSelect ⟨condition.stage.name, env, graph, id, .none⟩ condition.axis
        condition.field rfl (condition.choices env.config (graph.variant id).variations (graph.variant id).properties)
      obtain ⟨variations, hs, -⟩ := hsplits.split
      refine ⟨hsplits.requests, fun split hsplit => ?_⟩
      obtain rfl := Option.some.inj (hs.symm.trans hsplit)
      rfl
  · exact ⟨rfl, fun _ hsplit => nomatch hsplit⟩

/-- Without errors a system is among the choices, and so is an architecture if the device has one. -/
theorem visit_splits (condition : Condition) (hcan : (graph.moduleOf id).can condition.capability = true)
    (harchs : env.config.device.archs ≠ [])
    (h : (condition.stage.visit env graph id).errors = []) :
    condition.choices env.config (graph.variant id).variations (graph.variant id).properties ≠ [] ∧
    condition.stage.visit env graph id =
      (Visit.splitAndSelect ⟨condition.stage.name, env, graph, id, .none⟩ condition.axis condition.field
        (condition.choices env.config (graph.variant id).variations (graph.variant id).properties)).effects := by
  rw [visit_stage, if_pos hcan] at h ⊢
  split at h
  · cases h
  · next hne =>
    rw [if_neg hne]
    refine ⟨?_, rfl⟩
    cases condition with
    | target => exact fun he => hne ⟨rfl, he⟩
    | arch =>
      simp only [Condition.choices, Splitting.archs, ne_eq, List.map_eq_nil_iff]
      split
      · exact List.cons_ne_nil _ _
      · exact harchs
    | link => exact List.cons_ne_nil _ _

/-! ## What becomes of a variant -/

section Becoming
open VariantGraph.Graph

variable {start : Graph} {u : VariantId} {w : Variant} {condition : Condition} {effects : Effects}

/-- A variant of a module that cannot be split stays as it is. -/
theorem Visited.becomes_self (h : Visited env condition.stage start u effects)
    (hcan : (start.moduleOf u).can condition.capability = false) :
    w ∈ becomes env start u effects ↔ w = (start.variant u).bare := by
  obtain ⟨graph, hh, hbare, rfl⟩ := h.seen
  have hnone : condition.stage.visit env graph u = .none := by
    rw [visit_stage, if_neg (by rw [moduleOf_can hh hbare, hcan]; exact Bool.false_ne_true)]
  rw [becomes, hnone]
  exact mem_outcome_of_unsplit rfl

/-- Any other variant becomes one new variant for each choice, and there is a choice. -/
theorem Visited.becomes_children (h : Visited env condition.stage start u effects)
    (hcan : (start.moduleOf u).can condition.capability = true) (harchs : env.config.device.archs ≠ []) :
    ∃ entries : List (String × Properties), entries ≠ [] ∧ entries.map (·.1) =
      (condition.choices env.config (start.variant u).variations (start.variant u).properties).map (·.1) ∧
      ∀ w, w ∈ becomes env start u effects ↔
        ∃ entry ∈ entries, w = (start.variant u).bare.child condition.axis entry.1 entry.2 := by
  obtain ⟨graph, hh, hbare, rfl⟩ := h.seen
  obtain ⟨hne, heq⟩ := visit_splits condition ((moduleOf_can hh hbare _).trans hcan) harchs h.clean
  have hsplits := Visit.splits_splitAndSelect ⟨condition.stage.name, env, graph, u, .none⟩
    condition.axis condition.field rfl
    (condition.choices env.config (graph.variant u).variations (graph.variant u).properties)
  obtain ⟨entries, hs, hv⟩ := hsplits.split
  have hentries : entries ≠ [] := fun he => by
    rw [he] at hv
    exact hne (List.map_eq_nil_iff.1 hv.symm)
  refine ⟨entries, hentries, ?_, fun w => ?_⟩
  · rw [hv, ← Variant.bare_properties (graph.variant u), ← Variant.bare_variations (graph.variant u), hbare]
    rfl
  · refine mem_outcome_of_split (by rw [heq]; exact hsplits.properties) (by rw [heq]; exact hsplits.requests)
      (by rw [heq]; exact hs) hentries

/-- A splitting stage adds a value on its axis at most. -/
theorem Turns.variations_stage (h : Turns env condition.stage start u w) :
    w.variations = (start.variant u).variations ∨
      ∃ value, w.variations = (start.variant u).variations.assign condition.axis value := by
  obtain ⟨effects, hv, hmem⟩ := h
  obtain ⟨graph, -, -, rfl⟩ := hv.seen
  rcases variations_of_mem_outcome hmem with he | ⟨split, value, hsplit, he⟩
  · exact Or.inl he
  · rw [(effects_stage env graph u condition).2 split hsplit] at he
    exact Or.inr ⟨value, he⟩

/-- A splitting stage leaves the keys of dependencies. -/
theorem Turns.keys_stage (h : Turns env condition.stage start u w) (k : ModuleId × Tag) :
    k ∈ w.dependencies.map Dependency.key ↔ k ∈ (start.variant u).dependencies.map Dependency.key := by
  obtain ⟨effects, hv, hmem⟩ := h
  obtain ⟨graph, -, -, rfl⟩ := hv.seen
  rw [mem_keys_outcome hmem, (effects_stage env graph u condition).1, Variant.keys_bare]
  simp

end Becoming

/-! ## What is selected -/

/-- A variant is split by a condition if its module can be, and then has selected its branches. -/
def SplitBy (config : Config) (module : Module) (condition : Condition) (before after : Variant) : Prop :=
  (module.can condition.capability = true ∧
    ∃ choice ∈ condition.choices config before.variations before.properties,
      (before.properties.select condition.field choice.2).error? = none ∧
      after = before.child condition.axis choice.1
        (before.properties.select condition.field choice.2).state) ∨
  (module.can condition.capability = false ∧ after = before)

variable {start : Graph} {u : VariantId} {w : Variant}

/-- What a condition makes of a variant of a module: one new variant for each choice, with its branches
selected, if the module can be split, and else the variant itself. -/
def splitInto (config : Config) (module : Module) (condition : Condition) (variant : Variant) : List Variant :=
  if module.can condition.capability then
    (condition.choices config variant.variations variant.properties).map fun choice =>
      variant.child condition.axis choice.1 (variant.properties.select condition.field choice.2).state
  else [variant]

section
variable {effects : Effects} {condition : Condition} (hnodup : env.config.device.archs.Nodup)
  (hos : env.config.host.os ≠ env.config.device.os) (harchs : env.config.device.archs ≠ [])
include hnodup hos harchs

/-- What a splitting stage makes of a variant, in order; no selection of it went wrong. -/
theorem Visited.becomes_splitInto (h : Visited env condition.stage start u effects) :
    becomes env start u effects =
        splitInto env.config (start.moduleOf u) condition (start.variant u).bare ∧
      ((start.moduleOf u).can condition.capability = true → ∀ choice ∈ condition.choices env.config
        (start.variant u).variations (start.variant u).properties,
          ((start.variant u).properties.select condition.field choice.2).error? = none) := by
  obtain ⟨graph, hh, hbare, rfl⟩ := h.seen
  have hcan := moduleOf_can hh hbare condition.capability
  have hproperties : (graph.variant u).properties = (start.variant u).properties := by
    rw [← Variant.bare_properties (graph.variant u), hbare, Variant.bare_properties]
  have hvariations : (graph.variant u).variations = (start.variant u).variations := by
    rw [← Variant.bare_variations (graph.variant u), hbare, Variant.bare_variations]
  cases hc : (start.moduleOf u).can condition.capability with
  | false =>
    have hnone : condition.stage.visit env graph u = .none := by
      rw [visit_stage, if_neg (by rw [hcan, hc]; exact Bool.false_ne_true)]
    rw [splitInto, hc, if_neg Bool.false_ne_true, becomes, hnone, outcome_of_unsplit rfl]
    exact ⟨rfl, fun h => absurd h Bool.false_ne_true⟩
  | true =>
    have hclean := h.clean
    obtain ⟨hne, heq⟩ := visit_splits condition (hcan.trans hc) harchs hclean
    have hfull := heq.trans (Visit.splitAndSelect_eq ⟨condition.stage.name, env, graph, u, .none⟩
      condition.axis condition.field _ (nodup_choices hnodup hos (graph.variant u).variations
        (graph.variant u).properties condition))
    rw [hproperties, hvariations] at hne hfull
    rw [hfull] at hclean
    refine ⟨?_, fun _ choice hchoice => ?_⟩
    · rw [becomes, outcome_of_split (by rw [hfull]; rfl) (by rw [hfull]; rfl) (by rw [hfull])
        (by simpa using hne), splitInto, hc, if_pos rfl, List.map_map]
      refine List.map_congr_left fun choice _ => ?_
      show _ = (start.variant u).bare.child _ _ ((start.variant u).properties.select _ _).state
      rw [← hproperties]
      rfl
    · have hnone := List.filterMap_eq_nil_iff.1 (List.append_eq_nil_iff.1 hclean).2 choice hchoice
      rw [← hproperties]
      exact Option.map_eq_none_iff.1 hnone

theorem Turns.splitBy (condition : Condition) (h : Turns env condition.stage start u w) :
    SplitBy env.config (start.moduleOf u) condition (start.variant u).bare w := by
  obtain ⟨effects, hv, hmem⟩ := h
  obtain ⟨heq, hselected⟩ := hv.becomes_splitInto hnodup hos harchs
  rw [heq, splitInto] at hmem
  cases hcan : (start.moduleOf u).can condition.capability with
  | false =>
    rw [hcan, if_neg Bool.false_ne_true] at hmem
    exact Or.inr ⟨hcan, List.mem_singleton.1 hmem⟩
  | true =>
    rw [hcan, if_pos rfl] at hmem
    obtain ⟨choice, hchoice, rfl⟩ := List.mem_map.1 hmem
    exact Or.inl ⟨hcan, choice, hchoice, hselected hcan choice hchoice, rfl⟩

end

end VariantGraph
