import VariantGraph.Proofs.Property.Select
import VariantGraph.Proofs.Stage.ConfigVariables
import VariantGraph.Proofs.Stage.Dependencies
import VariantGraph.Proofs.Stage.Splitting
import VariantGraph.Proofs.Variations
/-!
# What a fully split variant has selected

Each split selects, for its value, exactly the branches whose dependencies come from that value
(`matched_choices`). Selections on different axes do not disturb each other, so that the lists of a
fully split variant are those at the top followed by those of all selected branches (`Picked`).
-/
namespace VariantGraph
open Properties

/-- A value that a split gave a variant, with the keys of the branches that it selected. -/
structure Pick where
  condition : Condition
  value : String
  keys : List String

/-- The branches of a tree that a pick has selected. -/
def Pick.branches (pick : Pick) (properties : Properties) : List Properties :=
  chosen ((properties.getMap? pick.condition.field).getD []) pick.keys

/-- A variant after some picks, given the properties that it had before. -/
structure Picked (host : Target) (properties : Properties) (picks : List Pick) (variant : Variant) : Prop where
  lists : ∀ name, pathComponents name = [name] → (∀ condition : Condition, name ≠ condition.field) →
    variant.properties.getList name =
      properties.getList name ++ picks.flatMap fun pick => (pick.branches properties).flatMap (getList · name)
  /-- The conditional fields of the other axes are as they were. -/
  maps : ∀ condition : Condition, condition ∉ picks.map (·.condition) →
    variant.properties.getMap? condition.field = properties.getMap? condition.field
  axes : ∀ pick ∈ picks, variant.variations.value? pick.condition.axis = some pick.value
  /-- The keys are those of the branches that belong to the value. -/
  matched : ∀ pick ∈ picks, ∀ key, key ∈ pick.keys ↔
    Dependencies.branchValue pick.condition host key = pick.value

theorem Picked.nil (host : Target) (variant : Variant) : Picked host variant.properties [] variant := by
  refine ⟨fun _ _ _ => by simp, fun _ _ => rfl, ?_, ?_⟩
  · intro pick hp; cases hp
  · intro pick hp; cases hp

/-- A choice selects the branches whose dependencies come from its value. -/
theorem matched_choices {config : Config} (hos : config.host.os ≠ config.device.os) {condition : Condition}
    {variations : Variations} {properties : Properties} {choice : String × List String}
    (h : choice ∈ condition.choices config variations properties) (key : String) :
    key ∈ choice.2 ↔ Dependencies.branchValue condition config.host key = choice.1 := by
  unfold Dependencies.branchValue
  cases condition with
  | target =>
    have hne : config.host.os.name ≠ config.device.os.name := fun he => hos (Os.name_injective he)
    have hhost : hostBranch ≠ config.device.os.name := by
      cases config.device.os <;> decide
    simp only [Condition.choices, Splitting.systems, List.mem_append] at h
    rcases h with h | h
    · split at h
      · obtain rfl := List.mem_singleton.1 h
        by_cases hk : key = hostBranch
        · subst hk; simp [hhost, hne]
        · simp [hk]
      · cases h
    · split at h
      · obtain rfl := List.mem_singleton.1 h
        by_cases hk : key = hostBranch
        · subst hk; simp
        · simp [hk]
      · cases h
  | arch =>
    obtain ⟨arch, -, rfl⟩ := List.mem_map.1 h
    simp
  | link =>
    simp only [Condition.choices, List.mem_cons, List.not_mem_nil, or_false] at h
    rcases h with rfl | rfl <;> simp

/-- One more split, on an axis of its own. -/
theorem Picked.splitBy {config : Config} {module : Module} {properties : Properties} {picks : List Pick}
    {before after : Variant} {condition : Condition} (h : Picked config.host properties picks before)
    (hp : properties.NeatBy fieldDepth) (hos : config.host.os ≠ config.device.os)
    (hnew : condition ∉ picks.map (·.condition)) (hcan : module.can condition.capability = true)
    (hs : SplitBy config module condition before after) :
    ∃ pick : Pick, pick.condition = condition ∧ Picked config.host properties (picks ++ [pick]) after := by
  rcases hs with ⟨-, choice, hchoice, hok, rfl⟩ | ⟨hcannot, -⟩
  · have hmap := h.maps condition hnew
    have hbranches : ∀ branches, before.properties.getMap? condition.field = some branches →
        NeatBy (fun _ => 1) branches := fun branches hb =>
      hp.branches condition.single_field condition.field_ne (hmap ▸ hb)
    refine ⟨⟨condition, choice.1, choice.2⟩, rfl, ?_, ?_, ?_, ?_⟩
    · intro name hname hne
      show getList (before.properties.select condition.field choice.2).state name = _
      rw [getList_select hbranches hok condition.single_field hname (hne condition), h.lists name hname hne, hmap]
      simp [Pick.branches]
    · intro other hother
      simp only [List.map_append, List.map_cons, List.map_nil, List.mem_append, List.mem_singleton,
        not_or] at hother
      have hne : other.field ≠ condition.field := fun he => hother.2 (Condition.field_injective he)
      show getMap? (before.properties.select condition.field choice.2).state other.field = _
      rw [getMap?_select hbranches hok condition.single_field other.single_field hne, h.maps other hother.1]
    · intro pick hpick
      show (before.variations.assign condition.axis choice.1).value? pick.condition.axis = some pick.value
      rw [Variations.value?_assign]
      rcases List.mem_append.1 hpick with hpick | hpick
      · have hne : condition.axis ≠ pick.condition.axis := fun he =>
          hnew (Condition.axis_injective he ▸ List.mem_map.2 ⟨pick, hpick, rfl⟩)
        rw [if_neg hne]; exact h.axes pick hpick
      · obtain rfl := List.mem_singleton.1 hpick
        rw [if_pos rfl]
    · intro pick hpick
      rcases List.mem_append.1 hpick with hpick | hpick
      · exact h.matched pick hpick
      · obtain rfl := List.mem_singleton.1 hpick
        exact matched_choices hos hchoice
  · rw [hcan] at hcannot; cases hcannot

/-- Several splits, one after another. -/
def SplitByAll (config : Config) (module : Module) : List Condition → Variant → Variant → Prop
  | [], before, after => after = before
  | condition :: rest, before, after =>
    ∃ between, SplitBy config module condition before between ∧ SplitByAll config module rest between after

theorem SplitByAll.dependencies {config : Config} {module : Module} {conditions : List Condition}
    {before after : Variant} (h : SplitByAll config module conditions before after) :
    after.dependencies = before.dependencies := by
  induction conditions generalizing before with
  | nil => rw [h]
  | cons condition rest ih =>
    obtain ⟨between, hs, hrest⟩ := h
    have hsame := ih hrest
    rcases hs with ⟨-, choice, -, -, rfl⟩ | ⟨-, rfl⟩
    · exact hsame
    · exact hsame

/-- A variant has picked a value for each condition that its module can be split by. -/
theorem Picked.splitByAll {config : Config} {module : Module} {properties : Properties}
    {conditions : List Condition} {picks : List Pick} {before after : Variant}
    (h : Picked config.host properties picks before) (hp : properties.NeatBy fieldDepth)
    (hos : config.host.os ≠ config.device.os)
    (hnew : ∀ condition ∈ conditions, condition ∉ picks.map (·.condition))
    (hnodup : conditions.Nodup) (hs : SplitByAll config module conditions before after) :
    ∃ all, Picked config.host properties all after ∧
      all.map (·.condition) = picks.map (·.condition) ++
        conditions.filter fun condition => module.can condition.capability := by
  induction conditions generalizing picks before with
  | nil => rw [hs]; exact ⟨picks, h, by simp⟩
  | cons condition rest ih =>
    obtain ⟨between, hone, hrest⟩ := hs
    obtain ⟨hfresh, hnodup⟩ := List.nodup_cons.1 hnodup
    have hnewrest := fun c hc => hnew c (List.mem_cons_of_mem _ hc)
    cases hcan : module.can condition.capability with
    | true =>
      obtain ⟨pick, hpick, hpicked⟩ := h.splitBy hp hos (hnew condition List.mem_cons_self) hcan hone
      obtain ⟨all, hall, hconds⟩ := ih hpicked (fun c hc => by
        simp only [List.map_append, List.map_cons, List.map_nil, List.mem_append, List.mem_singleton, not_or]
        exact ⟨hnewrest c hc, fun he => hfresh (hpick ▸ he ▸ hc)⟩) hnodup hrest
      refine ⟨all, hall, ?_⟩
      rw [hconds, List.filter_cons, if_pos hcan]
      simp [hpick]
    | false =>
      rcases hone with ⟨hc, -⟩ | ⟨-, rfl⟩
      · rw [hcan] at hc; cases hc
      · obtain ⟨all, hall, hconds⟩ := ih h hnewrest hnodup hrest
        refine ⟨all, hall, ?_⟩
        rw [hconds, List.filter_cons, if_neg (by rw [hcan]; exact Bool.false_ne_true)]

end VariantGraph
