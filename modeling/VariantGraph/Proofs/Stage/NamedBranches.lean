import Mathlib.Data.List.Forall2
import Mathlib.Data.List.ReduceOption
import VariantGraph.Proofs.Property.Regrouping
import VariantGraph.Proofs.Property.Select
import VariantGraph.Proofs.Stage.Contributions
import VariantGraph.Proofs.Text
/-!
# Configuration variables contribute what their values name

What a variable is meant to contribute is said here without the stage (`Contributes`): keys of an entry are taken
literally and values are written in place of marks, wherever marks are (`Value.Filled`). The stage contributes that
for every variable but a text whose value is a dotted path (`contributes_iff`), because it looks up the value as a
path. Where no such variable is listed, the settled tree is the old one with what is meant appended
(`settled_by_name`).
-/
namespace VariantGraph

/-! ## Writing a value in place of marks -/

namespace Text

/-- The mark that stands for the value of a variable. -/
def mark : List Char := ['%', 's']

/-- A value stands wherever a mark stood; what is between the marks, and holds none, is the same. -/
def Filled (value text filled : String) : Prop :=
  ∃ pieces : List (List Char), (∀ piece ∈ pieces, ¬ mark <:+: piece) ∧
    mark.intercalate pieces = text.toList ∧ value.toList.intercalate pieces = filled.toList

theorem mark_infix_cons_cons {c d : Char} {text : List Char} :
    mark <:+: c :: d :: text ↔ (c = '%' ∧ d = 's') ∨ mark <:+: d :: text := by
  rw [List.infix_cons_iff, mark, List.cons_prefix_cons, List.cons_prefix_cons]
  simp [eq_comm]

variable {value piece : List Char}

/-- A piece without marks is left as it is, whatever mark follows it. -/
theorem substituteChars_piece_mark (h : ¬ mark <:+: piece) (rest : List Char) :
    substituteChars '%' 's' value (piece ++ (mark ++ rest)) =
      piece ++ (value ++ substituteChars '%' 's' value rest) := by
  induction piece with
  | nil => simp [mark, substituteChars]
  | cons c piece ih =>
    cases piece with
    | nil => simp [mark, substituteChars]
    | cons d piece =>
      rw [mark_infix_cons_cons, not_or] at h
      simp only [List.cons_append] at ih ⊢
      rw [substituteChars, if_neg h.1, ih h.2]

theorem substituteChars_piece (h : ¬ mark <:+: piece) : substituteChars '%' 's' value piece = piece := by
  induction piece with
  | nil => rfl
  | cons c piece ih =>
    cases piece with
    | nil => rfl
    | cons d piece =>
      rw [mark_infix_cons_cons, not_or] at h
      rw [substituteChars, if_neg h.1, ih h.2]

/-- Marks between pieces without marks are what is replaced. -/
theorem substituteChars_intercalate {pieces : List (List Char)} (h : ∀ piece ∈ pieces, ¬ mark <:+: piece) :
    substituteChars '%' 's' value (mark.intercalate pieces) = value.intercalate pieces := by
  induction pieces with
  | nil => rfl
  | cons piece pieces ih =>
    rw [List.forall_mem_cons] at h
    cases pieces with
    | nil => simpa using substituteChars_piece h.1
    | cons next pieces =>
      rw [List.intercalate_cons_cons, List.intercalate_cons_cons, List.append_assoc, List.append_assoc,
        substituteChars_piece_mark h.1, ih h.2]

/-- Every text is cut into pieces without marks. -/
theorem exists_pieces (text : List Char) :
    ∃ first rest, (∀ piece ∈ first :: rest, ¬ mark <:+: piece) ∧ mark.intercalate (first :: rest) = text := by
  induction text with
  | nil => exact ⟨[], [], by simp [mark], rfl⟩
  | cons c text ih =>
    obtain ⟨first, rest, hpieces, rfl⟩ := ih
    obtain ⟨hfirst, hrest⟩ := List.forall_mem_cons.1 hpieces
    by_cases hmark : mark <+: c :: first
    · -- the character and the one behind it are a mark, and the first piece ends before it
      obtain ⟨below, hbelow⟩ := hmark
      cases hbelow
      have hshort : ¬ mark <:+: below := fun h => hfirst (h.trans (List.suffix_cons 's' below).isInfix)
      refine ⟨[], below :: rest, ?_, ?_⟩
      · exact List.forall_mem_cons.2 ⟨by simp [mark], List.forall_mem_cons.2 ⟨hshort, hrest⟩⟩
      · cases rest <;> simp [mark, List.intercalate_cons_cons]
    · refine ⟨c :: first, rest, List.forall_mem_cons.2 ⟨?_, hrest⟩, ?_⟩
      · rw [List.infix_cons_iff]
        exact not_or.2 ⟨hmark, hfirst⟩
      · cases rest <;> simp [List.intercalate_cons_cons]

/-- Filling in a value is what the marks say, and only that. -/
theorem filled_iff {value text filled : String} : Filled value text filled ↔ fill value text = filled := by
  unfold fill
  constructor
  · rintro ⟨pieces, hpieces, htext, hfilled⟩
    rw [← htext, substituteChars_intercalate hpieces, hfilled, String.ofList_toList]
  · rintro rfl
    obtain ⟨first, rest, hpieces, htext⟩ := exists_pieces text.toList
    exact ⟨first :: rest, hpieces, htext, by rw [String.toList_ofList, ← htext, substituteChars_intercalate hpieces]⟩

end Text

/-- A name without dots is a path of its own. -/
theorem pathComponents_of_undotted {name : String} (h : '.' ∉ name.toList) : pathComponents name = [name] := by
  rw [pathComponents, Text.split, Text.pieces_of_not_mem h, List.map_singleton, String.ofList_toList]

/-- Taking out a path of one name takes out that name. -/
theorem Properties.without_eq_erase {props : Properties} {name : String} (hname : pathComponents name = [name]) :
    props.without name = Table.erase props name := by
  rw [Properties.without, Properties.remove?, hname, Properties.removeAt?]
  cases hfound : Table.find? props name with
  | none => exact (Table.erase_of_find?_none hfound).symm
  | some value => rfl

/-- A path of one name leads to the branch that is stored under it. -/
theorem Properties.getMap?_eq_branchAt? {props : Properties} {name : String} (hname : pathComponents name = [name]) :
    props.getMap? name = props.branchAt? name := by
  rw [Properties.getMap?, Properties.get?_of_single hname, Properties.branchAt?]

mutual

/-- A value stands for every mark in every text, at any depth; all else is the same. -/
def Value.Filled (value : String) : Value → Value → Prop
  | .string old, .string new => Text.Filled value old new
  | .list old, .list new => List.Forall₂ (Text.Filled value) old new
  | .map old, .map new => FieldsFilled value old new
  | .bool old, .bool new => new = old
  | .int old, .int new => new = old
  | _, _ => False

def Value.FieldsFilled (value : String) : List (String × Value) → List (String × Value) → Prop
  | [], [] => True
  | (name, old) :: rest, (name', new) :: rest' => name' = name ∧ Filled value old new ∧ FieldsFilled value rest rest'
  | _, _ => False

end

namespace ConfigVariables

mutual

theorem filled_iff (value : String) (old new : Value) : Value.Filled value old new ↔ fill value old = new := by
  match old with
  | .bool _ | .int _ => cases new <;> simp [Value.Filled, fill, eq_comm]
  | .string _ => cases new <;> simp [Value.Filled, fill, Text.filled_iff]
  | .list old =>
    cases new with
    | list new =>
      rw [Value.Filled, fill, Value.list.injEq, ← List.forall₂_eq_eq_eq, List.forall₂_map_left_iff]
      exact ⟨List.Forall₂.imp fun _ _ => Text.filled_iff.1, List.Forall₂.imp fun _ _ => Text.filled_iff.2⟩
    | _ => simp [Value.Filled, fill]
  | .map old =>
    cases new with
    | map new => rw [Value.Filled, fill, Value.map.injEq, fieldsFilled_iff value old new]
    | _ => simp [Value.Filled, fill]

theorem fieldsFilled_iff (value : String) (old new : List (String × Value)) :
    Value.FieldsFilled value old new ↔ fillFields value old = new := by
  match old, new with
  | [], [] => simp [Value.FieldsFilled, fillFields]
  | [], _ :: _ | _ :: _, [] => simp [Value.FieldsFilled, fillFields]
  | (name, old) :: rest, (name', new) :: rest' =>
    rw [Value.FieldsFilled, fillFields, filled_iff value old new, fieldsFilled_iff value rest rest', List.cons.injEq,
      Prod.mk.injEq, and_assoc, eq_comm (a := name')]

end

/-! ## What is meant -/

/-- What the entry of a variable is meant to contribute. Names in it are taken as they stand: its default, what it
holds besides the default, or the branch under the value of the variable. -/
def Contributes (config : Config) : String × Value → Option Properties → Prop
  | (name, .map entries), contributed =>
    let default := Properties.branchAt? entries conditionsDefault
    let others := Table.erase entries conditionsDefault
    match config.declared.find? name, config.values.find? name with
    | some .bool, some value => contributed = if value ∈ ["y", "yes", "true", "1"] then some others else default
    | some (.string _), some value => contributed = (Properties.branchAt? entries value).or default
    | some .value, some value => ∃ filled, contributed = some filled ∧ Value.FieldsFilled value others filled
    | some _, none => contributed = default
    | none, _ => False
  | _, _ => False

/-- The value of a text variable, read as a path, leads to the branch that is stored under it, unless the default
stands in for both. -/
def SelectsByName (config : Config) (entry : String × Value) : Prop :=
  ∀ entries allowed value, entry.2 = .map entries → config.declared.find? entry.1 = some (.string allowed) →
    config.values.find? entry.1 = some value →
    (Properties.getMap? entries value).or (Properties.branchAt? entries conditionsDefault) =
      (Properties.branchAt? entries value).or (Properties.branchAt? entries conditionsDefault)

/-- A value without dots selects by name. -/
theorem selectsByName_of_undotted {config : Config} {entry : String × Value}
    (h : ∀ value, config.values.find? entry.1 = some value → '.' ∉ value.toList) : SelectsByName config entry := by
  intro entries allowed value _ _ hvalue
  rw [Properties.getMap?_eq_branchAt? (pathComponents_of_undotted (h value hvalue))]

/-- Not more than one thing is meant. -/
theorem contributes_unique {config : Config} {entry : String × Value} {first second : Option Properties}
    (hfirst : Contributes config entry first) (hsecond : Contributes config entry second) : first = second := by
  obtain ⟨name, value⟩ := entry
  cases value with
  | map entries =>
    simp only [Contributes] at hfirst hsecond
    cases hkind : config.declared.find? name with
    | none => rw [hkind] at hfirst; cases hfirst
    | some kind =>
      rw [hkind] at hfirst hsecond
      cases hset : config.values.find? name with
      | none => rw [hset] at hfirst hsecond; cases kind <;> exact hfirst.trans hsecond.symm
      | some value =>
        rw [hset] at hfirst hsecond
        cases kind with
        | bool | string => exact hfirst.trans hsecond.symm
        | value =>
          obtain ⟨filled, rfl, hfilled⟩ := hfirst
          obtain ⟨filled', rfl, hfilled'⟩ := hsecond
          rw [← (fieldsFilled_iff _ _ _).1 hfilled, ← (fieldsFilled_iff _ _ _).1 hfilled']
  | _ => cases hfirst

/-- The stage contributes what is meant exactly if the variable selects by name. -/
theorem contributes_iff {config : Config} {entry : String × Value} {contributed : Option Properties}
    (h : choose config entry.1 entry.2 = .ok contributed) :
    Contributes config entry contributed ↔ SelectsByName config entry := by
  obtain ⟨name, value⟩ := entry
  cases value with
  | map entries =>
    have hfallback : fallback? entries = Properties.branchAt? entries conditionsDefault :=
      Properties.getMap?_eq_branchAt? single_conditionsDefault
    have hsettings : settings entries = Table.erase entries conditionsDefault :=
      Properties.without_eq_erase single_conditionsDefault
    simp only [choose] at h
    simp only [Contributes, SelectsByName, Value.map.injEq]
    cases hkind : config.declared.find? name with
    | none => rw [hkind] at h; cases h
    | some kind =>
      rw [hkind] at h
      cases hset : config.values.find? name with
      | none =>
        rw [hset] at h
        cases kind <;> simp_all [contribution]
      | some value =>
        rw [hset] at h
        cases kind with
        | bool => simp_all [contribution, isOn]
        | value => simp_all [contribution, fieldsFilled_iff]
        | string allowed =>
          simp only [contribution] at h
          split at h
          · rw [hfallback, Except.ok.injEq] at h
            subst h
            constructor
            · rintro hsame _ _ _ rfl hallowed hvalue
              cases hallowed
              cases hvalue
              exact hsame
            · intro hselects
              exact hselects entries allowed value rfl rfl rfl
          · cases h
  | _ => cases h

/-! ## The settled tree -/

/-- What an entry is found to contribute; nothing if that fails. -/
def contributed? (config : Config) (entry : String × Value) : Option Properties :=
  (choose config entry.1 entry.2).toOption.join

/-- Settling all variables without error appends what each of them contributes. -/
theorem appendAll_contributed {listed : Properties} {visit : Visit} (h : (settleAll visit listed).effects.errors = []) :
    (∀ entry ∈ listed, choose visit.env.config entry.1 entry.2 = .ok (contributed? visit.env.config entry)) ∧
      (Properties.appendAll visit.properties (listed.filterMap (contributed? visit.env.config))).outcome =
        .ok (settleAll visit listed).properties := by
  induction listed generalizing visit with
  | nil => exact ⟨fun _ hmem => absurd hmem List.not_mem_nil, Properties.appendAll_nil _⟩
  | cons entry rest ih =>
    have hnext : settleAll visit (entry :: rest) = settleAll (settle visit entry.1 entry.2) rest := rfl
    rw [hnext] at h ⊢
    obtain ⟨hchosen, hsettled⟩ := ih h
    rw [(settle_kept visit entry.1 entry.2).1] at hchosen hsettled
    rcases (settle_cases (errors_of_settleAll h)).2 with ⟨hnone, heq⟩ | ⟨chosen, hsome, hone, heq⟩
    · have hfound : contributed? visit.env.config entry = none := by rw [contributed?, hnone]; rfl
      rw [List.forall_mem_cons, List.filterMap_cons, hfound, hnone]
      rw [heq] at hsettled ⊢
      exact ⟨⟨rfl, hchosen⟩, hsettled⟩
    · have hfound : contributed? visit.env.config entry = some chosen := by rw [contributed?, hsome]; rfl
      rw [List.forall_mem_cons, List.filterMap_cons, hfound, hsome, Properties.appendAll_cons]
      rw [heq] at hsettled
      exact ⟨⟨rfl, hchosen⟩, _, Attempt.outcome_eq_ok.2 ⟨hone, rfl⟩, hsettled⟩

/-- What is meant for some entries is what their variables contribute, if all of these select by name. -/
theorem forall₂_contributes_iff {config : Config} {listed : Properties}
    (hchosen : ∀ entry ∈ listed, choose config entry.1 entry.2 = .ok (contributed? config entry))
    (hselects : ∀ entry ∈ listed, SelectsByName config entry) (contributions : List (Option Properties)) :
    List.Forall₂ (Contributes config) listed contributions ↔ contributions = listed.map (contributed? config) := by
  have hmeant : List.Forall₂ (Contributes config) listed (listed.map (contributed? config)) := by
    rw [List.forall₂_map_right_iff, List.forall₂_same]
    intro entry hmem
    exact (contributes_iff (hchosen entry hmem)).2 (hselects entry hmem)
  have hunique : Relator.RightUnique (Contributes config) := fun _ _ _ => contributes_unique
  constructor
  · intro h
    exact List.right_unique_forall₂' hunique h hmeant
  · rintro rfl
    exact hmeant

/-- What populating reads for configuration variables is what its schema admits for them. -/
theorem has_settings_of_populate {schema : Schema} {varies : Bool} {members : Table Json} {props : Properties}
    (hfield : schema.find? field = some ⟨.configVariables, varies⟩) (hread : populate schema members = .ok props)
    {value : Value} (h : Table.find? props field = some value) :
    value.has (.tree (.settings schema.variantFields)) = true := by
  obtain ⟨content, hcontent, hhas⟩ :=
    Layout.admits_iff.1 (Properties.follows_iff.1 (follows_populate hread) _ (Table.mem_of_find? h))
  rw [Layout.content?, hfield] at hcontent
  cases hcontent
  exact hhas

/-- A visit without errors takes the field away and appends what each listed variable contributes. -/
theorem settled_contributed (env : Environment) (graph : Graph) (id : VariantId)
    (hbuilt : (graph.moduleOf id).can .defaults = false)
    (hmap : ∀ value, Table.find? (graph.variant id).properties field = some value → value.map? ≠ none)
    (herrors : (Stage.configVariables.visit env graph id).errors = []) :
    let props := (graph.variant id).properties
    let listed := (props.branchAt? field).getD []
    (∀ entry ∈ listed, choose env.config entry.1 entry.2 = .ok (contributed? env.config entry)) ∧
      (Properties.appendAll (Table.erase props field) (listed.filterMap (contributed? env.config))).outcome =
        .ok ((Stage.configVariables.visit env graph id).properties.getD props) := by
  intro props listed
  have hvisit := visit_eq env graph id hbuilt
  rw [Properties.getMap?_eq_branchAt? single_field] at hvisit
  cases hfound : Table.find? props field with
  | none =>
    have hnone : props.branchAt? field = none := by rw [Properties.branchAt?, hfound]; rfl
    have hlisted : listed = [] := by simp only [listed, hnone, Option.getD_none]
    rw [hlisted, hvisit, hnone, Table.erase_of_find?_none hfound]
    exact ⟨fun _ hmem => absurd hmem List.not_mem_nil, Properties.appendAll_nil _⟩
  | some value =>
    cases value with
    | map found =>
      have hbranch : props.branchAt? field = some found := by rw [Properties.branchAt?, hfound]; rfl
      have hlisted : listed = found := by simp only [listed, hbranch, Option.getD_some]
      rw [hbranch] at hvisit
      simp only at hvisit
      have hsettled : (Stage.configVariables.visit env graph id).properties.getD props =
          (settleAll (cleared env graph id) found).properties := by
        rw [Visit.properties, variant_settleAll, ← hvisit]
        rfl
      have hcleared : (cleared env graph id).properties = Table.erase props field :=
        Properties.without_eq_erase single_field
      rw [hlisted, hsettled, ← hcleared]
      exact appendAll_contributed (hvisit ▸ herrors)
    | _ => exact absurd rfl (hmap _ hfound)

/-- What stands in the field of an ordered tree is ordered. -/
theorem ordered_listed {props : Properties} (hp : props.Ordered) : Table.Ordered ((props.branchAt? field).getD []) := by
  cases hbranch : props.branchAt? field with
  | none => exact List.Pairwise.nil
  | some listed =>
    obtain ⟨value, hfound, hmap⟩ := Option.bind_eq_some_iff.1 hbranch
    cases value with
    | map fields =>
      cases hmap
      exact ((Properties.ordered_iff.1 hp).2 _ (Table.mem_of_find? hfound)).1
    | _ => cases hmap

/-- **Configuration variables contribute the branches that their values name, unless a value is a dotted path.** Take
a module that is not for defaults, whose configuration variables are as populating leaves them, and a visit without
errors. Each listed variable contributes what is meant exactly if it selects by name, as it does when its value has
no dots. If all do, then the settled tree is the old one without the field, onto which what is meant is appended in
the order of the variables. -/
theorem settled_by_name (env : Environment) (graph : Graph) (id : VariantId)
    (hbuilt : (graph.moduleOf id).can .defaults = false) (hp : (graph.variant id).properties.Ordered)
    (haccepted : ∀ value, Table.find? (graph.variant id).properties field = some value →
      ∃ schema, value.has (.tree (.settings schema)) = true)
    (herrors : (Stage.configVariables.visit env graph id).errors = []) :
    let props := (graph.variant id).properties
    let listed := (props.branchAt? field).getD []
    let settled := (Stage.configVariables.visit env graph id).properties.getD props
    (∀ entry ∈ listed,
      ((∃ contributed, choose env.config entry.1 entry.2 = .ok contributed ∧
        Contributes env.config entry contributed) ↔ SelectsByName env.config entry) ∧
      ((∀ value, env.config.values.find? entry.1 = some value → '.' ∉ value.toList) →
        SelectsByName env.config entry)) ∧
    ((∀ entry ∈ listed, SelectsByName env.config entry) → Table.Ordered listed ∧
      ∃ contributions, (∀ others, List.Forall₂ (Contributes env.config) listed others ↔ others = contributions) ∧
        (Properties.appendAll (Table.erase props field) contributions.reduceOption).outcome = .ok settled) := by
  intro props listed settled
  have hmap : ∀ value, Table.find? props field = some value → value.map? ≠ none := by
    intro value hfound
    obtain ⟨schema, hhas⟩ := haccepted value hfound
    cases value with
    | map fields => exact Option.some_ne_none fields
    | _ => cases hhas
  obtain ⟨hchosen, hsettled⟩ := settled_contributed env graph id hbuilt hmap herrors
  refine ⟨fun entry hmem => ⟨?_, selectsByName_of_undotted⟩, fun hselects => ⟨ordered_listed hp, _,
    forall₂_contributes_iff hchosen hselects, ?_⟩⟩
  · have hchoose := hchosen entry hmem
    refine ⟨?_, fun hselects => ⟨_, hchoose, (contributes_iff hchoose).2 hselects⟩⟩
    rintro ⟨contributed, hcontributed, hmeant⟩
    exact (contributes_iff hcontributed).1 hmeant
  · rw [List.reduceOption, List.filterMap_map]
    exact hsettled

/-- One program with some properties, in a configuration. -/
def programIn (config : Config) (members : Table Json) : Workspace :=
  ((Workspace.empty config).addPackages [⟨"p", none, none, [⟨"cc_binary", "main", members⟩]⟩]).1

/-- A board that is chosen, a feature that is switched off and a platform that is named. -/
def platformNamed : Config :=
  { featureOn with
    declared := [("board", .string ["b", "v1.2"]), ("feature", .bool), ("platform", .value)]
    values := [("board", "b"), ("feature", "no"), ("platform", "gs101")] }

/-- Sources for two boards, flags for a feature and a mark for the platform. -/
def platformSources : Table Json :=
  [("cflags", .array [.string "-c"]), ("soong_config_variables", .object [
    ("board", .object [("b", .object [("srcs", .array [.string "b.c"])]),
      ("v1.2", .object [("srcs", .array [.string "v.c"])])]),
    ("feature", .object [("cflags", .array [.string "-on"]),
      ("conditions_default", .object [("cflags", .array [.string "-off"])])]),
    ("platform", .object [("srcs", .array [.string "%s/%s.c"]), ("stl", .string "%s_stl")])])]

/-- Each kind of variable contributes what its value says. -/
theorem settled_by_name_platformSources :
    let workspace := programIn platformNamed platformSources
    let props := (workspace.graph.variant 0).properties
    let listed := (props.branchAt? field).getD []
    let visited := Stage.configVariables.visit workspace.environment workspace.graph 0
    let settled := visited.properties.getD props
    (workspace.graph.moduleOf 0).can .defaults = false ∧ props.Ordered ∧
    populate Builtin.binary.schema platformSources = .ok props ∧ visited.errors = [] ∧
    (∀ entry ∈ listed, SelectsByName platformNamed entry) ∧
    (∃ contributions, List.Forall₂ (Contributes platformNamed) listed contributions ∧
      (Properties.appendAll (Table.erase props field) contributions.reduceOption).outcome = .ok settled) ∧
    settled = [("cflags", .list ["-c", "-off"]), ("srcs", .list ["b.c", "gs101/gs101.c"]),
      ("stl", .string "gs101_stl")] := by
  intro workspace props listed visited settled
  have hbuilt : (workspace.graph.moduleOf 0).can .defaults = false := by decide +kernel
  have herrors : visited.errors = [] := by decide +kernel
  have hread : populate Builtin.binary.schema platformSources = .ok props := rfl
  have hp : props.Ordered := by
    have hprops : props = [("cflags", .list ["-c"]), (field, .map [
      ("board", .map [("b", .map [("srcs", .list ["b.c"])]), ("v1.2", .map [("srcs", .list ["v.c"])])]),
      ("feature", .map [("cflags", .list ["-on"]), ("conditions_default", .map [("cflags", .list ["-off"])])]),
      ("platform", .map [("srcs", .list ["%s/%s.c"]), ("stl", .string "%s_stl")])])] := rfl
    rw [hprops]
    simp only [Properties.Ordered, Value.Ordered, Value.FieldsOrdered, Table.Ordered]
    decide +kernel
  have haccepted : ∀ value, Table.find? props field = some value →
      ∃ schema, value.has (.tree (.settings schema)) = true := fun value hfound =>
    have hfield : Builtin.binary.schema.find? field = some ⟨.configVariables, false⟩ := rfl
    ⟨_, has_settings_of_populate hfield hread hfound⟩
  have hundotted : ∀ entry ∈ platformNamed.values, '.' ∉ entry.2.toList := by decide +kernel
  obtain ⟨heach, hall⟩ := settled_by_name workspace.environment workspace.graph 0 hbuilt hp haccepted herrors
  have hselects : ∀ entry ∈ listed, SelectsByName platformNamed entry := fun entry hmem =>
    (heach entry hmem).2 fun value hvalue => hundotted _ (Table.mem_of_find? hvalue)
  obtain ⟨-, contributions, hmeant, hsettled⟩ := hall hselects
  exact ⟨hbuilt, hp, hread, herrors, hselects, ⟨contributions, (hmeant contributions).2 rfl, hsettled⟩, rfl⟩

/-- The board is one whose name is a dotted path. -/
def boardDotted : Config :=
  { featureOn with declared := [("board", .string ["v1.2"])], values := [("board", "v1.2")] }

/-- Flags for that board. -/
def dottedFlags : Table Json :=
  [("soong_config_variables", .object [("board", .object [("v1.2", .object [("cflags", .array [.string "-x"])])])])]

/-- The branch that the value of the board names is not found, and its flags are lost. -/
theorem dotted_branch_lost :
    let workspace := programIn boardDotted dottedFlags
    let props := (workspace.graph.variant 0).properties
    let listed := (props.branchAt? field).getD []
    let visited := Stage.configVariables.visit workspace.environment workspace.graph 0
    let settled := visited.properties.getD props
    (workspace.graph.moduleOf 0).can .defaults = false ∧
    populate Builtin.binary.schema dottedFlags = .ok props ∧ visited.errors = [] ∧ settled = [] ∧
    List.Forall₂ (Contributes boardDotted) listed [some [("cflags", .list ["-x"])]] ∧
    ¬ ∃ contributions, List.Forall₂ (Contributes boardDotted) listed contributions ∧
      (Properties.appendAll (Table.erase props field) contributions.reduceOption).outcome = .ok settled := by
  intro workspace props listed visited settled
  have hbuilt : (workspace.graph.moduleOf 0).can .defaults = false := by decide +kernel
  have herrors : visited.errors = [] := by decide +kernel
  have hmeant : List.Forall₂ (Contributes boardDotted) listed [some [("cflags", .list ["-x"])]] := .cons rfl .nil
  have hlost : settled = [] := rfl
  refine ⟨hbuilt, rfl, herrors, hlost, hmeant, ?_⟩
  rintro ⟨contributions, hall, hsettled⟩
  have hunique : Relator.RightUnique (Contributes boardDotted) := fun _ _ _ => contributes_unique
  rw [List.right_unique_forall₂' hunique hall hmeant] at hsettled
  have hflags : (Properties.appendAll (Table.erase props field) [[("cflags", .list ["-x"])]]).outcome =
      .ok [("cflags", .list ["-x"])] := rfl
  rw [hlost, List.reduceOption_singleton] at hsettled
  cases hflags.symm.trans hsettled

end ConfigVariables
end VariantGraph
