import VariantGraph.Proofs.Property.Closure
import VariantGraph.Proofs.Stage.ConfigVariables
import VariantGraph.Workspace
/-!
# What configuration variables bring into a tree

A variable either selects one of the branches in its entry, or, if it is switched on or has a value,
contributes the entry itself (`takesEntries`). Branches hold variant fields only. An entry may hold branches
beside variant fields, and a variable that contributes it brings them in as if they were fields. The tree
that is left conforms to its schema exactly where no such variable has a branch (`settled_iff_fields`).
-/
namespace VariantGraph

/-! ## Flat trees -/

/-- A kind without maps is that of values which are none. -/
theorem map?_of_flat {kind : FieldKind} {parent : Schema} {value : Value} (hk : kind.isFlat = true)
    (h : value.has (kind.content parent) = true) : value.map? = none := by
  cases value with
  | map fields => cases kind <;> simp_all [FieldKind.isFlat, FieldKind.content]
  | _ => rfl

section Flat
variable {schema : Schema} (hflat : ∀ name field, schema.find? name = some field → field.kind.isFlat = true)
include hflat

theorem map?_of_admits {name : String} {value : Value} (h : (Layout.fields schema).admits name value = true) :
    value.map? = none := by
  obtain ⟨content, hcontent, hhas⟩ := Layout.admits_iff.1 h
  obtain ⟨field, hfield, rfl⟩ := Option.map_eq_some_iff.1 hcontent
  exact map?_of_flat (hflat _ _ hfield) hhas

/-- No path through flat fields ends at a map. -/
theorem map?_of_follow? {props : Properties} (hp : props.follows (.fields schema) = true) {names : List String}
    {value : Value} (h : props.follow? names = some value) : value.map? = none := by
  match names, h with
  | [name], h => exact map?_of_admits hflat (Properties.follows_iff.1 hp _ (Table.mem_of_find? h))
  | name :: next :: rest, h =>
    simp only [Properties.follow?] at h
    split at h
    · next inner hfound => cases map?_of_admits hflat (Properties.follows_iff.1 hp _ (Table.mem_of_find? hfound))
    · cases h

/-- A path into the entries of a variable that ends at a map ends at a branch of fields. -/
theorem follows_of_getMap? {entries branch : Properties} (he : entries.follows (.entries schema) = true)
    {path : String} (h : entries.getMap? path = some branch) : branch.follows (.fields schema) = true := by
  obtain ⟨value, hvalue, hmap⟩ := Option.bind_eq_some_iff.1 h
  -- what stands under a name is a field, which is no map, or a branch
  have hentry : ∀ {name value fields}, entries.find? name = some value → value.map? = some fields →
      fields.follows (.fields schema) = true := by
    intro name value fields hfound hmap
    obtain ⟨content, hcontent, hhas⟩ :=
      Layout.admits_iff.1 (Properties.follows_iff.1 he _ (Table.mem_of_find? hfound))
    cases value with
    | map inner =>
      injection hmap with hmap
      subst hmap
      simp only [Layout.content?] at hcontent
      split at hcontent
      · next field hfield =>
        have hfound : schema.find? name = some field := by
          split at hfield
          · cases hfield
          · exact hfield
        cases hcontent
        cases map?_of_flat (hflat _ _ hfound) hhas
      · cases hcontent; exact hhas
    | _ => cases hmap
  unfold Properties.get? at hvalue
  generalize pathComponents path = names at hvalue
  rcases names with _ | ⟨name, _ | ⟨next, rest⟩⟩
  · cases hvalue
  · exact hentry hvalue hmap
  · simp only [Properties.follow?] at hvalue
    split at hvalue
    · next inner hfound =>
      rw [map?_of_follow? hflat (hentry hfound rfl) hvalue] at hmap
      cases hmap
    · cases hvalue

end Flat

/-- The kind whose values list configuration variables. -/
def FieldKind.listsVariables : FieldKind → Bool
  | configVariables => true
  | bool | int | string | stringList | deps _ | struct _ | conditional _ => false

namespace ConfigVariables

/-! ## What a variable contributes -/

/-- Whether a variable contributes its entry as it is, and not a branch of it. -/
def takesEntries (config : Config) (name : String) : Bool :=
  match config.declared.find? name, config.values.find? name with
  | some .bool, some value => isOn value
  | some .value, some _ => true
  | _, _ => false

mutual

/-- Text is filled in where text was. -/
theorem has_fill (text : String) (value : Value) (content : Content) :
    (fill text value).has content = value.has content := by
  match value, content with
  | .map fields, .tree layout =>
    rw [fill, Value.has_map, Value.has_map]
    exact follows_fillFields text fields layout
  | .map _, .leaf _ => rfl
  | .string _, .leaf kind | .list _, .leaf kind => cases kind <;> rfl
  | .bool _, _ | .int _, _ => rfl
  | .string _, .tree _ | .list _, .tree _ => rfl

theorem follows_fillFields (text : String) (fields : List (String × Value)) (layout : Layout) :
    Properties.follows (fillFields text fields) layout = Properties.follows fields layout := by
  match fields with
  | [] => rfl
  | (name, value) :: rest =>
    rw [Bool.eq_iff_iff, fillFields, Properties.follows_cons, Properties.follows_cons,
      follows_fillFields text rest layout, Layout.admits_iff, Layout.admits_iff]
    simp only [has_fill text value]

end

section Entries
variable {schema : Schema} {entries : Properties} (he : entries.follows (.entries schema) = true)
include he

/-- The entries apart from the default conform to a schema if they are all fields of it. -/
theorem follows_settings : (settings entries).follows (.fields schema) = true ↔
    ∀ entry ∈ entries, entry.1 ≠ conditionsDefault → schema.has entry.1 = true := by
  unfold settings
  rw [Properties.follows_iff]
  refine ⟨fun h entry hmem hne => ?_, fun h entry hmem => ?_⟩
  · obtain ⟨content, hcontent, -⟩ :=
      Layout.admits_iff.1 (h entry ((mem_without single_conditionsDefault).2 ⟨hmem, hne⟩))
    obtain ⟨field, hfield, -⟩ := Option.map_eq_some_iff.1 hcontent
    rw [Table.has, hfield]
    rfl
  · obtain ⟨hmem, hne⟩ := (mem_without single_conditionsDefault).1 hmem
    obtain ⟨field, hfield⟩ := Option.isSome_iff_exists.1 (h entry hmem hne)
    obtain ⟨content, hcontent, hhas⟩ := Layout.admits_iff.1 (Properties.follows_iff.1 he entry hmem)
    rw [Layout.content?, if_neg hne, hfield] at hcontent
    exact Layout.admits_iff.2 ⟨content, by rw [Layout.content?, hfield]; exact hcontent, hhas⟩

variable (hflat : ∀ name field, schema.find? name = some field → field.kind.isFlat = true)
include hflat

/-- What a variable contributes conforms to the schema, unless it takes its entry and has a branch in it. -/
theorem follows_choose (config : Config) (name : String) :
    (∀ chosen, choose config name (.map entries) = .ok (some chosen) → chosen.follows (.fields schema) = true) ↔
      (takesEntries config name = true →
        ∀ entry ∈ entries, entry.1 ≠ conditionsDefault → schema.has entry.1 = true) := by
  have hbranch : ∀ path branch, entries.getMap? path = some branch → branch.follows (.fields schema) = true :=
    fun _ _ => follows_of_getMap? hflat he
  have hfallback : ∀ chosen, fallback? entries = some chosen → chosen.follows (.fields schema) = true :=
    hbranch conditionsDefault
  rw [← follows_settings he]
  unfold choose takesEntries
  cases config.declared.find? name with
  | none => simp
  | some kind =>
    cases config.values.find? name with
    | none => cases kind <;> simpa [contribution] using hfallback
    | some value =>
      cases kind with
      | bool =>
        cases hon : isOn value with
        | true => simp [contribution, hon]
        | false => simpa [contribution, hon] using hfallback
      | value => simp [contribution, follows_fillFields]
      | string allowed =>
        by_cases hallowed : value ∈ allowed
        · simp only [contribution, if_pos hallowed, Except.ok.injEq, Option.or_eq_some_iff, Bool.false_eq_true,
            false_implies, iff_true]
          rintro chosen (h | ⟨-, h⟩)
          · exact hbranch value chosen h
          · exact hfallback chosen h
        · simp [contribution, hallowed]

end Entries

/-- All listed variables contribute what conforms to the schema, unless one that takes its entry has a branch
in it. -/
theorem follows_choose_iff {schema : Schema} {listed : Properties} (hl : listed.follows (.settings schema) = true)
    (hflat : ∀ name field, schema.find? name = some field → field.kind.isFlat = true) (config : Config) :
    (∀ entry ∈ listed, ∀ chosen, choose config entry.1 entry.2 = .ok (some chosen) →
      chosen.follows (.fields schema) = true) ↔
    ∀ name entries, (name, .map entries) ∈ listed → takesEntries config name = true →
      ∀ entry ∈ entries, entry.1 ≠ conditionsDefault → schema.has entry.1 = true := by
  have hentries : ∀ name entries, (name, .map entries) ∈ listed →
      Properties.follows entries (.entries schema) = true := by
    intro name entries hmem
    obtain ⟨content, hcontent, hhas⟩ := Layout.admits_iff.1 (Properties.follows_iff.1 hl _ hmem)
    cases hcontent
    exact hhas
  constructor
  · intro h name entries hmem
    exact (follows_choose (hentries name entries hmem) hflat config name).1 (h _ hmem)
  · rintro h ⟨name, value⟩ hmem chosen hchosen
    cases value with
    | map entries =>
      exact (follows_choose (hentries name entries hmem) hflat config name).2 (h name entries hmem) chosen hchosen
    | _ => cases hchosen

/-! ## One variable after another -/

/-- Settles the listed variables, one after another. -/
def settleAll (visit : Visit) (listed : Properties) : Visit :=
  listed.foldl (fun visit (name, entry) => settle visit name entry) visit

/-- Settling a variable stays with the visited variant. -/
theorem settle_kept (visit : Visit) (name : String) (entry : Value) :
    (settle visit name entry).env = visit.env ∧ (settle visit name entry).variant = visit.variant := by
  unfold settle Visit.change Visit.report
  split
  · exact ⟨rfl, rfl⟩
  · exact ⟨rfl, rfl⟩
  · split <;> exact ⟨rfl, rfl⟩

theorem variant_settleAll (visit : Visit) (listed : Properties) :
    (settleAll visit listed).variant = visit.variant := by
  induction listed generalizing visit with
  | nil => rfl
  | cons entry rest ih => exact (ih _).trans (settle_kept visit entry.1 entry.2).2

/-- A variable is settled without error if it is known what it contributes, and that can be merged. -/
theorem settle_cases {visit : Visit} {name : String} {entry : Value}
    (h : (settle visit name entry).effects.errors = []) : visit.effects.errors = [] ∧
      ((choose visit.env.config name entry = .ok none ∧ settle visit name entry = visit) ∨
        ∃ chosen, choose visit.env.config name entry = .ok (some chosen) ∧
          (visit.properties.append chosen).error? = none ∧
          (settle visit name entry).properties = (visit.properties.append chosen).state) := by
  have hfail : ∀ error, visit.effects.errors ++ [error] ≠ [] := fun error =>
    List.append_ne_nil_of_right_ne_nil _ (List.cons_ne_nil error [])
  unfold settle at h ⊢
  cases hc : choose visit.env.config name entry with
  | error fault => rw [hc] at h; exact absurd h (hfail _)
  | ok result =>
    rw [hc] at h
    cases result with
    | none => exact ⟨h, .inl ⟨rfl, rfl⟩⟩
    | some chosen =>
      simp only [Visit.change, Visit.report] at h ⊢
      cases hone : (visit.properties.append chosen).error? with
      | some cause => rw [hone] at h; exact absurd h (hfail _)
      | none => rw [hone] at h; exact ⟨h, .inr ⟨chosen, rfl, hone, rfl⟩⟩

theorem errors_of_settleAll {listed : Properties} {visit : Visit}
    (h : (settleAll visit listed).effects.errors = []) : visit.effects.errors = [] := by
  induction listed generalizing visit with
  | nil => exact h
  | cons entry rest ih => exact (settle_cases (ih h)).1

section Settled
variable {good : String → Value → Prop} (hgood : ∀ name value, Mergeable good name value)
include hgood

/-- Settling one variable without error adds what it contributes, and nothing else. -/
theorem forall_settle {visit : Visit} {name : String} {entry : Value}
    (h : (settle visit name entry).effects.errors = []) :
    (∀ e ∈ (settle visit name entry).properties, good e.1 e.2) ↔ (∀ e ∈ visit.properties, good e.1 e.2) ∧
      ∀ chosen, choose visit.env.config name entry = .ok (some chosen) → ∀ e ∈ chosen, good e.1 e.2 := by
  rcases (settle_cases h).2 with ⟨hc, heq⟩ | ⟨chosen, hc, hone, heq⟩
  · simp [hc, heq]
  · rw [heq, hc]
    simp only [Except.ok.injEq, Option.some.injEq, forall_eq']
    exact forall_appendAt (fun e _ => hgood e.1 e.2) hone

/-- Settling all variables without error adds what they contribute, and nothing else. -/
theorem forall_settleAll {listed : Properties} {visit : Visit} (h : (settleAll visit listed).effects.errors = []) :
    (∀ e ∈ (settleAll visit listed).properties, good e.1 e.2) ↔ (∀ e ∈ visit.properties, good e.1 e.2) ∧
      ∀ entry ∈ listed, ∀ chosen, choose visit.env.config entry.1 entry.2 = .ok (some chosen) →
        ∀ e ∈ chosen, good e.1 e.2 := by
  induction listed generalizing visit with
  | nil => simp [settleAll]
  | cons entry rest ih =>
    have hrest : (settleAll (settle visit entry.1 entry.2) rest).effects.errors = [] := h
    show (∀ e ∈ (settleAll (settle visit entry.1 entry.2) rest).properties, good e.1 e.2) ↔ _
    rw [ih hrest, forall_settle hgood (errors_of_settleAll hrest), (settle_kept visit entry.1 entry.2).1,
      List.forall_mem_cons, and_assoc]

end Settled

/-! ## The stage -/

/-- In a built-in type no name stands for two fields, and one field is for configuration variables. -/
theorem field_builtin : ∀ entry ∈ Builtin.types, Table.Ordered entry.2.schema ∧
    ∃ varies, entry.2.schema.find? field = some ⟨.configVariables, varies⟩ := by
  have hall : ∀ entry ∈ Builtin.types, List.Pairwise (fun a b => a.1 < b.1) entry.2.schema ∧
      (entry.2.schema.find? field).any (·.kind.listsVariables) = true := by decide +kernel
  intro entry hmem
  obtain ⟨hordered, hentry⟩ := hall entry hmem
  obtain ⟨⟨kind, varies⟩, hfound, hkind⟩ := (Option.any_eq_true ..).1 hentry
  cases kind with
  | configVariables => exact ⟨hordered, varies, hfound⟩
  | _ => cases hkind

section BuiltIn
variable {schema : Schema} {varies : Bool} (hfield : schema.find? field = some ⟨.configVariables, varies⟩)
include hfield

/-- What is listed for the variables of a tree is all that stands in the field. -/
theorem listed_cases {props : Properties} (hp : props.follows (.fields schema) = true) :
    (props.getMap? field = none ∧ props.isSet field = false) ∨
      ∃ listed, props.getMap? field = some listed ∧ listed.follows (.settings schema.variantFields) = true := by
  rw [Properties.getMap?, Properties.isSet, Properties.get?_of_single single_field]
  cases hf : Table.find? props field with
  | none => exact .inl ⟨rfl, rfl⟩
  | some value =>
    obtain ⟨content, hcontent, hhas⟩ := Layout.admits_iff.1 (Properties.follows_iff.1 hp _ (Table.mem_of_find? hf))
    rw [Layout.content?, hfield] at hcontent
    cases hcontent
    cases value with
    | map listed => exact .inr ⟨listed, rfl, hhas⟩
    | _ => cases hhas

/-- A branch of a plain schema holds no configuration variables. -/
theorem ne_field_of_follows (hs : Table.Ordered schema)
    (hflat : ∀ name field, schema.variantFields.find? name = some field → field.kind.isFlat = true)
    {branch : Properties} (h : branch.follows (.fields schema.variantFields) = true) :
    ∀ entry ∈ branch, entry.1 ≠ field := by
  intro entry hmem heq
  obtain ⟨content, hcontent, -⟩ := Layout.admits_iff.1 (Properties.follows_iff.1 h entry hmem)
  obtain ⟨declared, hdeclared, -⟩ := Option.map_eq_some_iff.1 hcontent
  have hkind := hflat _ _ hdeclared
  rw [find?_of_variantFields hs hdeclared |>.symm.trans (heq ▸ hfield) |> Option.some.inj] at hkind
  cases hkind

end BuiltIn

/-- A visit that has taken the field away. -/
def cleared (env : Environment) (graph : Graph) (id : VariantId) : Visit :=
  ⟨"soong_config", env, graph, id,
    { Effects.none with properties := some ((graph.variant id).properties.without field) }⟩

/-- A visit takes the field away and settles what was listed there. -/
theorem visit_eq (env : Environment) (graph : Graph) (id : VariantId)
    (hbuilt : (graph.moduleOf id).can .defaults = false) :
    Stage.configVariables.visit env graph id =
      match (graph.variant id).properties.getMap? field with
      | none => .none
      | some listed => (settleAll (cleared env graph id) listed).effects := by
  simp only [Stage.configVariables, Stage.ofVisit, act]
  have hcan : Visit.can ⟨"soong_config", env, graph, id, .none⟩ .defaults = false := hbuilt
  simp only [hcan, Bool.false_eq_true, if_false]
  show (match (graph.variant id).properties.getMap? field with | none => _ | some listed => _ : Visit).effects = _
  split <;> rfl

/-- **The stage keeps a module within its schema exactly if no variable brings in branches as fields.** When
the stage reports no error for a module of a built-in type that is not for defaults, then the settled tree
conforms to the schema at every depth, has no configuration variables left and was given variant fields only,
if and only if each variable that contributes its entry as it is has, apart from its default, only names of
variant fields there. -/
theorem settled_iff_fields (env : Environment) (graph : Graph) (id : VariantId) {type : ModuleType}
    {members : Table Json} (htype : Builtin.types.find? (graph.moduleOf id).moduleType = some type)
    (hbuilt : (graph.moduleOf id).can .defaults = false)
    (hread : populate type.schema members = .ok (graph.variant id).properties)
    (herrors : (Stage.configVariables.visit env graph id).errors = []) :
    let listed := ((graph.variant id).properties.getMap? field).getD []
    let settled := (Stage.configVariables.visit env graph id).properties.getD (graph.variant id).properties
    (settled.follows (.fields type.schema) = true ∧ settled.isSet field = false ∧
      ∀ entry ∈ listed, ∀ chosen, choose env.config entry.1 entry.2 = .ok (some chosen) →
        chosen.follows (.fields type.schema.variantFields) = true) ↔
    ∀ name entries, (name, .map entries) ∈ listed → takesEntries env.config name = true →
      ∀ entry ∈ entries, entry.1 ≠ conditionsDefault → type.schema.variantFields.has entry.1 = true := by
  intro listed settled
  have hmem := Table.mem_of_find? htype
  have hflat : ∀ name field, type.schema.variantFields.find? name = some field → field.kind.isFlat = true :=
    fun _ _ => flat_variantFields (isPlain_builtin _ hmem)
  obtain ⟨hs, varies, hfield⟩ := field_builtin _ hmem
  have hfollows : (graph.variant id).properties.follows (.fields type.schema) = true := follows_populate hread
  rcases listed_cases hfield hfollows with ⟨hnone, hunset⟩ | ⟨found, hfound, hl⟩
  · have hsettled : settled = (graph.variant id).properties := by
      simp only [settled, visit_eq env graph id hbuilt, hnone]
      rfl
    simp [listed, hnone, hsettled, hfollows, hunset]
  · have hlisted : listed = found := by simp only [listed, hfound, Option.getD_some]
    rw [hlisted, ← follows_choose_iff hl hflat]
    have hvisit := visit_eq env graph id hbuilt
    rw [hfound] at hvisit
    simp only at hvisit
    have hsettled : settled = (settleAll (cleared env graph id) found).properties := by
      rw [Visit.properties, variant_settleAll, ← hvisit]
      rfl
    have hkept := fun (good : String → Value → Prop) (hgood : ∀ name value, Mergeable good name value) =>
      forall_settleAll hgood (hvisit ▸ herrors)
    refine ⟨fun h => h.2.2, fun hchosen => ⟨?_, ?_, hchosen⟩⟩
    · rw [Properties.follows_iff, hsettled, hkept _ (mergeable_admits (.fields type.schema))]
      refine ⟨Properties.follows_iff.1 (follows_without hfollows single_field), fun entry hentry chosen hc => ?_⟩
      exact Properties.follows_iff.1 (follows_of_variantFields hs (hchosen entry hentry chosen hc))
    · have hnames := (hkept (fun name _ => name ≠ field) fun _ _ _ _ _ => by simp).2
        ⟨fun entry he => ((mem_without single_field).1 he).2, fun entry hentry chosen hc =>
          ne_field_of_follows hfield hs hflat (hchosen entry hentry chosen hc)⟩
      rw [← hsettled] at hnames
      rw [Properties.isSet, Properties.get?_of_single single_field]
      cases hf : Table.find? settled field with
      | none => rfl
      | some value => exact absurd rfl (hnames _ (Table.mem_of_find? hf))

/-- A board is chosen and a feature is switched on. -/
def featureOn : Config :=
  { Config.defaultOn ⟨.linux, .x86_64⟩ 1 with
    declared := [("board", .string ["a", "b"]), ("feature", .bool)]
    values := [("board", "b"), ("feature", "y")] }

/-- One program with some properties. -/
def programWith (members : Table Json) : Workspace :=
  ((Workspace.empty featureOn).addPackages [⟨"p", none, none, [⟨"cc_binary", "main", members⟩]⟩]).1

/-- Sources for each board, and flags for a feature. -/
def boardAndFeature : Table Json :=
  [("cflags", .array [.string "-c"]), ("soong_config_variables", .object [
    ("board", .object [("a", .object [("srcs", .array [.string "a.c"])]),
      ("b", .object [("srcs", .array [.string "b.c"])])]),
    ("feature", .object [("cflags", .array [.string "-on"]),
      ("conditions_default", .object [("cflags", .array [.string "-off"])])])])]

theorem settled_boardAndFeature :
    let workspace := programWith boardAndFeature
    let visited := Stage.configVariables.visit workspace.environment workspace.graph 0
    let settled := visited.properties.getD (workspace.graph.variant 0).properties
    Builtin.types.find? (workspace.graph.moduleOf 0).moduleType = some Builtin.binary ∧
    (workspace.graph.moduleOf 0).can .defaults = false ∧
    populate Builtin.binary.schema boardAndFeature = .ok (workspace.graph.variant 0).properties ∧
    visited.errors = [] ∧
    settled.follows (.fields Builtin.binary.schema) = true ∧ settled.isSet field = false ∧
    settled.getList "srcs" = ["b.c"] ∧ settled.getList "cflags" = ["-c", "-on"] := by
  intro workspace visited settled
  have hrun : (workspace.graph.moduleOf 0).can .defaults = false ∧ visited.errors = [] ∧
      settled.getList "srcs" = ["b.c"] ∧ settled.getList "cflags" = ["-c", "-on"] := by decide +kernel
  obtain ⟨hbuilt, herrors, hsrcs, hflags⟩ := hrun
  have htype : Builtin.types.find? (workspace.graph.moduleOf 0).moduleType = some Builtin.binary := rfl
  have hread : populate Builtin.binary.schema boardAndFeature = .ok (workspace.graph.variant 0).properties := rfl
  have hfields : ∀ entry ∈ ((workspace.graph.variant 0).properties.getMap? field).getD [],
      takesEntries featureOn entry.1 = true → ∀ listed ∈ (entry.2.map?).getD [],
        listed.1 ≠ conditionsDefault → Builtin.binary.schema.variantFields.has listed.1 = true := by decide +kernel
  obtain ⟨hfollows, hunset, -⟩ := (settled_iff_fields workspace.environment workspace.graph 0 htype hbuilt hread
    herrors).2 fun name entries hmem => hfields (name, .map entries) hmem
  exact ⟨htype, hbuilt, hread, herrors, hfollows, hunset, hsrcs, hflags⟩

/-- A branch that no value of the feature selects. -/
def strayBranch : Table Json :=
  [("soong_config_variables", .object [("feature", .object [
    ("other", .object [("cflags", .array [.string "-x"])])])])]

/-- The branch becomes a property that programs do not have. -/
theorem stray_branch_settled :
    let workspace := programWith strayBranch
    let visited := Stage.configVariables.visit workspace.environment workspace.graph 0
    let settled := visited.properties.getD (workspace.graph.variant 0).properties
    Builtin.types.find? (workspace.graph.moduleOf 0).moduleType = some Builtin.binary ∧
    (workspace.graph.moduleOf 0).can .defaults = false ∧
    populate Builtin.binary.schema strayBranch = .ok (workspace.graph.variant 0).properties ∧
    visited.errors = [] ∧ settled.getList "other.cflags" = ["-x"] ∧ Builtin.binary.schema.has "other" = false ∧
    settled.follows (.fields Builtin.binary.schema) = false := by
  intro workspace visited settled
  have hrun : (workspace.graph.moduleOf 0).can .defaults = false ∧ visited.errors = [] ∧
      settled.getList "other.cflags" = ["-x"] ∧ Builtin.binary.schema.has "other" = false ∧
      settled.follows (.fields Builtin.binary.schema) = false := by decide +kernel
  obtain ⟨hbuilt, herrors, hlist, hunknown, hfollows⟩ := hrun
  exact ⟨rfl, hbuilt, rfl, herrors, hlist, hunknown, hfollows⟩

end ConfigVariables
end VariantGraph
