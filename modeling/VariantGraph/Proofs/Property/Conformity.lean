import VariantGraph.Property.Populate
import VariantGraph.Proofs.Property.Populate
/-!
# Trees that conform to a schema at every depth

What may stand under a name depends on where in a tree the name is (`Layout.content?`): at the top and in
structures the fields of a schema, in a conditional field its branches, under a configuration variable
variant fields or branches of them. `Value.has` checks a value against that at every depth. Populating
gives trees that conform (`follows_populate`). A merge that runs to its end conforms exactly if both of
its parts do (`has_append`), at every place by itself; but taking over by a schema only looks at the top
(`fits_of_appendMatching`).
-/
namespace VariantGraph

/-! ## What a schema asks for -/

/-- A place in a tree with names in it. -/
inductive Layout where
  /-- The names are those of fields. -/
  | fields (schema : Schema)
  /-- The names are those of branches of a condition, each with some fields. -/
  | branches (condition : Condition) (schema : Schema)
  /-- The names are those of configuration variables. -/
  | settings (schema : Schema)
  /-- The names are those of fields, or of branches with these fields. -/
  | entries (schema : Schema)

/-- What may stand under a name. -/
inductive Content where
  | leaf (kind : FieldKind)
  | tree (layout : Layout)

/-- What may stand in a field of a schema: branches hold variant fields of it. -/
def FieldKind.content (kind : FieldKind) (parent : Schema) : Content :=
  match kind with
  | .struct fields => .tree (.fields fields)
  | .conditional condition => .tree (.branches condition parent.variantFields)
  | .configVariables => .tree (.settings parent.variantFields)
  | kind => .leaf kind

/-- What may stand under a name of a place, if the name may be there at all. -/
def Layout.content? : Layout → String → Option Content
  | fields schema, name => (schema.find? name).map fun field => field.kind.content schema
  | branches condition schema, name => if condition.accepts name then some (.tree (.fields schema)) else none
  | settings schema, _ => some (.tree (.entries schema))
  | entries schema, name =>
    match if name = conditionsDefault then none else schema.find? name with
    | some field => some (field.kind.content schema)
    | none => some (.tree (.fields schema))

mutual

/-- Whether a value is what may stand in a place, at every depth. -/
def Value.has : Value → Content → Bool
  | .map fields, .tree layout => Value.fieldsFollow fields layout
  | .map _, .leaf _ => false
  | value, .leaf kind => kind.fits value
  | _, .tree _ => false

def Value.fieldsFollow : List (String × Value) → Layout → Bool
  | [], _ => true
  | (name, value) :: rest, layout =>
    (match layout.content? name with
      | some content => value.has content
      | none => false) && fieldsFollow rest layout

end

/-- Whether a value may stand under a name of a place. -/
def Layout.admits (layout : Layout) (name : String) (value : Value) : Bool :=
  match layout.content? name with
  | some content => value.has content
  | none => false

theorem Layout.admits_iff {layout : Layout} {name : String} {value : Value} :
    layout.admits name value = true ↔ ∃ content, layout.content? name = some content ∧ value.has content = true := by
  cases h : layout.content? name <;> simp [admits, h]

/-- Whether every name of a tree may be there and holds what it should, at every depth. -/
def Properties.follows (props : Properties) (layout : Layout) : Bool := Value.fieldsFollow props layout

@[simp] theorem Properties.follows_nil {layout : Layout} : Properties.follows [] layout = true := rfl

theorem Properties.follows_cons {layout : Layout} {name : String} {value : Value} {rest : Properties} :
    Properties.follows ((name, value) :: rest) layout = true ↔
      layout.admits name value = true ∧ rest.follows layout = true := by
  rw [follows, Value.fieldsFollow, Bool.and_eq_true]
  rfl

theorem Properties.follows_iff {props : Properties} {layout : Layout} :
    props.follows layout = true ↔ ∀ entry ∈ props, layout.admits entry.1 entry.2 = true := by
  induction props with
  | nil => simp
  | cons entry rest ih => rw [follows_cons, List.forall_mem_cons, ih]

@[simp] theorem Value.has_map (fields : Properties) (layout : Layout) :
    (Value.map fields).has (.tree layout) = fields.follows layout := rfl

@[simp] theorem Value.has_map_leaf (fields : Properties) (kind : FieldKind) :
    (Value.map fields).has (.leaf kind) = false := rfl

/-- Whether a schema has a field for a value, as far as can be seen at the top. -/
def Schema.fits (schema : Schema) (name : String) (value : Value) : Bool :=
  (schema.find? name).any fun field => field.kind.fits value

/-- What may stand in a field is of its kind. -/
theorem fits_of_has {kind : FieldKind} {parent : Schema} {value : Value} (h : value.has (kind.content parent) = true) :
    kind.fits value = true := by
  cases value <;> cases kind <;> simp_all [FieldKind.content, Value.has, FieldKind.fits]

theorem fits_of_admits {schema : Schema} {name : String} {value : Value}
    (h : (Layout.fields schema).admits name value = true) : schema.fits name value = true := by
  obtain ⟨content, hcontent, hhas⟩ := Layout.admits_iff.1 h
  obtain ⟨field, hfield, rfl⟩ := Option.map_eq_some_iff.1 hcontent
  rw [Schema.fits, hfield]
  exact fits_of_has hhas

/-! ## Populating -/

/-- A kind whose values are no maps reads such values only. -/
theorem has_populateField_leaf {path : String} {kind : FieldKind} {parent : Schema} {json : Json} {value : Value}
    (hjson : ∀ members, json ≠ .object members) (h : populateField path kind parent json = .ok value) :
    value.has (kind.content parent) = true := by
  cases json with
  | object members => exact absurd rfl (hjson members)
  | array items =>
    cases kind <;> simp only [populateField, reduceCtorEq] at h
    all_goals
      split at h
      · cases h; rfl
      · cases h
  | int number =>
    cases kind <;> simp only [populateField, reduceCtorEq] at h
    split at h
    · cases h; rfl
    · cases h
  | null | bool _ | decimal _ | string _ => cases kind <;> cases h <;> rfl

mutual

theorem has_populateField (path : String) (kind : FieldKind) (parent : Schema) (json : Json) (value : Value)
    (h : populateField path kind parent json = .ok value) : value.has (kind.content parent) = true := by
  cases json with
  | object members =>
    cases kind with
    | struct fields =>
      obtain ⟨props, hprops, rfl⟩ := Except.map_eq_ok h
      exact follows_populateMembers path fields members props hprops
    | conditional condition =>
      obtain ⟨props, hprops, rfl⟩ := Except.map_eq_ok h
      exact follows_populateBranches path condition parent.variantFields members props hprops
    | configVariables =>
      obtain ⟨props, hprops, rfl⟩ := Except.map_eq_ok h
      exact follows_populateVariables path parent.variantFields members props hprops
    | _ => cases h
  | _ => exact has_populateField_leaf (by simp) h
termination_by sizeOf json

theorem follows_populateMembers (path : String) (schema : Schema) (members : List (String × Json))
    (props : Properties) (h : populateMembers path schema members = .ok props) :
    props.follows (.fields schema) = true := by
  match members, h with
  | [], h => cases h; rfl
  | (name, json) :: members, h =>
    by_cases hnull : json = .null
    · subst hnull
      exact follows_populateMembers path schema members props h
    · obtain ⟨field, value, others, hf, hv, ho, rfl⟩ := populateMembers_cons hnull h
      exact Properties.follows_cons.2 ⟨Layout.admits_iff.2 ⟨_, by rw [Layout.content?, hf]; rfl,
        has_populateField _ field.kind schema json value hv⟩, follows_populateMembers path schema members others ho⟩
termination_by sizeOf members

theorem follows_populateBranches (path : String) (condition : Condition) (schema : Schema)
    (members : List (String × Json)) (props : Properties)
    (h : populateBranches path condition schema members = .ok props) :
    props.follows (.branches condition schema) = true := by
  match members, h with
  | [], h => cases h; rfl
  | (name, json) :: members, h =>
    by_cases ha : condition.accepts name = true
    · cases json with
      | object inner =>
        rw [populateBranches, if_pos ha] at h
        obtain ⟨branch, hb, h⟩ := bind_eq_ok h
        obtain ⟨others, ho, h⟩ := bind_eq_ok h
        cases h
        have hplace : (Layout.branches condition schema).content? name = some (.tree (.fields schema)) := by
          rw [Layout.content?, if_pos ha]
        have hbranch := follows_populateMembers _ schema inner branch hb
        exact Properties.follows_cons.2 ⟨Layout.admits_iff.2 ⟨_, hplace, hbranch⟩,
          follows_populateBranches path condition schema members others ho⟩
      | _ => simp [populateBranches, ha] at h
    · cases json <;> simp [populateBranches, ha] at h
termination_by sizeOf members

theorem follows_populateVariables (path : String) (schema : Schema) (members : List (String × Json))
    (props : Properties) (h : populateVariables path schema members = .ok props) :
    props.follows (.settings schema) = true := by
  match members, h with
  | [], h => cases h; rfl
  | (name, .object inner) :: members, h =>
    simp only [populateVariables] at h
    obtain ⟨entries, he, h⟩ := bind_eq_ok h
    obtain ⟨others, ho, h⟩ := bind_eq_ok h
    injection h with h
    subst h
    exact Properties.follows_cons.2 ⟨Layout.admits_iff.2 ⟨_, rfl, follows_populateEntries _ schema inner entries he⟩,
      follows_populateVariables path schema members others ho⟩
  | (_, .null) :: _, h | (_, .bool _) :: _, h | (_, .int _) :: _, h | (_, .decimal _) :: _, h |
    (_, .string _) :: _, h | (_, .array _) :: _, h => simp [populateVariables] at h
termination_by sizeOf members

theorem follows_populateEntries (path : String) (schema : Schema) (members : List (String × Json))
    (props : Properties) (h : populateEntries path schema members = .ok props) :
    props.follows (.entries schema) = true := by
  match members, h with
  | [], h => cases h; rfl
  | (name, json) :: members, h =>
    by_cases hnull : json = .null
    · subst hnull
      exact follows_populateEntries path schema members props h
    · rcases populateEntries_cons hnull h with ⟨field, value, others, hf, hv, ho, rfl⟩ |
        ⟨inner, branch, others, hf, rfl, hb, ho, rfl⟩
      · exact Properties.follows_cons.2 ⟨Layout.admits_iff.2 ⟨_, by rw [Layout.content?, hf],
          has_populateField _ field.kind schema json value hv⟩, follows_populateEntries path schema members others ho⟩
      · exact Properties.follows_cons.2 ⟨Layout.admits_iff.2 ⟨.tree (.fields schema), by rw [Layout.content?, hf],
          follows_populateMembers _ schema inner branch hb⟩, follows_populateEntries path schema members others ho⟩
termination_by sizeOf members

end

/-- **What a record is read into conforms to its schema at every depth.** -/
theorem follows_populate {schema : Schema} {members : Table Json} {props : Properties}
    (h : populate schema members = .ok props) : props.follows (.fields schema) = true :=
  follows_populateMembers "" schema members props h

/-! ## Merging -/

/-- What holds of a value under a name, and of merged values exactly if it holds of both of them. -/
def Mergeable (good : String → Value → Prop) (name : String) (value : Value) : Prop :=
  ∀ (path : String) (old : Value), (Value.append path old value).error? = none →
    (good name (Value.append path old value).state ↔ good name old ∧ good name value)

/-- It may be asked for some names only. -/
theorem Mergeable.under {good : String → Value → Prop} {name : String} {value : Value} (wanted : String → Prop)
    (h : Mergeable good name value) : Mergeable (fun name value => wanted name → good name value) name value := by
  intro path old herror
  have hboth := h path old herror
  constructor
  · exact fun hmerged => ⟨fun hw => (hboth.1 (hmerged hw)).1, fun hw => (hboth.1 (hmerged hw)).2⟩
  · exact fun hparts hw => hboth.2 ⟨hparts.1 hw, hparts.2 hw⟩

/-- Values that merge are of one kind. -/
theorem mergeable_fits (schema : Schema) (name : String) (value : Value) :
    Mergeable (fun name value => schema.fits name value = true) name value := by
  intro path old h
  have hsame : ∀ kind : FieldKind, kind.fits (Value.append path old value).state = kind.fits old ∧
      kind.fits value = kind.fits old := by
    intro kind
    cases old <;> cases value <;>
      simp only [Value.append, Attempt.error?, Attempt.stopped, reduceCtorEq] at h <;>
      cases kind <;> exact ⟨rfl, rfl⟩
  cases hf : schema.find? name with
  | none => simp [Schema.fits, hf]
  | some field => simp [Schema.fits, hf, hsame field.kind]

/-- What is put under a name has to say what was there and what is added. -/
theorem forall_insert {good : String → Value → Prop} {props : Properties} {name : String} (value : Value)
    {new : Value} (hnew : good name new ↔ (∀ old, props.find? name = some old → good name old) ∧ good name value) :
    (∀ entry ∈ props.insert name new, good entry.1 entry.2) ↔
      (∀ entry ∈ props, good entry.1 entry.2) ∧ good name value := by
  constructor
  · intro hall
    obtain ⟨hold, hvalue⟩ := hnew.1 (hall _ (Table.mem_insert_self props name new))
    refine ⟨fun entry he => ?_, hvalue⟩
    rcases Table.mem_insert_or_found name new he with hmem | ⟨hname, hfound⟩
    · exact hall entry hmem
    · rw [hname]
      exact hold _ hfound
  · rintro ⟨hall, hvalue⟩ ⟨name', value'⟩ he
    rcases Table.mem_insert he with ⟨rfl, rfl⟩ | hmem
    · exact hnew.2 ⟨fun old hfound => hall _ (Table.mem_of_find? hfound), hvalue⟩
    · exact hall _ hmem

/-- A merge that runs to its end keeps all that its parts say about names, and says no more. -/
theorem forall_appendAt {good : String → Value → Prop} {path : String} {props more : Properties}
    (hgood : ∀ entry ∈ more, Mergeable good entry.1 entry.2)
    (h : (Properties.appendAt path props more).error? = none) :
    (∀ entry ∈ (Properties.appendAt path props more).state, good entry.1 entry.2) ↔
      (∀ entry ∈ props, good entry.1 entry.2) ∧ ∀ entry ∈ more, good entry.1 entry.2 := by
  induction more generalizing props with
  | nil => simp [Properties.appendAt, Attempt.done]
  | cons entry rest ih =>
    obtain ⟨name, value⟩ := entry
    have hrest := fun entry he => hgood entry (List.mem_cons_of_mem _ he)
    rw [List.forall_mem_cons, ← and_assoc]
    simp only [Properties.appendAt] at h ⊢
    cases hf : Table.find? props name with
    | none =>
      simp only [hf] at h ⊢
      rw [ih hrest h, forall_insert value (by simp [hf])]
    | some old =>
      simp only [hf] at h ⊢
      split at h
      · next answer hr =>
        have hone : (Value.append (joinPath path name) old value).error? = none := by
          unfold Attempt.error?; rw [hr]
        have hmerge := hgood _ List.mem_cons_self (joinPath path name) old hone
        rw [ih hrest h, forall_insert value (by simpa [hf] using hmerge)]
      · cases h

/-- What may stand in every place exactly if it may before merging may stand under every name so. -/
theorem Mergeable.of_has {layout : Layout} {name : String} {value : Value}
    (h : ∀ (content : Content) (path : String) (old : Value), (Value.append path old value).error? = none →
      ((Value.append path old value).state.has content = true ↔ old.has content = true ∧ value.has content = true)) :
    Mergeable (fun name value => layout.admits name value = true) name value := by
  intro path old hone
  cases hc : layout.content? name with
  | some content =>
    simp only [Layout.admits, hc]
    exact h content path old hone
  | none => simp [Layout.admits, hc]

/-- Two values that merge are of one kind, and unless they are maps the new one or both lists count. -/
theorem has_append_leaf (content : Content) {value : Value} (hvalue : value.map? = none) {path : String} {old : Value}
    (h : (Value.append path old value).error? = none) : (Value.append path old value).state.has content = true ↔
      old.has content = true ∧ value.has content = true := by
  cases value with
  | map fields => cases hvalue
  | _ =>
    -- only the values of one kind are left
    cases old <;> simp only [Value.append, Attempt.error?, Attempt.stopped, reduceCtorEq] at h
    cases content with
    | leaf kind => cases kind <;> simp [Value.append, Attempt.done, Value.has, FieldKind.fits]
    | tree layout => simp [Value.append, Attempt.done, Value.has]

/-- **A merged value is what may stand in a place exactly if both of its parts are.** -/
theorem has_append (content : Content) : ∀ (value : Value) (path : String) (old : Value),
    (Value.append path old value).error? = none →
    ((Value.append path old value).state.has content = true ↔
      old.has content = true ∧ value.has content = true)
  | .map more, path, .map fields, h => by
    have hrest : ∀ layout : Layout, ∀ entry ∈ more,
        Mergeable (fun name value => layout.admits name value = true) entry.1 entry.2 := by
      rintro layout ⟨name, value⟩ hmem
      exact Mergeable.of_has fun content path' old hone => has_append content value path' old hone
    cases content with
    | leaf kind => simp [Value.append, Attempt.within]
    | tree layout =>
      simp only [Value.append, Attempt.within, Value.has_map, Properties.follows_iff]
      exact forall_appendAt (hrest layout) (by simpa [Value.append] using h)
  | .map _, _, .bool _, h | .map _, _, .int _, h | .map _, _, .string _, h | .map _, _, .list _, h => by
    simp [Value.append, Attempt.error?, Attempt.stopped] at h
  | .bool _, _, _, h | .int _, _, _, h | .string _, _, _, h | .list _, _, _, h => has_append_leaf content rfl h
termination_by value => sizeOf value
decreasing_by
  have hsize := List.sizeOf_lt_of_mem hmem
  simp only [Prod.mk.sizeOf_spec, Value.map.sizeOf_spec] at hsize ⊢
  omega

/-! ## Taking over by a schema -/

/-- What may stand under a name of a place is kept by merging. -/
theorem mergeable_admits (layout : Layout) (name : String) (value : Value) :
    Mergeable (fun name value => layout.admits name value = true) name value :=
  .of_has fun content => has_append content value

/-- Taking over by a schema keeps what holds of all values under a name, for the names that are taken. -/
theorem forall_appendMatching {good : String → Value → Prop} {schema : Schema} {excluded : List String}
    {props more : Properties} (hgood : ∀ entry ∈ more, Mergeable good entry.1 entry.2)
    (h : (Properties.appendMatching schema excluded props more).error? = none) :
    (∀ entry ∈ (Properties.appendMatching schema excluded props more).state, good entry.1 entry.2) ↔
      (∀ entry ∈ props, good entry.1 entry.2) ∧
        ∀ entry ∈ more, entry.1 ∉ excluded → schema.has entry.1 = true → good entry.1 entry.2 := by
  induction more generalizing props with
  | nil => simp [Properties.appendMatching, Attempt.done]
  | cons entry rest ih =>
    obtain ⟨name, value⟩ := entry
    have hrest := fun entry he => hgood entry (List.mem_cons_of_mem _ he)
    rw [List.forall_mem_cons]
    simp only [Properties.appendMatching] at h ⊢
    split at h
    · next hex =>
      rw [if_pos hex, ih hrest h]
      simp [hex]
    · next hex =>
      cases hf : schema.find? name with
      | none =>
        simp only [hf, if_neg hex] at h ⊢
        rw [ih hrest h]
        simp [Table.has, hf]
      | some field =>
        simp only [hf, if_neg hex] at h ⊢
        split at h
        · next hfits =>
          obtain ⟨hone, hnext⟩ := Attempt.error?_andThen.1 h
          have hhas : Table.has schema name = true := by rw [Table.has, hf]; rfl
          rw [if_pos hfits, Attempt.state_andThen _ hone, ih hrest hnext,
            forall_appendAt (fun entry he => List.mem_singleton.1 he ▸ hgood _ List.mem_cons_self) hone]
          simp only [List.forall_mem_singleton, hex, hhas, not_false_eq_true, forall_const, and_assoc]
        · cases h

/-- What is taken over by a schema was looked at, if only at the top. -/
theorem fits_of_appendMatching {schema : Schema} {excluded : List String} {props more : Properties}
    (h : (Properties.appendMatching schema excluded props more).error? = none) :
    ∀ entry ∈ more, entry.1 ∉ excluded → schema.has entry.1 = true → schema.fits entry.1 entry.2 = true := by
  induction more generalizing props with
  | nil => exact fun _ he => absurd he List.not_mem_nil
  | cons entry rest ih =>
    obtain ⟨name, value⟩ := entry
    rw [List.forall_mem_cons]
    simp only [Properties.appendMatching] at h
    split at h
    · next hex => exact ⟨fun hnot => absurd hex hnot, ih h⟩
    · cases hf : schema.find? name with
      | none =>
        simp only [hf] at h
        exact ⟨fun _ hhas => by simp [Table.has, hf] at hhas, ih h⟩
      | some field =>
        simp only [hf] at h
        split at h
        · next hfits =>
          refine ⟨fun _ _ => ?_, ih (Attempt.error?_andThen.1 h).2⟩
          rw [Schema.fits, hf]
          exact hfits
        · cases h

end VariantGraph
