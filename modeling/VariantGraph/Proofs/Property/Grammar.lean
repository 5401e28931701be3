import VariantGraph.Proofs.Property.Conformity
/-!
# What populating accepts, keeps and reports

The grammar of raw properties is `Json.Fits`: a place in a tree (`Layout`) says what may stand under a name, and
in some places `null` stands for nothing. A member may offend against it, where it stands or further down
(`Json.Offends`). Populating accepts exactly what fits, loses nothing but the nulls that stand for nothing, and
otherwise reports the first offence (`populate_exact`).

Populating is written as one function for each place. `Layout.read` is one reader for all of them
(`populate_eq_read`), and everything here is proved of that reader.
-/
namespace VariantGraph

/-! ## The grammar -/

/-- Raw values of a kind without maps. -/
inductive FieldKind.Reads : FieldKind → Json → Prop where
  | bool (value : Bool) : Reads .bool (.bool value)
  | int {value : Int} : isWord value = true → Reads .int (.int value)
  | string (value : String) : Reads .string (.string value)
  | stringList (items : List String) : Reads .stringList (.ofStrings items)
  | deps (role : Role) (items : List String) : Reads (.deps role) (.ofStrings items)

/-- Whether a value stands for nothing in a place. -/
def Layout.skips : Layout → Json → Bool
  | fields _, .null | entries _, .null => true
  | _, _ => false

mutual

/-- A raw value that may stand somewhere, at every depth. -/
inductive Json.Fits : Content → Json → Prop where
  | leaf {kind : FieldKind} {json : Json} : kind.Reads json → Fits (.leaf kind) json
  | tree {layout : Layout} {members : List (String × Json)} :
      (∀ member ∈ members, Stands layout member.1 member.2) → Fits (.tree layout) (.object members)

/-- A member of an object that may stand in a place. -/
inductive Json.Stands : Layout → String → Json → Prop where
  | unset {layout : Layout} {name : String} {json : Json} : layout.skips json = true → Stands layout name json
  | set {layout : Layout} {name : String} {json : Json} {content : Content} :
      layout.content? name = some content → Fits content json → Stands layout name json

end

/-- Whether a value is one that may stand somewhere, as far as can be seen without looking into objects. -/
def Content.Takes : Content → Json → Prop
  | .leaf kind, json => kind.Reads json
  | .tree _, json => json.object? ≠ none

/-- A member that stands for something, and that a place has no use for. -/
def Layout.Refuses (layout : Layout) (name : String) (json : Json) : Prop :=
  layout.skips json = false ∧ ∀ content, layout.content? name = some content → ¬ content.Takes json

/-- What is said of a member that is refused. The names of variables are free, and so are those of branches in
the entry of a variable. -/
def Layout.fault (path : String) : Layout → String → Json → PropertyError
  | .fields schema, name, json =>
    match schema.find? name with
    | some field => field.kind.mismatch (joinPath path name) json
    | none => .unknownProperty (joinPath path name)
  | .branches condition _, name, json =>
    if condition.accepts name then .typeMismatch (joinPath path name) "a map" json.kindName
    else .unknownCondition path name
  | .settings _, name, json => .typeMismatch (joinPath path name) "a map" json.kindName
  | .entries schema, name, json =>
    match if name = conditionsDefault then none else schema.find? name with
    | some field => field.kind.mismatch (joinPath path name) json
    | none => .unknownProperty (joinPath path name)

/-- The names that lead to a refused member from the place of a member, and what is said of it. -/
inductive Json.Offends : Layout → String → String → Json → List String → PropertyError → Prop where
  | here {layout : Layout} {path name : String} {json : Json} :
      layout.Refuses name json → Offends layout path name json [name] (layout.fault path name json)
  | within {layout inner : Layout} {path name : String} {members : List (String × Json)} {member : String × Json}
      {names : List String} {error : PropertyError} :
      layout.content? name = some (.tree inner) → member ∈ members →
      Offends inner (joinPath path name) member.1 member.2 names error →
      Offends layout path name (.object members) (name :: names) error

/-- The first offence among some members, in the order of the names that lead there. -/
structure Json.FirstOffence (layout : Layout) (path : String) (members : List (String × Json)) (names : List String)
    (error : PropertyError) : Prop where
  offends : ∃ member ∈ members, Offends layout path member.1 member.2 names error
  first : ∀ member ∈ members, ∀ other error', Offends layout path member.1 member.2 other error' →
    other = names ∨ names < other

mutual

/-- A raw value without what stands for nothing. -/
def Json.present : Content → Json → Json
  | .tree layout, .object members => .object (Json.presentMembers layout members)
  | _, json => json

def Json.presentMembers (layout : Layout) : List (String × Json) → List (String × Json)
  | [] => []
  | (name, json) :: rest =>
    if layout.skips json then Json.presentMembers layout rest
    else
      (name, match layout.content? name with
        | some content => Json.present content json
        | none => json) :: Json.presentMembers layout rest

end

/-! ## One reader for all places -/

/-- The value of a raw value of a kind without maps. -/
def FieldKind.value? : FieldKind → Json → Option Value
  | .bool, .bool value => some (.bool value)
  | .int, .int value => if isWord value then some (.int value) else none
  | .string, .string value => some (.string value)
  | .stringList, json | .deps _, json => json.strings?.map .list
  | _, _ => none

mutual

/-- The value of a member, which has to fit. -/
def Layout.readMember (path : String) (layout : Layout) (name : String) : Json → Except PropertyError Value
  | .object members =>
    match layout.content? name with
    | some (.tree inner) => (Layout.read (joinPath path name) inner members).map .map
    | _ => .error (layout.fault path name (.object members))
  | json =>
    match layout.content? name with
    | some (.leaf kind) =>
      match kind.value? json with
      | some value => .ok value
      | none => .error (layout.fault path name json)
    | _ => .error (layout.fault path name json)

/-- The tree of some members, which have to fit. -/
def Layout.read (path : String) (layout : Layout) : List (String × Json) → Except PropertyError Properties
  | [] => .ok []
  | (name, json) :: rest =>
    if layout.skips json then Layout.read path layout rest
    else do
      let value ← Layout.readMember path layout name json
      let others ← Layout.read path layout rest
      return (name, value) :: others

end

section Populate
variable {path name : String} {layout : Layout}

/-- A member without maps is read as its kind says. -/
theorem populateField_eq_leaf {kind : FieldKind} {parent : Schema} {json : Json}
    (hcontent : layout.content? name = some (kind.content parent))
    (hfault : layout.fault path name json = kind.mismatch (joinPath path name) json)
    (hjson : ∀ members, json ≠ .object members) :
    populateField (joinPath path name) kind parent json = layout.readMember path name json := by
  have hread : layout.readMember path name json = match kind.content parent with
      | .leaf kind => match kind.value? json with
        | some value => .ok value
        | none => .error (layout.fault path name json)
      | .tree _ => .error (layout.fault path name json) := by
    cases json with
    | object members => exact absurd rfl (hjson members)
    | _ => simp only [Layout.readMember, hcontent]; cases kind <;> rfl
  rw [hread, hfault]
  cases json with
  | object members => exact absurd rfl (hjson members)
  | array items =>
    cases kind <;> simp only [populateField, FieldKind.content, FieldKind.value?]
    all_goals cases (Json.array items).strings? <;> rfl
  | int value =>
    cases kind <;> simp only [populateField, FieldKind.content, FieldKind.value?, Json.strings?, Option.map_none]
    split <;> rfl
  | _ => cases kind <;> rfl

end Populate

mutual

theorem populateField_eq_read (path name : String) (layout : Layout) (kind : FieldKind) (parent : Schema) (json : Json)
    (hcontent : layout.content? name = some (kind.content parent))
    (hfault : ∀ json, layout.fault path name json = kind.mismatch (joinPath path name) json) :
    populateField (joinPath path name) kind parent json = layout.readMember path name json := by
  cases json with
  | object members =>
    cases kind with
    | struct fields =>
      simp only [populateField, Layout.readMember, hcontent, FieldKind.content,
        populateMembers_eq_read _ fields members]
    | conditional condition =>
      simp only [populateField, Layout.readMember, hcontent, FieldKind.content,
        populateBranches_eq_read _ condition parent.variantFields members]
    | configVariables =>
      simp only [populateField, Layout.readMember, hcontent, FieldKind.content,
        populateVariables_eq_read _ parent.variantFields members]
    | _ => simp only [populateField, Layout.readMember, hcontent, FieldKind.content, hfault]
  | _ => exact populateField_eq_leaf hcontent (hfault _) (by simp)
termination_by sizeOf json

theorem populateMembers_eq_read (path : String) (schema : Schema) (members : List (String × Json)) :
    populateMembers path schema members = Layout.read path (.fields schema) members := by
  match members with
  | [] => rfl
  | (name, json) :: members =>
    have hrest := populateMembers_eq_read path schema members
    by_cases hnull : json = .null
    · subst hnull
      exact hrest
    · have hskip : (Layout.fields schema).skips json = false := by cases json <;> first | rfl | exact absurd rfl hnull
      rw [populateMembers.eq_3 _ _ _ _ _ hnull, Layout.read, hskip, hrest]
      cases hf : schema.find? name with
      | none =>
        have hcontent : (Layout.fields schema).content? name = none := by rw [Layout.content?, hf]; rfl
        have hfault : ∀ json, (Layout.fields schema).fault path name json = .unknownProperty (joinPath path name) := by
          intro json
          rw [Layout.fault, hf]
        cases json <;> simp [Layout.readMember, hcontent, hfault] <;> rfl
      | some field =>
        have hfield := populateField_eq_read path name (.fields schema) field.kind schema json
          (by rw [Layout.content?, hf]; rfl) (fun json => by rw [Layout.fault, hf])
        simp only [hfield]
        rfl
termination_by sizeOf members

theorem populateBranches_eq_read (path : String) (condition : Condition) (schema : Schema)
    (members : List (String × Json)) :
    populateBranches path condition schema members = Layout.read path (.branches condition schema) members := by
  match members with
  | [] => rfl
  | (name, json) :: members =>
    have hrest := populateBranches_eq_read path condition schema members
    by_cases ha : condition.accepts name = true
    · cases json with
      | object inner =>
        have hinner := populateMembers_eq_read (joinPath path name) schema inner
        simp only [populateBranches, if_pos ha, Layout.read, Layout.skips, Layout.readMember, Layout.content?, hrest,
          hinner]
        cases Layout.read (joinPath path name) (.fields schema) inner <;> rfl
      | _ =>
        simp [populateBranches, ha, Layout.read, Layout.skips, Layout.readMember, Layout.content?, Layout.fault]
        rfl
    · cases json <;>
        simp [populateBranches, ha, Layout.read, Layout.skips, Layout.readMember, Layout.content?, Layout.fault] <;> rfl
termination_by sizeOf members

theorem populateVariables_eq_read (path : String) (schema : Schema) (members : List (String × Json)) :
    populateVariables path schema members = Layout.read path (.settings schema) members := by
  match members with
  | [] => rfl
  | (name, json) :: members =>
    have hrest := populateVariables_eq_read path schema members
    cases json with
    | object inner =>
      have hinner := populateEntries_eq_read (joinPath path name) schema inner
      simp only [populateVariables, Layout.read, Layout.skips, Layout.readMember, Layout.content?, hrest, hinner]
      cases Layout.read (joinPath path name) (.entries schema) inner <;> rfl
    | _ =>
      simp [populateVariables, Layout.read, Layout.skips, Layout.readMember, Layout.content?, Layout.fault]
      rfl
termination_by sizeOf members

theorem populateEntries_eq_read (path : String) (schema : Schema) (members : List (String × Json)) :
    populateEntries path schema members = Layout.read path (.entries schema) members := by
  match members with
  | [] => rfl
  | (name, json) :: members =>
    have hrest := populateEntries_eq_read path schema members
    by_cases hnull : json = .null
    · subst hnull
      exact hrest
    · have hskip : (Layout.entries schema).skips json = false := by cases json <;> first | rfl | exact absurd rfl hnull
      cases hf : (if name = conditionsDefault then none else schema.find? name) with
      | some field =>
        have hfield := populateField_eq_read path name (.entries schema) field.kind schema json
          (by rw [Layout.content?, hf]) (fun json => by rw [Layout.fault, hf])
        cases json with
        | null => exact absurd rfl hnull
        | _ =>
          simp only [populateEntries, Layout.read, hskip, hf, hfield, hrest]
          rfl
      | none =>
        have hcontent : (Layout.entries schema).content? name = some (.tree (.fields schema)) := by
          rw [Layout.content?, hf]
        have hfault : ∀ json, (Layout.entries schema).fault path name json = .unknownProperty (joinPath path name) := by
          intro json
          rw [Layout.fault, hf]
        cases json with
        | null => exact absurd rfl hnull
        | object inner =>
          have hinner := populateMembers_eq_read (joinPath path name) schema inner
          simp only [populateEntries, hf, Layout.read, Layout.skips, Layout.readMember, hcontent, hrest, hinner]
          cases Layout.read (joinPath path name) (.fields schema) inner <;> rfl
        | _ =>
          simp [populateEntries, hf, Layout.read, hskip, Layout.readMember, hcontent, hfault]
          rfl
termination_by sizeOf members

end

theorem populate_eq_read (schema : Schema) (members : Table Json) :
    populate schema members = Layout.read "" (.fields schema) members :=
  populateMembers_eq_read "" schema members

/-! ## One member -/

theorem mapM_string?_eq_some {items : List Json} {texts : List String} :
    items.mapM Json.string? = some texts ↔ items = texts.map .string := by
  induction items generalizing texts with
  | nil => cases texts <;> simp
  | cons item items ih =>
    rw [List.mapM_cons]
    cases texts with
    | nil => cases item <;> simp [Json.string?, Option.bind_eq_some_iff]
    | cons text texts =>
      cases item with
      | string value =>
        simp only [Json.string?, Option.bind_eq_bind, Option.bind_some, Option.bind_eq_some_iff, ih, Option.pure_def,
          Option.some.injEq, List.cons.injEq, List.map_cons, Json.string.injEq]
        constructor
        · rintro ⟨others, hothers, hvalue, rfl⟩
          exact ⟨hvalue, hothers⟩
        · rintro ⟨hvalue, hothers⟩
          exact ⟨texts, hothers, hvalue, rfl⟩
      | _ => simp [Json.string?]

theorem strings?_eq_some {json : Json} {texts : List String} :
    json.strings? = some texts ↔ json = .ofStrings texts := by
  cases json <;> simp [Json.strings?, Json.ofStrings, mapM_string?_eq_some]

/-- A value of a kind without maps is written as it was read. -/
theorem value?_eq_some {kind : FieldKind} {json : Json} {value : Value} (h : kind.value? json = some value) :
    kind.Reads json ∧ value.toJson = json := by
  cases kind with
  | stringList =>
    obtain ⟨items, hitems, rfl⟩ := Option.map_eq_some_iff.1 h
    rw [strings?_eq_some.1 hitems]
    exact ⟨.stringList items, rfl⟩
  | deps role =>
    obtain ⟨items, hitems, rfl⟩ := Option.map_eq_some_iff.1 h
    rw [strings?_eq_some.1 hitems]
    exact ⟨.deps role items, rfl⟩
  | bool =>
    cases json <;> cases h
    exact ⟨.bool _, rfl⟩
  | string =>
    cases json <;> cases h
    exact ⟨.string _, rfl⟩
  | int =>
    cases json <;> simp only [FieldKind.value?, reduceCtorEq, Option.ite_none_right_eq_some] at h
    obtain ⟨hword, hvalue⟩ := h
    cases hvalue
    exact ⟨.int hword, rfl⟩
  | struct _ | conditional _ | configVariables => cases h

theorem not_reads_of_value? {kind : FieldKind} {json : Json} (h : kind.value? json = none) : ¬ kind.Reads json := by
  intro hreads
  cases hreads with
  | bool | string => cases h
  | int hword => simp [FieldKind.value?, hword] at h
  | stringList items | deps role items =>
    rw [FieldKind.value?, strings?_eq_some.2 rfl] at h
    cases h

section Member
variable {path name : String} {layout : Layout} {json : Json}

theorem readMember_leaf {kind : FieldKind} (hcontent : layout.content? name = some (.leaf kind)) :
    layout.readMember path name json = match kind.value? json with
      | some value => .ok value
      | none => .error (layout.fault path name json) := by
  cases json with
  | object members =>
    have hnone : kind.value? (.object members) = none := by cases kind <;> rfl
    simp only [Layout.readMember, hcontent, hnone]
  | _ => simp only [Layout.readMember, hcontent]

theorem readMember_tree {inner : Layout} (hcontent : layout.content? name = some (.tree inner))
    (members : List (String × Json)) : layout.readMember path name (.object members) =
      (Layout.read (joinPath path name) inner members).map .map := by
  simp only [Layout.readMember, hcontent]

/-- A member is read if it is of a kind without maps, or is an object whose members can be read. -/
theorem readMember_eq_ok {value : Value} (h : layout.readMember path name json = .ok value) :
    (∃ kind, layout.content? name = some (.leaf kind) ∧ kind.value? json = some value) ∨
    ∃ inner members props, layout.content? name = some (.tree inner) ∧ json = .object members ∧
      Layout.read (joinPath path name) inner members = .ok props ∧ value = .map props := by
  cases hcontent : layout.content? name with
  | none => cases json <;> simp [Layout.readMember, hcontent] at h
  | some content =>
    cases content with
    | leaf kind =>
      rw [readMember_leaf hcontent] at h
      split at h
      · next found hvalue => cases h; exact .inl ⟨kind, rfl, hvalue⟩
      · cases h
    | tree inner =>
      cases json with
      | object members =>
        rw [readMember_tree hcontent] at h
        obtain ⟨props, hprops, rfl⟩ := Except.map_eq_ok h
        exact .inr ⟨inner, members, props, rfl, rfl, hprops, rfl⟩
      | _ => simp [Layout.readMember, hcontent] at h

/-- A member that cannot be read is refused as it stands, or is an object with a member that cannot be read. -/
theorem readMember_eq_error {error : PropertyError} (h : layout.readMember path name json = .error error) :
    ((∀ content, layout.content? name = some content → ¬ content.Takes json) ∧
      error = layout.fault path name json) ∨
    ∃ inner members, layout.content? name = some (.tree inner) ∧ json = .object members ∧
      Layout.read (joinPath path name) inner members = .error error := by
  cases hcontent : layout.content? name with
  | none =>
    have herror : layout.fault path name json = error := by cases json <;> simpa [Layout.readMember, hcontent] using h
    exact .inl ⟨by simp, herror.symm⟩
  | some content =>
    cases content with
    | leaf kind =>
      rw [readMember_leaf hcontent] at h
      split at h
      · cases h
      · next hvalue =>
        cases h
        exact .inl ⟨fun _ hsome => Option.some.inj hsome ▸ not_reads_of_value? hvalue, rfl⟩
    | tree inner =>
      cases json with
      | object members =>
        rw [readMember_tree hcontent] at h
        cases hread : Layout.read (joinPath path name) inner members with
        | ok props => rw [hread] at h; cases h
        | error cause => rw [hread] at h; cases h; exact .inr ⟨inner, members, rfl, rfl, hread⟩
      | _ =>
        refine .inl ⟨fun _ hsome => Option.some.inj hsome ▸ fun htakes => htakes rfl, ?_⟩
        simpa [Layout.readMember, hcontent] using h.symm

@[simp] theorem skips_object (members : List (String × Json)) : layout.skips (.object members) = false := by
  cases layout <;> rfl

theorem read_cons {rest : List (String × Json)} (hskip : layout.skips json = false) :
    Layout.read path layout ((name, json) :: rest) = (do
      let value ← layout.readMember path name json
      let others ← Layout.read path layout rest
      return (name, value) :: others) := by
  rw [Layout.read, hskip]
  rfl

theorem read_skip {rest : List (String × Json)} (hskip : layout.skips json = true) :
    Layout.read path layout ((name, json) :: rest) = Layout.read path layout rest := by
  rw [Layout.read, if_pos hskip]

/-- What fits somewhere is taken there at first sight. -/
theorem takes_of_fits {content : Content} (h : Json.Fits content json) : content.Takes json := by
  cases h with
  | leaf hreads => exact hreads
  | tree => exact Option.some_ne_none _

/-- What may stand in a place offends nowhere. -/
theorem not_offends_of_stands {names : List String} {error : PropertyError} (h : Json.Stands layout name json) :
    ¬ Json.Offends layout path name json names error := by
  intro hoffends
  induction hoffends with
  | here hrefused =>
    cases h with
    | unset hskip => exact absurd hskip (by simp [hrefused.1])
    | set hcontent hfits => exact hrefused.2 _ hcontent (takes_of_fits hfits)
  | within hinner hmem _ ih =>
    cases h with
    | unset hskip => simp at hskip
    | set hcontent hfits =>
      cases hcontent.symm.trans hinner
      cases hfits with
      | tree hmembers => exact ih (hmembers _ hmem)

end Member

/-! ## Accepting -/

mutual

theorem fits_of_readMember (path name : String) (layout : Layout) (json : Json) (value : Value)
    (h : layout.readMember path name json = .ok value) : ∃ content, layout.content? name = some content ∧
      Json.Fits content json ∧ value.toJson = json.present content := by
  rcases readMember_eq_ok h with ⟨kind, hcontent, hvalue⟩ | ⟨inner, members, props, hcontent, rfl, hprops, rfl⟩
  · obtain ⟨hreads, hjson⟩ := value?_eq_some hvalue
    exact ⟨.leaf kind, hcontent, .leaf hreads, by rw [hjson]; cases json <;> rfl⟩
  · obtain ⟨hmembers, hjson⟩ := stands_of_read (joinPath path name) inner members props hprops
    exact ⟨.tree inner, hcontent, .tree hmembers, by rw [Value.toJson, hjson]; rfl⟩
termination_by sizeOf json

/-- What is read may stand where it is, and is written as it was read but for what stands for nothing. -/
theorem stands_of_read (path : String) (layout : Layout) (members : List (String × Json)) (props : Properties)
    (h : Layout.read path layout members = .ok props) :
    (∀ member ∈ members, Json.Stands layout member.1 member.2) ∧
      Value.fieldsToJson props = Json.presentMembers layout members := by
  match members with
  | [] =>
    cases h
    exact ⟨fun _ hmem => absurd hmem List.not_mem_nil, rfl⟩
  | (name, json) :: rest =>
    rw [List.forall_mem_cons, Json.presentMembers]
    cases hskip : layout.skips json with
    | true =>
      obtain ⟨hrest, hjson⟩ := stands_of_read path layout rest props ((read_skip hskip).symm.trans h)
      exact ⟨⟨.unset hskip, hrest⟩, hjson⟩
    | false =>
      rw [read_cons hskip] at h
      obtain ⟨value, hvalue, h⟩ := bind_eq_ok h
      obtain ⟨others, hothers, h⟩ := bind_eq_ok h
      cases h
      obtain ⟨content, hcontent, hfits, hvaluejson⟩ := fits_of_readMember path name layout json value hvalue
      obtain ⟨hrest, hjson⟩ := stands_of_read path layout rest others hothers
      refine ⟨⟨.set hcontent hfits, hrest⟩, ?_⟩
      rw [Value.fieldsToJson, hjson, hvaluejson, hcontent]
      rfl
termination_by sizeOf members

end

mutual

/-- A member is read as it is without what stands for nothing. -/
theorem readMember_present (path name : String) (layout : Layout) (json : Json) :
    layout.readMember path name (match layout.content? name with
      | some content => json.present content
      | none => json) = layout.readMember path name json := by
  cases hcontent : layout.content? name with
  | none => rfl
  | some content =>
    cases json with
    | object members =>
      cases content with
      | leaf kind => rfl
      | tree inner =>
        simp only [Json.present, Layout.readMember, hcontent, read_present (joinPath path name) inner members]
    | _ => cases content <;> rfl
termination_by sizeOf json

theorem read_present (path : String) (layout : Layout) (members : List (String × Json)) :
    Layout.read path layout (Json.presentMembers layout members) = Layout.read path layout members := by
  match members with
  | [] => rfl
  | (name, json) :: rest =>
    rw [Json.presentMembers]
    cases hskip : layout.skips json with
    | true => exact (read_present path layout rest).trans (read_skip hskip).symm
    | false =>
      have hkept : layout.skips (match layout.content? name with
          | some content => json.present content
          | none => json) = false := by
        split
        · next content _ => cases json <;> cases content <;> first | exact hskip | exact skips_object _
        · exact hskip
      simp only [Bool.false_eq_true, if_false]
      rw [read_cons hkept, read_cons hskip, readMember_present path name layout json, read_present path layout rest]
termination_by sizeOf members

end

/-! ## Refusing -/

section Offences
variable {path name : String} {layout : Layout} {json : Json} {names : List String} {error : PropertyError}

/-- What offends in a member is found under its name. -/
theorem Json.Offends.head (h : Json.Offends layout path name json names error) : ∃ rest, names = name :: rest := by
  cases h with
  | here => exact ⟨[], rfl⟩
  | within => exact ⟨_, rfl⟩

/-- Of one name only one member of an ordered object is there. -/
theorem eq_of_mem_of_ordered {members : Table Json} (hm : Table.Ordered members) {first second : String × Json}
    (hfirst : first ∈ members) (hsecond : second ∈ members) (hname : first.1 = second.1) : first = second := by
  have hvalue := (Table.find?_of_mem hm hfirst).symm.trans (hname ▸ Table.find?_of_mem hm hsecond)
  exact Prod.ext hname (Option.some.inj hvalue)

/-- One thing is said of what names lead to. -/
theorem Json.Offends.unique (hjson : json.Ordered) {error' : PropertyError}
    (h : Json.Offends layout path name json names error) (h' : Json.Offends layout path name json names error') :
    error = error' := by
  induction h with
  | here =>
    cases h' with
    | here => rfl
    | within _ _ hoffends =>
      obtain ⟨rest, hrest⟩ := hoffends.head
      cases hrest
  | within hinner hmem hoffends ih =>
    obtain ⟨hordered, hmembers⟩ := Json.ordered_object.1 hjson
    obtain ⟨rest, rfl⟩ := hoffends.head
    cases h' with
    | within hinner' hmem' hoffends' =>
      cases hinner.symm.trans hinner'
      obtain ⟨rest', hrest'⟩ := hoffends'.head
      injection hrest' with hname
      obtain rfl := eq_of_mem_of_ordered hordered hmem hmem' hname
      exact ih (hmembers _ hmem) hoffends'

/-- The first offence is the only first one. -/
theorem Json.FirstOffence.unique {members : Table Json} (hm : (Json.object members).Ordered) {names' : List String}
    {error' : PropertyError} (h : FirstOffence layout path members names error)
    (h' : FirstOffence layout path members names' error') : error = error' := by
  obtain ⟨hordered, hmembers⟩ := Json.ordered_object.1 hm
  obtain ⟨member, hmem, hoffends⟩ := h.offends
  obtain ⟨member', hmem', hoffends'⟩ := h'.offends
  have hnames : names = names' := by
    rcases h.first member' hmem' _ _ hoffends' with heq | hlt
    · exact heq.symm
    · rcases h'.first member hmem _ _ hoffends with heq | hgt
      · exact heq
      · exact absurd (List.lt_trans hlt hgt) (List.lt_irrefl names)
  subst hnames
  obtain ⟨rest, rfl⟩ := hoffends.head
  obtain ⟨rest', hrest'⟩ := hoffends'.head
  injection hrest' with hname
  obtain rfl := eq_of_mem_of_ordered hordered hmem hmem' hname
  exact hoffends.unique (hmembers _ hmem) hoffends'

/-- The first offence of a first member comes before those of all others. -/
theorem Json.FirstOffence.of_head {rest : List (String × Json)} (hlt : ∀ member ∈ rest, name < member.1)
    (h : FirstOffence layout path [(name, json)] names error) :
    FirstOffence layout path ((name, json) :: rest) names error := by
  obtain ⟨⟨member, hmem, hoffends⟩, hfirst⟩ := h
  obtain rfl := List.mem_singleton.1 hmem
  refine ⟨⟨_, List.mem_cons_self, hoffends⟩, fun member hmem other error' hother => ?_⟩
  rcases List.mem_cons.1 hmem with rfl | hmem
  · exact hfirst _ List.mem_cons_self other error' hother
  · obtain ⟨below, rfl⟩ := hoffends.head
    obtain ⟨below', rfl⟩ := hother.head
    exact .inr (List.cons_lt_cons_iff.2 (.inl (hlt member hmem)))

/-- Members that do not offend may stand before the first offence. -/
theorem Json.FirstOffence.of_tail {rest : List (String × Json)} (hstands : Json.Stands layout name json)
    (h : FirstOffence layout path rest names error) : FirstOffence layout path ((name, json) :: rest) names error := by
  obtain ⟨⟨member, hmem, hoffends⟩, hfirst⟩ := h
  refine ⟨⟨member, List.mem_cons_of_mem _ hmem, hoffends⟩, fun member hmem other error' hother => ?_⟩
  rcases List.mem_cons.1 hmem with rfl | hmem
  · exact absurd hother (not_offends_of_stands hstands)
  · exact hfirst member hmem other error' hother

/-- A refused member offends where it stands, and nowhere else. -/
theorem firstOffence_here (hrefused : layout.Refuses name json) :
    Json.FirstOffence layout path [(name, json)] [name] (layout.fault path name json) := by
  refine ⟨⟨_, List.mem_cons_self, .here hrefused⟩, fun member hmem other error' hother => ?_⟩
  obtain rfl := List.mem_singleton.1 hmem
  cases hother with
  | here => exact .inl rfl
  | within hinner => exact absurd (Option.some_ne_none _) (hrefused.2 _ hinner)

/-- The first offence within an object is the first one of the object. -/
theorem firstOffence_within {inner : Layout} {members : List (String × Json)}
    (hinner : layout.content? name = some (.tree inner))
    (h : Json.FirstOffence inner (joinPath path name) members names error) :
    Json.FirstOffence layout path [(name, .object members)] (name :: names) error := by
  obtain ⟨⟨member, hmem, hoffends⟩, hfirst⟩ := h
  refine ⟨⟨_, List.mem_cons_self, .within hinner hmem hoffends⟩, fun single hsingle other error' hother => ?_⟩
  obtain rfl := List.mem_singleton.1 hsingle
  cases hother with
  | here hrefused => exact absurd (Option.some_ne_none _) (hrefused.2 _ hinner)
  | within hinner' hmem' hoffends' =>
    cases hinner.symm.trans hinner'
    rcases hfirst _ hmem' _ _ hoffends' with rfl | hlater
    · exact .inl rfl
    · exact .inr (List.cons_lt_cons_iff.2 (.inr ⟨rfl, hlater⟩))

end Offences

mutual

theorem exists_firstOffence_of_readMember (path name : String) (layout : Layout) (json : Json) (error : PropertyError)
    (hskip : layout.skips json = false) (hjson : json.Ordered) (h : layout.readMember path name json = .error error) :
    ∃ names, Json.FirstOffence layout path [(name, json)] names error := by
  rcases readMember_eq_error h with ⟨hrefused, rfl⟩ | ⟨inner, members, hcontent, rfl, hread⟩
  · exact ⟨[name], firstOffence_here ⟨hskip, hrefused⟩⟩
  · obtain ⟨names, hfirst⟩ := exists_firstOffence_of_read (joinPath path name) inner members error hjson hread
    exact ⟨name :: names, firstOffence_within hcontent hfirst⟩
termination_by sizeOf json

/-- Reading stops at the first offence. -/
theorem exists_firstOffence_of_read (path : String) (layout : Layout) (members : List (String × Json))
    (error : PropertyError) (hm : (Json.object members).Ordered) (h : Layout.read path layout members = .error error) :
    ∃ names, Json.FirstOffence layout path members names error := by
  match members with
  | [] => cases h
  | (name, json) :: rest =>
    obtain ⟨hordered, hall⟩ := Json.ordered_object.1 hm
    obtain ⟨hlt, hrest⟩ := Table.ordered_cons.1 hordered
    obtain ⟨hjson, hmembers⟩ := List.forall_mem_cons.1 hall
    have hlater := exists_firstOffence_of_read path layout rest error (Json.ordered_object.2 ⟨hrest, hmembers⟩)
    cases hskip : layout.skips json with
    | true =>
      rw [read_skip hskip] at h
      obtain ⟨names, hfirst⟩ := hlater h
      exact ⟨names, hfirst.of_tail (.unset hskip)⟩
    | false =>
      rw [read_cons hskip] at h
      cases hvalue : layout.readMember path name json with
      | error cause =>
        rw [hvalue] at h
        cases h
        obtain ⟨names, hfirst⟩ := exists_firstOffence_of_readMember path name layout json _ hskip hjson hvalue
        exact ⟨names, hfirst.of_head hlt⟩
      | ok value =>
        obtain ⟨content, hcontent, hfits, -⟩ := fits_of_readMember path name layout json value hvalue
        rw [hvalue, ok_bind] at h
        cases hothers : Layout.read path layout rest with
        | ok others =>
          rw [hothers] at h
          cases h
        | error cause =>
          rw [hothers] at h
          cases h
          obtain ⟨names, hfirst⟩ := hlater hothers
          exact ⟨names, hfirst.of_tail (.set hcontent hfits)⟩
termination_by sizeOf members

end

/-- **Populating accepts exactly its grammar, loses only nulls, and reports the first offence.** An object is read by
a schema exactly if it fits it. The tree, written as JSON, is then the object without the nulls that stand for
nothing, and reading that gives the same tree again. Otherwise the error is that of the first offending member in the
order of the names that lead there. -/
theorem populate_exact (schema : Schema) {members : Table Json} (hm : (Json.object members).Ordered) :
    ((∃ props, populate schema members = .ok props) ↔ Json.Fits (.tree (.fields schema)) (.object members)) ∧
    (∀ props, populate schema members = .ok props →
      props.toJson = .object (Json.presentMembers (.fields schema) members) ∧
      populate schema (Value.fieldsToJson props) = .ok props) ∧
    ∀ error, populate schema members = .error error ↔
      ∃ names, Json.FirstOffence (.fields schema) "" members names error := by
  have hstands : ∀ props, populate schema members = .ok props →
      (∀ member ∈ members, Json.Stands (.fields schema) member.1 member.2) ∧
        Value.fieldsToJson props = Json.presentMembers (.fields schema) members := fun props h =>
    stands_of_read "" (.fields schema) members props ((populate_eq_read schema members).symm.trans h)
  have hfirst : ∀ error, populate schema members = .error error →
      ∃ names, Json.FirstOffence (.fields schema) "" members names error := fun error h =>
    exists_firstOffence_of_read "" (.fields schema) members error hm ((populate_eq_read schema members).symm.trans h)
  refine ⟨⟨fun ⟨props, h⟩ => .tree (hstands props h).1, fun hfits => ?_⟩, fun props h => ?_,
    fun error => ⟨hfirst error, ?_⟩⟩
  · cases hfits with
    | tree hmembers =>
      cases hread : populate schema members with
      | ok props => exact ⟨props, rfl⟩
      | error error =>
        obtain ⟨names, ⟨member, hmem, hoffends⟩, -⟩ := hfirst error hread
        exact absurd hoffends (not_offends_of_stands (hmembers member hmem))
  · obtain ⟨-, hjson⟩ := hstands props h
    refine ⟨congrArg Json.object hjson, ?_⟩
    rw [hjson, populate_eq_read, read_present, ← populate_eq_read, h]
  · rintro ⟨names, hoffence⟩
    cases hread : populate schema members with
    | ok props =>
      obtain ⟨member, hmem, hoffends⟩ := hoffence.offends
      exact absurd hoffends (not_offends_of_stands ((hstands props hread).1 member hmem))
    | error cause =>
      obtain ⟨names', hoffence'⟩ := hfirst cause hread
      rw [hoffence.unique hm hoffence']

/-- Properties of a program, some of them unset. -/
def setAndUnset : Table Json :=
  [("arch", .object [("arm64", .object [("cflags", .null), ("srcs", .array [.string "a.c"])])]), ("enabled", .null),
    ("soong_config_variables", .object [("board", .object [("cflags", .array [.string "-b"]),
      ("conditions_default", .null), ("v1.2", .object [("srcs", .null)])])])]

/-- A branch that is never selected, and a text for a list further on. -/
def misplacedTwice : Table Json :=
  [("arch", .object [("arm64", .object [("enabled", .null)]), ("mips", .null)]), ("srcs", .string "a.c")]

theorem populate_exact_binary :
    (Json.object setAndUnset).Ordered ∧ (Json.object misplacedTwice).Ordered ∧
    (∃ props, populate Builtin.binary.schema setAndUnset = .ok props ∧
      Json.Fits (.tree (.fields Builtin.binary.schema)) (.object setAndUnset) ∧
      props.toJson = .object [("arch", .object [("arm64", .object [("srcs", .array [.string "a.c"])])]),
        ("soong_config_variables", .object [("board", .object [("cflags", .array [.string "-b"]),
          ("v1.2", .object [])])])] ∧
      populate Builtin.binary.schema (Value.fieldsToJson props) = .ok props) ∧
    populate Builtin.binary.schema misplacedTwice = .error (.unknownCondition "arch" "mips") ∧
    ¬ Json.Fits (.tree (.fields Builtin.binary.schema)) (.object misplacedTwice) ∧
    (∃ names, Json.FirstOffence (.fields Builtin.binary.schema) "" misplacedTwice names
      (.unknownCondition "arch" "mips")) ∧
    Json.Offends (.fields Builtin.binary.schema) "" "srcs" (.string "a.c") ["srcs"]
      (.typeMismatch "srcs" "a list of strings" "a string") := by
  have hset : (Json.object setAndUnset).Ordered := by
    simp only [setAndUnset, Json.Ordered, Json.MembersOrdered, Table.Ordered]
    decide +kernel
  have hmisplaced : (Json.object misplacedTwice).Ordered := by
    simp only [misplacedTwice, Json.Ordered, Json.MembersOrdered, Table.Ordered]
    decide +kernel
  obtain ⟨hfits, hread, -⟩ := populate_exact Builtin.binary.schema hset
  obtain ⟨hunfit, -, hfirst⟩ := populate_exact Builtin.binary.schema hmisplaced
  have herror : populate Builtin.binary.schema misplacedTwice = .error (.unknownCondition "arch" "mips") := rfl
  obtain ⟨props, hprops⟩ : ∃ props, populate Builtin.binary.schema setAndUnset = .ok props := ⟨_, rfl⟩
  obtain ⟨hjson, hagain⟩ := hread props hprops
  refine ⟨hset, hmisplaced, ⟨props, hprops, hfits.1 ⟨props, hprops⟩, hjson, hagain⟩, herror, fun hfit => ?_,
    (hfirst _).1 herror, ?_⟩
  · obtain ⟨read, hok⟩ := hunfit.2 hfit
    rw [herror] at hok
    cases hok
  · have hcontent : (Layout.fields Builtin.binary.schema).content? "srcs" = some (.leaf .stringList) := rfl
    exact .here ⟨rfl, fun content hsome => by cases hcontent.symm.trans hsome; exact not_reads_of_value? rfl⟩

end VariantGraph
