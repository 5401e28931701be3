import VariantGraph.Proofs.Property.Conformity
import VariantGraph.Proofs.Property.Select
/-!
# Trees of one schema stay trees of the schema

Starting from what records are read into, merging, taking over by the schema and selecting branches never
fail and never leave the schema (`Schema.Tree.closed`). Two values that may stand in one place are of one
kind, so a merge has nothing to refuse (`error?_append_of_has`); and what varies within a branch is what
varies within the whole tree, so a branch may take the place of its parent (`follows_of_variantFields`).
-/
namespace VariantGraph

/-! ## Branches -/

/-- All fields of a branch may stand in branches again. -/
theorem variantFields_variantFields (schema : Schema) : schema.variantFields.variantFields = schema.variantFields := by
  simp [Schema.variantFields, List.filter_filter]

/-- A field holds the same in a branch as at the top. -/
theorem content_variantFields (kind : FieldKind) (schema : Schema) :
    kind.content schema.variantFields = kind.content schema := by
  cases kind <;> simp only [FieldKind.content, variantFields_variantFields]

section Branches
variable {schema : Schema} (hs : Table.Ordered schema)
include hs

/-- No name stands for two fields, so a field of a branch is the one that the schema has under its name. -/
theorem find?_of_variantFields {name : String} {field : Field}
    (h : schema.variantFields.find? name = some field) : schema.find? name = some field :=
  Table.find?_of_mem hs (List.mem_filter.1 (Table.mem_of_find? h)).1

theorem admits_of_variantFields {name : String} {value : Value}
    (h : (Layout.fields schema.variantFields).admits name value = true) :
    (Layout.fields schema).admits name value = true := by
  obtain ⟨content, hcontent, hhas⟩ := Layout.admits_iff.1 h
  obtain ⟨field, hfield, rfl⟩ := Option.map_eq_some_iff.1 hcontent
  rw [content_variantFields] at hhas
  exact Layout.admits_iff.2 ⟨_, by rw [Layout.content?, find?_of_variantFields hs hfield]; rfl, hhas⟩

/-- A branch conforms to the schema that its conditional field belongs to. -/
theorem follows_of_variantFields {branch : Properties} (h : branch.follows (.fields schema.variantFields) = true) :
    branch.follows (.fields schema) = true :=
  Properties.follows_iff.2 fun entry hmem => admits_of_variantFields hs (Properties.follows_iff.1 h entry hmem)

end Branches

/-! ## Merging -/

section Merging
variable {layout : Layout} {props more : Properties}

theorem follows_insert {name : String} {value : Value} (hp : props.follows layout = true)
    (hv : layout.admits name value = true) : Properties.follows (props.insert name value) layout = true := by
  refine Properties.follows_iff.2 fun entry hmem => ?_
  rcases Table.mem_insert hmem with ⟨hname, hvalue⟩ | hold
  · rw [hname, hvalue]; exact hv
  · exact Properties.follows_iff.1 hp entry hold

/-- A merge that runs to its end conforms if both of its parts do. -/
theorem follows_appendAt {path : String} (hp : props.follows layout = true) (hm : more.follows layout = true)
    (h : (Properties.appendAt path props more).error? = none) :
    (Properties.appendAt path props more).state.follows layout = true :=
  Properties.follows_iff.2 ((forall_appendAt (fun entry _ => mergeable_admits layout entry.1 entry.2) h).2
    ⟨Properties.follows_iff.1 hp, Properties.follows_iff.1 hm⟩)

/-- A merge of trees runs to its end if all values of one name can be merged. -/
theorem error?_appendAt_of_follows {path : String}
    (hstep : ∀ entry ∈ more, ∀ (content : Content) (path : String) (old : Value), old.has content = true →
      entry.2.has content = true → (Value.append path old entry.2).error? = none)
    (hp : props.follows layout = true) (hm : more.follows layout = true) :
    (Properties.appendAt path props more).error? = none := by
  induction more generalizing props with
  | nil => rfl
  | cons entry rest ih =>
    obtain ⟨name, value⟩ := entry
    obtain ⟨hvalue, hrest⟩ := Properties.follows_cons.1 hm
    have hnext := fun entry he => hstep entry (List.mem_cons_of_mem _ he)
    simp only [Properties.appendAt]
    cases hf : Table.find? props name with
    | none => exact ih hnext (follows_insert hp hvalue) hrest
    | some old =>
      -- one name asks for one content, whichever tree it is in
      obtain ⟨content, hcontent, hhas⟩ := Layout.admits_iff.1 hvalue
      obtain ⟨content', hcontent', hold⟩ :=
        Layout.admits_iff.1 (Properties.follows_iff.1 hp _ (Table.mem_of_find? hf))
      obtain rfl : content = content' := Option.some.inj (hcontent.symm.trans hcontent')
      have hone := hstep _ List.mem_cons_self content (joinPath path name) old hold hhas
      have hmerged := (has_append content value (joinPath path name) old hone).2 ⟨hold, hhas⟩
      simp only [Attempt.result_of_error? hone]
      exact ih hnext (follows_insert hp (Layout.admits_iff.2 ⟨content, hcontent, hmerged⟩)) hrest

end Merging

/-- **Two values that may stand in one place can be merged.** -/
theorem error?_append_of_has : ∀ (value : Value) (content : Content) (path : String) (old : Value),
    old.has content = true → value.has content = true → (Value.append path old value).error? = none
  | .map more, .tree layout, path, .map fields, hold, hvalue => by
    have hstep : ∀ entry ∈ more, ∀ (content : Content) (path : String) (old : Value), old.has content = true →
        entry.2.has content = true → (Value.append path old entry.2).error? = none := by
      rintro ⟨name, value⟩ hmem content path old
      exact error?_append_of_has value content path old
    simp only [Value.append, Attempt.error?_within]
    exact error?_appendAt_of_follows hstep hold hvalue
  | .map _, .leaf _, _, _, _, hvalue => by simp at hvalue
  | .map _, .tree _, _, .bool _, hold, _ | .map _, .tree _, _, .int _, hold, _
  | .map _, .tree _, _, .string _, hold, _ | .map _, .tree _, _, .list _, hold, _ => by simp [Value.has] at hold
  | .bool _, .tree _, _, _, _, hvalue | .int _, .tree _, _, _, _, hvalue
  | .string _, .tree _, _, _, _, hvalue | .list _, .tree _, _, _, _, hvalue => by simp [Value.has] at hvalue
  | .bool _, .leaf kind, _, old, hold, hvalue | .int _, .leaf kind, _, old, hold, hvalue
  | .string _, .leaf kind, _, old, hold, hvalue | .list _, .leaf kind, _, old, hold, hvalue => by
    -- a kind without maps fits values of one constructor only
    cases kind <;> simp only [Value.has, FieldKind.fits, Bool.false_eq_true] at hvalue <;>
      cases old <;> simp only [Value.has, FieldKind.fits, Bool.false_eq_true] at hold <;> rfl
termination_by value => sizeOf value
decreasing_by
  have hsize := List.sizeOf_lt_of_mem hmem
  simp only [Prod.mk.sizeOf_spec, Value.map.sizeOf_spec] at hsize ⊢
  omega

section Merging
variable {layout : Layout} {props more : Properties} (hp : props.follows layout = true)
include hp

theorem error?_appendAt (path : String) (hm : more.follows layout = true) :
    (Properties.appendAt path props more).error? = none :=
  error?_appendAt_of_follows (fun entry _ => error?_append_of_has entry.2) hp hm

theorem appendAll_of_follows {trees : List Properties} (ht : ∀ tree ∈ trees, tree.follows layout = true) :
    (Properties.appendAll props trees).error? = none ∧
      (Properties.appendAll props trees).state.follows layout = true := by
  induction trees generalizing props with
  | nil => exact ⟨rfl, hp⟩
  | cons tree trees ih =>
    have htree := ht tree List.mem_cons_self
    have hone : (props.append tree).error? = none := error?_appendAt hp "" htree
    obtain ⟨herror, hstate⟩ := ih (follows_appendAt hp htree hone) fun t he => ht t (List.mem_cons_of_mem _ he)
    exact ⟨Attempt.error?_andThen.2 ⟨hone, herror⟩, by
      rw [Properties.appendAll, Attempt.state_andThen _ hone]; exact hstate⟩

end Merging

/-! ## Taking over by the schema -/

/-- What conforms to a schema can be taken over by it, whichever names are excluded. -/
theorem appendMatching_of_follows {schema : Schema} {props more : Properties} (excluded : List String)
    (hp : props.follows (.fields schema) = true) (hm : more.follows (.fields schema) = true) :
    (Properties.appendMatching schema excluded props more).error? = none ∧
      (Properties.appendMatching schema excluded props more).state.follows (.fields schema) = true := by
  induction more generalizing props with
  | nil => exact ⟨rfl, hp⟩
  | cons entry rest ih =>
    obtain ⟨name, value⟩ := entry
    obtain ⟨hvalue, hrest⟩ := Properties.follows_cons.1 hm
    have hentry : Properties.follows [(name, value)] (.fields schema) = true :=
      Properties.follows_cons.2 ⟨hvalue, rfl⟩
    simp only [Properties.appendMatching]
    split
    · exact ih hp hrest
    · split
      · exact ih hp hrest
      · next field hf =>
        have hfits : field.kind.fits value = true := by
          have := fits_of_admits hvalue
          rwa [Schema.fits, hf] at this
        have hone := error?_appendAt hp "" hentry
        obtain ⟨herror, hstate⟩ := ih (follows_appendAt hp hentry hone) hrest
        rw [if_pos hfits]
        exact ⟨Attempt.error?_andThen.2 ⟨hone, herror⟩, by rw [Attempt.state_andThen _ hone]; exact hstate⟩

/-! ## Selecting -/

section Selecting
variable {condition : Condition} {schema : Schema} {branches : Properties} (field : String)
  (hb : branches.follows (.branches condition schema) = true)
include hb

/-- What stands under a name in a conditional field is a branch. -/
theorem branch?_of_follows (key : String) : ∃ found, Properties.branch? branches field key = .ok found ∧
    ∀ branch ∈ found, branch.follows (.fields schema) = true := by
  unfold Properties.branch?
  cases hf : Table.find? branches key with
  | none => exact ⟨none, rfl, by simp⟩
  | some value =>
    obtain ⟨content, hcontent, hhas⟩ :=
      Layout.admits_iff.1 (Properties.follows_iff.1 hb _ (Table.mem_of_find? hf))
    simp only [Layout.content?, Option.ite_none_right_eq_some, Option.some.injEq] at hcontent
    obtain ⟨-, rfl⟩ := hcontent
    cases value with
    | map branch => exact ⟨some branch, rfl, by simpa using hhas⟩
    | _ => cases hhas

theorem branches?_of_follows (keys : List String) : ∃ found, Properties.branches? branches field keys = .ok found ∧
    ∀ branch ∈ found, branch.follows (.fields schema) = true := by
  induction keys with
  | nil => exact ⟨[], rfl, by simp⟩
  | cons key keys ih =>
    obtain ⟨first, hfirst, hgood⟩ := branch?_of_follows field hb key
    obtain ⟨others, hothers, hall⟩ := ih
    refine ⟨first.toList ++ others, by rw [Properties.branches?, hfirst, hothers]; rfl, fun branch hmem => ?_⟩
    rcases List.mem_append.1 hmem with hmem | hmem
    · exact hgood branch (Option.mem_toList.1 hmem)
    · exact hall branch hmem

theorem choose_of_follows (keys : List String) :
    ∃ found named, Properties.choose branches field keys = .ok (found, named) ∧
      ∀ branch ∈ found, branch.follows (.fields schema) = true := by
  obtain ⟨found, hfound, hall⟩ := branches?_of_follows field hb keys
  obtain ⟨fallback, hfallback, hgood⟩ := branch?_of_follows field hb conditionsDefault
  unfold Properties.choose
  rw [hfound, hfallback]
  cases found with
  | nil => exact ⟨fallback.toList, false, rfl, fun branch hmem => hgood branch (Option.mem_toList.1 hmem)⟩
  | cons branch rest => exact ⟨branch :: rest, true, rfl, hall⟩

end Selecting

theorem mem_without {props : Properties} {name : String} (hname : pathComponents name = [name])
    {entry : String × Value} : entry ∈ props.without name ↔ entry ∈ props ∧ entry.1 ≠ name := by
  unfold Properties.without Properties.remove?
  rw [hname, Properties.removeAt?]
  cases hf : Table.find? props name with
  | none => exact ⟨fun hmem => ⟨hmem, Table.ne_of_find?_eq_none hf hmem⟩, And.left⟩
  | some value => exact Table.mem_erase_iff

theorem follows_without {layout : Layout} {props : Properties} (hp : props.follows layout = true) {name : String}
    (hname : pathComponents name = [name]) : (props.without name).follows layout = true :=
  Properties.follows_iff.2 fun entry hmem => Properties.follows_iff.1 hp entry ((mem_without hname).1 hmem).1

/-- Selecting in a conditional field of the schema never fails, and its branches are trees of the schema. -/
theorem select_of_follows {schema : Schema} (hs : Table.Ordered schema) {props : Properties}
    (hp : props.follows (.fields schema) = true) {field : String} {condition : Condition} {varies : Bool}
    (hname : pathComponents field = [field]) (hfield : schema.find? field = some ⟨.conditional condition, varies⟩)
    (keys : List String) : (props.select field keys).error? = none ∧
      (props.select field keys).state.follows (.fields schema) = true := by
  unfold Properties.select
  rw [Properties.get?_of_single hname]
  cases hf : Table.find? props field with
  | none => exact ⟨rfl, hp⟩
  | some value =>
    obtain ⟨content, hcontent, hhas⟩ := Layout.admits_iff.1 (Properties.follows_iff.1 hp _ (Table.mem_of_find? hf))
    rw [Layout.content?, hfield] at hcontent
    cases hcontent
    cases value with
    | map branches =>
      obtain ⟨found, named, hchoose, hall⟩ := choose_of_follows field hhas keys
      simp only [hchoose]
      cases found with
      | nil => exact ⟨rfl, hp⟩
      | cons branch rest =>
        obtain ⟨herror, hstate⟩ := appendAll_of_follows (follows_without hp hname)
          fun branch hmem => follows_of_variantFields hs (hall branch hmem)
        exact ⟨Attempt.error?_andThen.2 ⟨herror, rfl⟩, by rw [Attempt.state_andThen _ herror]; exact hstate⟩
    | _ => cases hhas

/-! ## All operations -/

/-- The trees that a schema's records lead to, by merging, by taking over by the schema with any names
excluded, and by selecting with any keys in a field that the schema has as a conditional one (`target`,
`arch`, `link`, or any name that is no dotted path). -/
inductive Schema.Tree (schema : Schema) : Properties → Prop where
  | populated {members : Table Json} {props : Properties} : populate schema members = .ok props → schema.Tree props
  | appended {props more : Properties} :
      schema.Tree props → schema.Tree more → schema.Tree (props.append more).state
  | matched {props more : Properties} (excluded : List String) : schema.Tree props → schema.Tree more →
      schema.Tree (Properties.appendMatching schema excluded props more).state
  | selected {props : Properties} {field : String} {condition : Condition} {varies : Bool} (keys : List String) :
      schema.Tree props → pathComponents field = [field] →
      schema.find? field = some ⟨.conditional condition, varies⟩ → schema.Tree (props.select field keys).state

theorem Schema.Tree.follows {schema : Schema} (hs : Table.Ordered schema) {props : Properties}
    (h : schema.Tree props) : props.follows (.fields schema) = true := by
  induction h with
  | populated hpopulate => exact follows_populate hpopulate
  | appended _ _ hp hm => exact follows_appendAt hp hm (error?_appendAt hp "" hm)
  | matched excluded _ _ hp hm => exact (appendMatching_of_follows excluded hp hm).2
  | selected keys _ hname hfield hp => exact (select_of_follows hs hp hname hfield keys).2

/-- **A schema is closed under its operations.** Whatever was done to trees that were read by one schema,
the result conforms to the schema at every depth, and merging it with another such tree, taking that one
over by the schema and selecting in a conditional field do not fail. -/
theorem Schema.Tree.closed {schema : Schema} (hs : Table.Ordered schema) {props : Properties}
    (h : schema.Tree props) : props.follows (.fields schema) = true ∧
      (∀ more, schema.Tree more → (props.append more).error? = none ∧
        ∀ excluded, (Properties.appendMatching schema excluded props more).error? = none) ∧
      ∀ field condition varies keys, pathComponents field = [field] →
        schema.find? field = some ⟨.conditional condition, varies⟩ → (props.select field keys).error? = none := by
  have hp := h.follows hs
  refine ⟨hp, fun more hmore => ⟨?_, fun excluded => ?_⟩, fun field condition varies keys hname hfield => ?_⟩
  · exact error?_appendAt hp "" (hmore.follows hs)
  · exact (appendMatching_of_follows excluded hp (hmore.follows hs)).1
  · exact (select_of_follows hs hp hname hfield keys).1

/-- The names that conditional fields have are no dotted paths. -/
theorem single_conditional : ∀ field ∈ ["target", "arch", "link"], pathComponents field = [field] := by
  decide +kernel

/-- A schema in which conditions and configuration variables may stand in branches themselves. -/
def nestedSchema : Schema :=
  Schema.varying [] "arch" (.conditional .arch) |>.varying "cflags" .stringList
    |>.varying "signing" (.struct (Schema.varying [] "key" .string |>.fixed "target" (.conditional .target)))
    |>.varying "soong_config_variables" .configVariables

/-- A branch that holds a conditional field of the same name. -/
def nestedBranch : Table Json :=
  [("arch", .object [("arm64", .object [("arch", .object [("arm", .object [("cflags", .array [.string "-b"])])]),
    ("cflags", .array [.string "-a"])])])]

/-- Selecting the branch puts its own conditional field in the place of the one that it came from. -/
theorem Schema.Tree.closed_nestedBranch : Table.Ordered nestedSchema ∧ ∃ props,
    populate nestedSchema nestedBranch = .ok props ∧
    pathComponents "arch" = ["arch"] ∧ nestedSchema.find? "arch" = some ⟨.conditional .arch, true⟩ ∧
    nestedSchema.Tree (props.select "arch" ["arm64"]).state ∧
    (props.select "arch" ["arm64"]).state.getList "arch.arm.cflags" = ["-b"] ∧
    (props.select "arch" ["arm64"]).state.follows (.fields nestedSchema) = true ∧
    ((props.select "arch" ["arm64"]).state.append props).error? = none ∧
    ((props.select "arch" ["arm64"]).state.select "arch" ["arm", "arm"]).error? = none := by
  have hordered : Table.Ordered nestedSchema := by unfold Table.Ordered; decide +kernel
  have hname : pathComponents "arch" = ["arch"] := single_conditional "arch" (by decide)
  have hfield : nestedSchema.find? "arch" = some ⟨.conditional .arch, true⟩ := rfl
  obtain ⟨props, hpopulate, hlist⟩ : ∃ props, populate nestedSchema nestedBranch = .ok props ∧
      (props.select "arch" ["arm64"]).state.getList "arch.arm.cflags" = ["-b"] := ⟨_, rfl, by decide +kernel⟩
  have hselected : nestedSchema.Tree (props.select "arch" ["arm64"]).state :=
    .selected _ (.populated hpopulate) hname hfield
  obtain ⟨hfollows, happend, hselect⟩ := Schema.Tree.closed hordered hselected
  refine ⟨hordered, props, hpopulate, hname, hfield, hselected, hlist, hfollows, ?_, ?_⟩
  · exact (happend props (.populated hpopulate)).1
  · exact hselect "arch" .arch true ["arm", "arm"] hname hfield

end VariantGraph
