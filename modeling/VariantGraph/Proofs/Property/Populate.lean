import VariantGraph.ModuleType.Builtin
import VariantGraph.Property.Populate
import VariantGraph.Proofs.Package.Record
import VariantGraph.Proofs.Property.Merge
/-!
# What populating makes of ordered records

Records hold JSON objects, whose keys increase. Populating keeps the order, and the schemas of the
built-in types bound how deep a field nests (`neatBy_populate`): branches hold no maps.
-/
namespace VariantGraph

/-- A kind whose values are no maps. -/
def FieldKind.isFlat : FieldKind → Bool
  | bool | int | string | stringList | deps _ => true
  | struct _ | conditional _ | configVariables => false

/-- How deep maps may nest in a field. -/
def fieldDepth (name : String) : Nat := if name = "soong_config_variables" then 3 else 2

/-- A schema in which what varies is flat, structures hold flat fields only, and configuration variables
stand in their place. -/
def Schema.isPlain (schema : Schema) : Bool :=
  schema.variantFields.all (fun (_, field) => field.kind.isFlat) &&
    schema.all fun (name, field) =>
      match field.kind with
      | .struct fields => fields.all fun (_, field) => field.kind.isFlat
      | .configVariables => name = "soong_config_variables"
      | _ => true

theorem isPlain_builtin : ∀ entry ∈ Builtin.types, entry.2.schema.isPlain = true := by decide +kernel

/-! ## Flat fields -/

theorem neat_populateField {path : String} {kind : FieldKind} {parent : Schema} {json : Json}
    {value : Value} (hk : kind.isFlat = true) (h : populateField path kind parent json = .ok value) :
    value.Neat 0 := by
  cases value with
  | map fields =>
    cases kind <;> cases json <;> simp [populateField, FieldKind.isFlat] at h hk <;> split at h <;> simp at h
  | _ => trivial

theorem Except.map_eq_ok {ε α β : Type} {f : α → β} {attempt : Except ε α} {result : β}
    (h : attempt.map f = .ok result) : ∃ a, attempt = .ok a ∧ f a = result := by
  cases attempt with
  | error error => cases h
  | ok a => injection h with h; exact ⟨a, rfl, h⟩

section Members
variable {path : String} {schema : Schema} {depth : String → Nat} {props : Properties}

/-- Fields come in the order of the members they were read from. -/
def From (members : List (String × Json)) (props : Properties) : Prop :=
  ∀ entry ∈ props, ∃ json, (entry.1, json) ∈ members

theorem From.tail {member : String × Json} {members : List (String × Json)} (h : From members props) :
    From (member :: members) props := fun entry he =>
  let ⟨json, hj⟩ := h entry he
  ⟨json, List.mem_cons_of_mem _ hj⟩

/-- One more field before the others, read from the member before theirs. -/
theorem NeatBy.cons {name : String} {json : Json} {members : List (String × Json)} {value : Value}
    (hm : Table.Ordered ((name, json) :: members)) (hv : value.Neat (depth name))
    (h : Properties.NeatBy depth props ∧ From members props) :
    Properties.NeatBy depth ((name, value) :: props) ∧
      From ((name, json) :: members) ((name, value) :: props) := by
  obtain ⟨hlt, -⟩ := Table.ordered_cons.1 hm
  refine ⟨⟨Table.ordered_cons.2 ⟨fun entry he => ?_, h.1.ordered⟩, fun entry he => ?_⟩, fun entry he => ?_⟩
  · obtain ⟨json', hj⟩ := h.2 entry he
    exact hlt _ hj
  · rcases List.mem_cons.1 he with rfl | he
    · exact hv
    · exact h.1.neat entry he
  · rcases List.mem_cons.1 he with rfl | he
    · exact ⟨json, List.mem_cons_self⟩
    · exact h.2.tail entry he

theorem populateMembers_cons {name : String} {json : Json} {members : List (String × Json)}
    (hnull : json ≠ .null) (h : populateMembers path schema ((name, json) :: members) = .ok props) :
    ∃ field value others, schema.find? name = some field ∧
      populateField (joinPath path name) field.kind schema json = .ok value ∧
      populateMembers path schema members = .ok others ∧ props = (name, value) :: others := by
  rw [populateMembers.eq_3 _ _ _ _ _ hnull] at h
  cases hf : schema.find? name with
  | none => rw [hf] at h; cases h
  | some field =>
    rw [hf] at h
    obtain ⟨value, hv, h⟩ := bind_eq_ok h
    obtain ⟨others, ho, h⟩ := bind_eq_ok h
    injection h with h
    exact ⟨field, value, others, rfl, hv, ho, h.symm⟩

/-- An entry of a configuration variable is a field of the schema, or a branch of such fields. -/
theorem populateEntries_cons {name : String} {json : Json} {members : List (String × Json)}
    (hnull : json ≠ .null) (h : populateEntries path schema ((name, json) :: members) = .ok props) :
    (∃ field value others, (if name = conditionsDefault then none else schema.find? name) = some field ∧
      populateField (joinPath path name) field.kind schema json = .ok value ∧
      populateEntries path schema members = .ok others ∧ props = (name, value) :: others) ∨
    ∃ inner branch others, (if name = conditionsDefault then none else schema.find? name) = none ∧
      json = .object inner ∧ populateMembers (joinPath path name) schema inner = .ok branch ∧
      populateEntries path schema members = .ok others ∧ props = (name, .map branch) :: others := by
  cases hf : (if name = conditionsDefault then none else schema.find? name) with
  | some field =>
    have hread : (populateField (joinPath path name) field.kind schema json >>= fun value =>
        populateEntries path schema members >>= fun others => pure ((name, value) :: others)) =
        .ok props := by
      cases json with
      | null => exact absurd rfl hnull
      | object inner => rw [populateEntries, hf] at h; exact h
      | _ => simp only [populateEntries, hf] at h; exact h
    obtain ⟨value, hv, hread⟩ := bind_eq_ok hread
    obtain ⟨others, ho, hread⟩ := bind_eq_ok hread
    injection hread with hread
    exact .inl ⟨field, value, others, rfl, hv, ho, hread.symm⟩
  | none =>
    cases json with
    | null => exact absurd rfl hnull
    | object inner =>
      rw [populateEntries, hf] at h
      obtain ⟨branch, hb, h⟩ := bind_eq_ok h
      obtain ⟨others, ho, h⟩ := bind_eq_ok h
      injection h with h
      exact .inr ⟨inner, branch, others, rfl, rfl, hb, ho, h.symm⟩
    | _ => simp only [populateEntries, hf] at h; cases h

theorem neatBy_populateMembers {members : List (String × Json)}
    (hfield : ∀ path name field json value, schema.find? name = some field → json.Ordered →
      populateField path field.kind schema json = .ok value → value.Neat (depth name))
    (hm : Table.Ordered members) (hj : Json.MembersOrdered members)
    (h : populateMembers path schema members = .ok props) :
    Properties.NeatBy depth props ∧ From members props := by
  induction members generalizing props with
  | nil =>
    simp only [populateMembers, Except.ok.injEq] at h
    subst h; exact ⟨neatBy_nil, fun _ he => absurd he List.not_mem_nil⟩
  | cons member members ih =>
    obtain ⟨name, json⟩ := member
    obtain ⟨-, hrest⟩ := Table.ordered_cons.1 hm
    obtain ⟨hjson, hjrest⟩ := hj
    by_cases hnull : json = .null
    · subst hnull
      simp only [populateMembers] at h
      obtain ⟨h1, h2⟩ := ih hrest hjrest h
      exact ⟨h1, h2.tail⟩
    · obtain ⟨field, value, others, hf, hv, ho, rfl⟩ := populateMembers_cons hnull h
      exact NeatBy.cons hm (hfield _ _ _ _ _ hf hjson hv) (ih hrest hjrest ho)

/-- Fields of a flat schema, as they stand in branches. -/
theorem neatBy_flatMembers {members : List (String × Json)}
    (hflat : ∀ name field, schema.find? name = some field → field.kind.isFlat = true)
    (hm : (Json.object members).Ordered) (h : populateMembers path schema members = .ok props) :
    Properties.NeatBy (fun _ => 0) props :=
  (neatBy_populateMembers (fun _ _ _ _ _ hf _ hv => neat_populateField (hflat _ _ hf) hv) hm.1 hm.2 h).1

end Members

/-! ## Branches and configuration variables -/

section Branches
variable {path : String} {schema : Schema} {props : Properties}
  (hflat : ∀ name field, schema.find? name = some field → field.kind.isFlat = true)
include hflat

theorem neatBy_populateBranches {condition : Condition} {members : List (String × Json)}
    (hm : Table.Ordered members) (hj : Json.MembersOrdered members)
    (h : populateBranches path condition schema members = .ok props) :
    Properties.NeatBy (fun _ => 1) props ∧ From members props := by
  induction members generalizing props with
  | nil =>
    simp only [populateBranches, Except.ok.injEq] at h
    subst h; exact ⟨neatBy_nil, fun _ he => absurd he List.not_mem_nil⟩
  | cons member members ih =>
    obtain ⟨name, json⟩ := member
    obtain ⟨-, hrest⟩ := Table.ordered_cons.1 hm
    obtain ⟨hjson, hjrest⟩ := hj
    by_cases ha : condition.accepts name = true
    · cases json with
      | object inner =>
        rw [populateBranches, if_pos ha] at h
        obtain ⟨branch, hb, h⟩ := bind_eq_ok h
        obtain ⟨others, ho, h⟩ := bind_eq_ok h
        injection h with h
        subst h
        exact NeatBy.cons hm (Properties.neatBy_map.2 (neatBy_flatMembers hflat hjson hb)) (ih hrest hjrest ho)
      | _ => simp [populateBranches, ha] at h
    · cases json <;> simp [populateBranches, ha] at h

theorem neatBy_populateEntries {members : List (String × Json)}
    (hm : Table.Ordered members) (hj : Json.MembersOrdered members)
    (h : populateEntries path schema members = .ok props) :
    Properties.NeatBy (fun _ => 1) props ∧ From members props := by
  induction members generalizing props with
  | nil =>
    simp only [populateEntries, Except.ok.injEq] at h
    subst h; exact ⟨neatBy_nil, fun _ he => absurd he List.not_mem_nil⟩
  | cons member members ih =>
    obtain ⟨name, json⟩ := member
    obtain ⟨-, hrest⟩ := Table.ordered_cons.1 hm
    obtain ⟨hjson, hjrest⟩ := hj
    by_cases hnull : json = .null
    · subst hnull
      rw [populateEntries] at h
      obtain ⟨h1, h2⟩ := ih hrest hjrest h
      exact ⟨h1, h2.tail⟩
    · rcases populateEntries_cons hnull h with ⟨field, value, others, hf, hv, ho, rfl⟩ |
        ⟨inner, branch, others, hf, rfl, hb, ho, rfl⟩
      · have hfound : schema.find? name = some field := by
          split at hf
          · cases hf
          · exact hf
        exact NeatBy.cons hm ((neat_populateField (hflat _ _ hfound) hv).of_zero 1) (ih hrest hjrest ho)
      · exact NeatBy.cons hm (Properties.neatBy_map.2 (neatBy_flatMembers hflat hjson hb)) (ih hrest hjrest ho)

theorem neatBy_populateVariables {members : List (String × Json)}
    (hm : Table.Ordered members) (hj : Json.MembersOrdered members)
    (h : populateVariables path schema members = .ok props) :
    Properties.NeatBy (fun _ => 2) props ∧ From members props := by
  induction members generalizing props with
  | nil =>
    simp only [populateVariables, Except.ok.injEq] at h
    subst h; exact ⟨neatBy_nil, fun _ he => absurd he List.not_mem_nil⟩
  | cons member members ih =>
    obtain ⟨name, json⟩ := member
    obtain ⟨-, hrest⟩ := Table.ordered_cons.1 hm
    obtain ⟨hjson, hjrest⟩ := hj
    cases json with
    | object inner =>
      simp only [populateVariables] at h
      obtain ⟨entries, hb, h⟩ := bind_eq_ok h
      obtain ⟨others, ho, h⟩ := bind_eq_ok h
      injection h with h
      subst h
      exact NeatBy.cons hm (Properties.neatBy_map.2 (neatBy_populateEntries hflat hjson.1 hjson.2 hb).1)
        (ih hrest hjrest ho)
    | _ => simp [populateVariables] at h

end Branches
/-! ## Whole trees -/

theorem flat_variantFields {schema : Schema} (hs : schema.isPlain = true) {name : String} {field : Field}
    (hf : schema.variantFields.find? name = some field) : field.kind.isFlat = true :=
  List.all_eq_true.1 (Bool.and_eq_true_iff.1 hs).1 (name, field) (Table.mem_of_find? hf)

/-- A field of a plain schema is as deep as its name allows. -/
theorem neat_populateField_of_plain {schema : Schema} (hs : schema.isPlain = true) {path name : String}
    {field : Field} {json : Json} {value : Value} (hf : schema.find? name = some field)
    (hj : json.Ordered) (h : populateField path field.kind schema json = .ok value) :
    value.Neat (fieldDepth name) := by
  have hkind := List.all_eq_true.1 (Bool.and_eq_true_iff.1 hs).2 (name, field) (Table.mem_of_find? hf)
  have hflat : ∀ name field, schema.variantFields.find? name = some field → field.kind.isFlat = true :=
    fun _ _ hf => flat_variantFields hs hf
  have hdepth : fieldDepth name = 2 ∨ fieldDepth name = 3 := by unfold fieldDepth; split <;> simp
  have htwo : ∀ {v : Value}, v.Neat 2 → v.Neat (fieldDepth name) := by
    intro v hv
    rcases hdepth with hd | hd <;> rw [hd]
    · exact hv
    · exact hv.mono
  by_cases hleaf : field.kind.isFlat = true
  · exact (neat_populateField hleaf h).of_zero _
  · obtain ⟨kind, variant⟩ := field
    cases json with
    | object members =>
      cases kind with
      | struct fields =>
        simp only [populateField] at h
        obtain ⟨inner, hi, rfl⟩ := Except.map_eq_ok h
        refine htwo (Value.Neat.mono (Properties.neatBy_map.2 (neatBy_flatMembers ?_ hj hi)))
        exact fun n f hf => List.all_eq_true.1 hkind (n, f) (Table.mem_of_find? hf)
      | conditional condition =>
        simp only [populateField] at h
        obtain ⟨inner, hi, rfl⟩ := Except.map_eq_ok h
        exact htwo (Properties.neatBy_map.2 (neatBy_populateBranches hflat hj.1 hj.2 hi).1)
      | configVariables =>
        simp only [populateField] at h
        obtain ⟨inner, hi, rfl⟩ := Except.map_eq_ok h
        have hname : name = "soong_config_variables" := of_decide_eq_true hkind
        subst hname
        exact Properties.neatBy_map.2 (neatBy_populateVariables hflat hj.1 hj.2 hi).1
      | _ => exact absurd rfl hleaf
    | _ => cases kind <;> simp [populateField, FieldKind.isFlat] at h hleaf

/-- **What a record is read into is ordered, and no branch in it holds a map.** -/
theorem neatBy_populate {schema : Schema} {members : Table Json} {props : Properties}
    (hs : schema.isPlain = true) (hm : (Json.object members).Ordered)
    (h : populate schema members = .ok props) :
    Properties.NeatBy fieldDepth props :=
  (neatBy_populateMembers (fun _ _ _ _ _ hf hj hv => neat_populateField_of_plain hs hf hj hv)
    hm.1 hm.2 h).1

end VariantGraph
