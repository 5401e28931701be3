import VariantGraph.Property.Path
import VariantGraph.Property.Schema
/-!
# Property trees from records

A record holds raw JSON. Populating checks it against a schema, member by member in key order, and
gives the property tree: `null` means unset, every other member has to be a field and to hold a value
of its kind. The first member that does not is reported.

| here | there (crates/lib/src) |
| --- | --- |
| `populate`, `populateMembers` | `populate`, `populate_at` (property/populate.rs:13-31) |
| `populateField` | `convert` (property/populate.rs:33-68) |
| `populateBranches` | `conditional` (property/populate.rs:70-93) |
| `populateVariables`, `populateEntries` | `config_variables` (property/populate.rs:100-130) |
-/
namespace VariantGraph

/-- A raw value where a field of another kind was wanted. -/
def FieldKind.mismatch (kind : FieldKind) (path : String) (json : Json) : PropertyError :=
  .typeMismatch path kind.describe json.kindName

mutual

/-- The value of a field. `parent` is the schema that the field belongs to. -/
def populateField (path : String) (kind : FieldKind) (parent : Schema) :
    Json → Except PropertyError Value
  | .object members =>
    match kind with
    | .struct fields => (populateMembers path fields members).map .map
    | .conditional condition =>
      (populateBranches path condition parent.variantFields members).map .map
    | .configVariables => (populateVariables path parent.variantFields members).map .map
    | _ => .error (kind.mismatch path (.object members))
  | json =>
    match kind, json with
    | .bool, .bool value => .ok (.bool value)
    | .int, .int value => if isWord value then .ok (.int value) else .error (kind.mismatch path json)
    | .string, .string value => .ok (.string value)
    | .stringList, .array _ | .deps _, .array _ =>
      match json.strings? with
      | some items => .ok (.list items)
      | none => .error (kind.mismatch path json)
    | _, _ => .error (kind.mismatch path json)

/-- The fields of a tree that stands at a path. -/
def populateMembers (path : String) (schema : Schema) :
    List (String × Json) → Except PropertyError Properties
  | [] => .ok []
  | (_, .null) :: rest => populateMembers path schema rest
  | (name, json) :: rest =>
    match schema.find? name with
    | none => .error (.unknownProperty (joinPath path name))
    | some field => do
      let value ← populateField (joinPath path name) field.kind schema json
      let others ← populateMembers path schema rest
      return (name, value) :: others

/-- The branches of a conditional field. -/
def populateBranches (path : String) (condition : Condition) (schema : Schema) :
    List (String × Json) → Except PropertyError Properties
  | [] => .ok []
  | (name, json) :: rest =>
    if condition.accepts name then
      match json with
      | .object members => do
        let branch ← populateMembers (joinPath path name) schema members
        let others ← populateBranches path condition schema rest
        return (name, .map branch) :: others
      | json => .error (.typeMismatch (joinPath path name) "a map" json.kindName)
    else .error (.unknownCondition path name)

/-- The configuration variables of a field, each with its entries. -/
def populateVariables (path : String) (schema : Schema) :
    List (String × Json) → Except PropertyError Properties
  | [] => .ok []
  | (name, .object members) :: rest => do
    let entries ← populateEntries (joinPath path name) schema members
    let others ← populateVariables path schema rest
    return (name, .map entries) :: others
  | (name, json) :: _ => .error (.typeMismatch (joinPath path name) "a map" json.kindName)

/-- The entries of a configuration variable: variant fields, and branches of them under other names. -/
def populateEntries (path : String) (schema : Schema) :
    List (String × Json) → Except PropertyError Properties
  | [] => .ok []
  | (_, .null) :: rest => populateEntries path schema rest
  | (name, json) :: rest =>
    match if name = conditionsDefault then none else schema.find? name with
    | some field => do
      let value ← populateField (joinPath path name) field.kind schema json
      let others ← populateEntries path schema rest
      return (name, value) :: others
    | none =>
      match json with
      | .object members => do
        let branch ← populateMembers (joinPath path name) schema members
        let others ← populateEntries path schema rest
        return (name, .map branch) :: others
      | _ => .error (.unknownProperty (joinPath path name))

end

/-- The property tree of a record, checked against a schema. -/
def populate (schema : Schema) (members : Table Json) : Except PropertyError Properties :=
  populateMembers "" schema members

end VariantGraph
