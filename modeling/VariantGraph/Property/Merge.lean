import VariantGraph.Property.Path
import VariantGraph.Property.Schema
/-!
# Merging property trees

Appending a tree onto another sets scalars anew, puts lists one behind the other and merges maps key
by key. Keys are taken in order; the first place where the trees hold values of different kinds stops
the merge, and what was merged before stays.

| here | there (crates/lib/src) |
| --- | --- |
| `Value.append` | `append_value` (property/merge.rs:66-85) |
| `appendAt` | `append_at`, `append_field` (property/merge.rs:48-64) |
| `append` | `append_properties` (property/merge.rs:14-16) |
| `FieldKind.fits` | `shape_matches` (property/merge.rs:88-100) |
| `appendMatching` | `append_matching` (property/merge.rs:23-46) |
-/
namespace VariantGraph

mutual

/-- Appends one value onto another that stands at a path. -/
def Value.append (path : String) : Value → Value → Attempt Value Unit
  | .bool _, .bool value => .done (.bool value) ()
  | .int _, .int value => .done (.int value) ()
  | .string _, .string value => .done (.string value) ()
  | .list items, .list more => .done (.list (items ++ more)) ()
  | .map fields, .map more => (Properties.appendAt path fields more).within .map
  | value, other => .stopped value (.shapeMismatch path value.kindName other.kindName)

/-- Appends the fields of a tree onto those of another that stands at a path. -/
def Properties.appendAt (path : String) (props : Properties) :
    List (String × Value) → Attempt Properties Unit
  | [] => .done props ()
  | (name, value) :: rest =>
    match props.find? name with
    | none => Properties.appendAt path (props.insert name value) rest
    | some old =>
      let merged := Value.append (joinPath path name) old value
      match merged.result with
      | .ok _ => Properties.appendAt path (props.insert name merged.state) rest
      | .error error => .stopped (props.insert name merged.state) error

end

namespace Properties

/-- Appends every field of a tree onto another. -/
def append (props more : Properties) : Attempt Properties Unit := appendAt "" props more

/-- Appends trees one after another. -/
def appendAll (props : Properties) : List Properties → Attempt Properties Unit
  | [] => .done props ()
  | more :: rest => (append props more).andThen fun props => appendAll props rest

end Properties

/-- Whether a value has the shape that a field asks for. -/
def FieldKind.fits : FieldKind → Value → Bool
  | .bool, .bool _ | .int, .int _ | .string, .string _ | .stringList, .list _ | .deps _, .list _
  | .struct _, .map _ | .conditional _, .map _ | .configVariables, .map _ => true
  | _, _ => false

/-- Appends those fields of a tree that a schema has, some names excluded. A field that the schema
has must be of the shape it asks for. -/
def Properties.appendMatching (schema : Schema) (excluded : List String) (props : Properties) :
    Properties → Attempt Properties Unit
  | [] => .done props ()
  | (name, value) :: rest =>
    if name ∈ excluded then appendMatching schema excluded props rest
    else match schema.find? name with
      | none => appendMatching schema excluded props rest
      | some field =>
        if field.kind.fits value then
          (appendAt "" props [(name, value)]).andThen fun props =>
            appendMatching schema excluded props rest
        else .stopped props (.typeMismatch name field.kind.describe value.kindName)

end VariantGraph
