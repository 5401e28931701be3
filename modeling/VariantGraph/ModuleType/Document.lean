import VariantGraph.Json.Basic
import VariantGraph.ModuleType.Basic
/-!
# Module types as documents

A schema is an object from field names to declarations such as
`{"kind": "deps", "role": "tool", "variant": true}`; a structure has its own schema under `fields`.
-/
namespace VariantGraph

namespace Condition

def ofName? : String → Option Condition
  | "arch" => some arch
  | "target" => some target
  | "link" => some link
  | _ => none

end Condition

namespace Schema

/-- What a declaration says that a field holds, given the schema of a structure if it has one. -/
def kindOf (members : Table Json) (fields : Option Schema) : Option FieldKind := do
  match ← (← members.find? "kind").string? with
  | "bool" => return .bool
  | "int" => return .int
  | "string" => return .string
  | "string_list" => return .stringList
  | "deps" => return .deps (← Role.ofKey? (← (← members.find? "role").string?))
  | "struct" => return .struct (← fields)
  | "conditional" =>
    return .conditional (← Condition.ofName? (← (← members.find? "condition").string?))
  | "config_variables" => return .configVariables
  | _ => none

/-- Whether a declaration says that the field may differ between variants. -/
def variantOf (members : Table Json) : Option Bool :=
  match members.find? "variant" with
  | none | some .null => some false
  | some json => json.bool?

mutual

/-- Reads a schema. -/
def ofJson? : Json → Option Schema
  | .object members => ofMembers? members
  | _ => none

/-- Reads the fields of a schema. -/
def ofMembers? : List (String × Json) → Option Schema
  | [] => some []
  | (name, json) :: rest =>
    match declared? json, ofMembers? rest with
    | some field, some fields => some (fields.insert name field)
    | _, _ => none

/-- Reads a declaration. -/
def declared? : Json → Option Field
  | .object members =>
    match kindOf members (nested? members), variantOf members with
    | some kind, some variant => some ⟨kind, variant⟩
    | _, _ => none
  | _ => none

/-- Reads the schema of a structure in a declaration. -/
def nested? : List (String × Json) → Option Schema
  | [] => none
  | (name, json) :: rest => if name = "fields" then ofJson? json else nested? rest

end

end Schema

/-- Reads a list of capabilities. -/
def Capability.ofNames? (json : Json) : Option (List Capability) :=
  json.strings?.bind (·.mapM Capability.ofName?)

namespace ModuleType

/-- Reads a module type: its name, the fields of its own, and its capabilities. -/
def ofJson? (json : Json) : Option ModuleType := do
  let name ← (← json.member? "name").string?
  let fields ← Schema.ofJson? (← json.member? "fields")
  let capabilities ← match json.member? "capabilities" with
    | none | some .null => some []
    | some names => Capability.ofNames? names
  return .ofFields name fields capabilities

/-- What can be asked about a type: its capabilities, the shapes of its fields, and which fields vary,
hold references or are conditional. -/
def toJson (type : ModuleType) : Json :=
  .object [
    ("name", .string type.name),
    ("capabilities", .ofStrings (type.capabilities.map Capability.name)),
    ("fields", .object (type.schema.mapValues fun field =>
      .object [("shape", .string field.kind.describe), ("variant", .bool field.variant)])),
    ("variant_fields", .ofStrings type.schema.variantFields.keys),
    ("dependency_fields", .array (type.schema.dependencyFields.map fun (name, role) =>
      .ofStrings [name, role.describe])),
    ("conditional_fields", .array (type.schema.conditionalFields.map fun (name, condition) =>
      .ofStrings [name, condition.axis]))]

end ModuleType
end VariantGraph
