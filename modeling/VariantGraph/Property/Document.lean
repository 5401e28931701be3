import VariantGraph.Property.Value
/-!
# Property trees as documents

A tree is read back from the JSON in which it is written (`Properties.toJson`), with no schema to say
what it may hold.
-/
namespace VariantGraph

namespace Value

mutual

/-- Reads a value: every kind of value has a written form of its own. -/
def ofJson? : Json → Option Value
  | .bool value => some (.bool value)
  | .int value => if isWord value then some (.int value) else none
  | .string value => some (.string value)
  | .array items => (Json.array items).strings?.map .list
  | .object members => (fieldsOfJson? members).map .map
  | _ => none

def fieldsOfJson? : List (String × Json) → Option (List (String × Value))
  | [] => some []
  | (name, json) :: rest =>
    match ofJson? json, fieldsOfJson? rest with
    | some value, some fields => some ((name, value) :: fields)
    | _, _ => none

end

end Value

/-- Reads a property tree. -/
def Properties.ofJson? (json : Json) : Option Properties :=
  json.object?.bind Value.fieldsOfJson?

end VariantGraph
