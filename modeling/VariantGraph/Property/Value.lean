import VariantGraph.Json.Basic
/-!
# Property values and property trees

A property tree is a table from field names to values; a field that is not set is absent. Lists hold
only strings: every list-valued property (sources, flags, references) is a list of strings.

`Value` with `kindName` is that of property/value.rs:15-33, and `Properties` that of property/value.rs:120.
-/
namespace VariantGraph

/-- Whether an integer fits a signed 64-bit word. -/
def isWord (value : Int) : Bool := -0x8000000000000000 ≤ value && value < 0x8000000000000000

inductive Value where
  | bool (value : Bool)
  /-- An integer, which fits a word (`isWord`) whenever it was read from a document. -/
  | int (value : Int)
  | string (value : String)
  | list (items : List String)
  | map (fields : List (String × Value))
  deriving Inhabited

/-- A property tree. -/
abbrev Properties := Table Value

namespace Value

/-- What a value is called in messages. -/
def kindName : Value → String
  | bool _ => "bool"
  | int _ => "int"
  | string _ => "string"
  | list _ => "list"
  | map _ => "map"

def bool? : Value → Option Bool
  | bool value => some value
  | _ => none

def int? : Value → Option Int
  | int value => some value
  | _ => none

def string? : Value → Option String
  | string value => some value
  | _ => none

def list? : Value → Option (List String)
  | list items => some items
  | _ => none

def map? : Value → Option Properties
  | map fields => some fields
  | _ => none

mutual

/-- The value as JSON: every kind of value has a written form of its own. -/
def toJson : Value → Json
  | .bool value => .bool value
  | .int value => .int value
  | .string value => .string value
  | .list items => .ofStrings items
  | .map fields => .object (fieldsToJson fields)

def fieldsToJson : List (String × Value) → List (String × Json)
  | [] => []
  | (name, value) :: rest => (name, toJson value) :: fieldsToJson rest

end

mutual

/-- The invariant of a value: the keys of every map in it increase. -/
def Ordered : Value → Prop
  | .map fields => Table.Ordered fields ∧ FieldsOrdered fields
  | _ => True

def FieldsOrdered : List (String × Value) → Prop
  | [] => True
  | (_, value) :: rest => Ordered value ∧ FieldsOrdered rest

end

end Value

namespace Properties

/-- The tree as a JSON object. -/
def toJson (props : Properties) : Json := .object (Value.fieldsToJson props)

/-- The invariant of a property tree: keys increase at every depth. -/
def Ordered (props : Properties) : Prop := (Value.map props).Ordered

end Properties
end VariantGraph
