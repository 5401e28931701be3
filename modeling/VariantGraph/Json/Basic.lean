import VariantGraph.Table
/-!
# JSON values

A JSON value after reading: strings are decoded, objects are tables (of a repeated member the last
one counts), and a number is either an integer of at most 64 bits or a number kept as written.
-/
namespace VariantGraph

inductive Json where
  | null
  | bool (value : Bool)
  | int (value : Int)
  /-- A number that is no integer of at most 64 bits, as written. -/
  | decimal (digits : String)
  | string (value : String)
  | array (items : List Json)
  | object (members : List (String × Json))
  deriving Inhabited

namespace Json

/-- What a value is called in messages. -/
def kindName : Json → String
  | null => "null"
  | bool _ => "a bool"
  | int _ | decimal _ => "a number"
  | string _ => "a string"
  | array _ => "a list"
  | object _ => "a map"

def bool? : Json → Option Bool
  | bool value => some value
  | _ => none

def int? : Json → Option Int
  | int value => some value
  | _ => none

def string? : Json → Option String
  | string value => some value
  | _ => none

def array? : Json → Option (List Json)
  | array items => some items
  | _ => none

def object? : Json → Option (Table Json)
  | object members => some members
  | _ => none

/-- A list of strings. -/
def strings? : Json → Option (List String)
  | array items => items.mapM string?
  | _ => none

/-- A member of an object. -/
def member? (json : Json) (name : String) : Option Json :=
  json.object?.bind (Table.find? · name)

/-- An array of strings. -/
def ofStrings (items : List String) : Json := array (items.map string)

/-- A string, or `null` for nothing. -/
def ofOption (f : α → Json) : Option α → Json
  | some value => f value
  | none => null

end Json
end VariantGraph
