import VariantGraph.Property.Error
import VariantGraph.Property.Value
/-!
# Dotted paths into a property tree

`external_build.label` names the field `label` of the map in the field `external_build`. A path is
the list of its components; looking up, setting and removing are recursions on that list.

| here | there (crates/lib/src) |
| --- | --- |
| `joinPath` | `join_path` (property/mod.rs:56-62) |
| `get?`, `isSet` | `get`, `contains` (property/value.rs:139-157) |
| `replace?` | an assignment through `get_mut` (property/value.rs:160-168) |
| `set` | `set` (property/value.rs:171-194) |
| `remove?`, `without` | `remove` (property/value.rs:197-202) |
| `getBool?`, `getInt?`, `getString?` | `get_bool`, `get_int`, `get_str` (property/value.rs:204-214) |
| `getList`, `getMap?` | `get_list`, `get_map` (property/value.rs:217-223) |
-/
namespace VariantGraph

/-- The path of a field of the value at a path. -/
def joinPath (path name : String) : String :=
  if path = "" then name else path ++ "." ++ name

/-- The components of a dotted path: at least one. -/
def pathComponents (path : String) : List String := Text.split '.' path

namespace Properties

/-! ## By components -/

/-- The value that a list of components leads to. -/
def follow? (props : Properties) : List String → Option Value
  | [] => none
  | [name] => props.find? name
  | name :: rest =>
    match props.find? name with
    | some (.map inner) => follow? inner rest
    | _ => none

/-- Puts a value where a list of components leads, making maps on the way. `walked` is the path of
the tree itself. -/
def setAt (walked : String) (value : Value) (props : Properties) :
    List String → Except PropertyError Properties
  | [] => .ok props
  | [name] => .ok (props.insert name value)
  | name :: rest =>
    let walked := joinPath walked name
    match props.find? name with
    | none => (setAt walked value [] rest).map fun inner => props.insert name (.map inner)
    | some (.map inner) => (setAt walked value inner rest).map fun inner => props.insert name (.map inner)
    | some _ => .error (.notAMap walked)

/-- Takes out the value that a list of components leads to; the value and what is left. -/
def removeAt? (props : Properties) : List String → Option (Value × Properties)
  | [] => none
  | [name] => (props.find? name).map fun value => (value, props.erase name)
  | name :: rest =>
    match props.find? name with
    | some (.map inner) =>
      (removeAt? inner rest).map fun (value, inner) => (value, props.insert name (.map inner))
    | _ => none

/-- Overwrites the value that a list of components leads to. -/
def replaceAt? (value : Value) (props : Properties) : List String → Option Properties
  | [] => none
  | [name] => (props.find? name).map fun _ => props.insert name value
  | name :: rest =>
    match props.find? name with
    | some (.map inner) => (replaceAt? value inner rest).map fun inner => props.insert name (.map inner)
    | _ => none

/-! ## By dotted path -/

/-- The value at a dotted path. -/
def get? (props : Properties) (path : String) : Option Value := follow? props (pathComponents path)

/-- Whether a value is set at a dotted path. -/
def isSet (props : Properties) (path : String) : Bool := (get? props path).isSome

/-- Sets the value at a dotted path, making maps on the way. -/
def set (props : Properties) (path : String) (value : Value) : Except PropertyError Properties :=
  setAt "" value props (pathComponents path)

/-- Removes the value at a dotted path; the value and what is left, or nothing if it was not set. -/
def remove? (props : Properties) (path : String) : Option (Value × Properties) :=
  removeAt? props (pathComponents path)

/-- The tree without the value at a dotted path. -/
def without (props : Properties) (path : String) : Properties :=
  match remove? props path with
  | some (_, rest) => rest
  | none => props

/-- Overwrites the value at a dotted path if one is set. -/
def replace? (props : Properties) (path : String) (value : Value) : Option Properties :=
  replaceAt? value props (pathComponents path)

def getBool? (props : Properties) (path : String) : Option Bool := (get? props path).bind Value.bool?

def getInt? (props : Properties) (path : String) : Option Int := (get? props path).bind Value.int?

def getString? (props : Properties) (path : String) : Option String :=
  (get? props path).bind Value.string?

/-- The list at a dotted path; empty if none is set. -/
def getList (props : Properties) (path : String) : List String :=
  ((get? props path).bind Value.list?).getD []

def getMap? (props : Properties) (path : String) : Option Properties := (get? props path).bind Value.map?

end Properties
end VariantGraph
