import VariantGraph.Graph.Document
import VariantGraph.Property.Document
import VariantGraph.Stage.Builtin
import VariantGraph.Stage.Rules
/-!
# Stages as documents

A stage is the name of a built-in one, or an object with a name, a direction and rules. A rule says
under `when` for which variants it holds and lists under `do` what is done; each action is an object
with one member, whose name says what it does.
-/
namespace VariantGraph

def Direction.ofName? : String → Option Direction
  | "bottom-up" => some .bottomUp
  | "top-down" => some .topDown
  | _ => none

namespace Rules

/-- Reads something that may be left out. -/
def readOptional (read : Json → Option α) : Option Json → Option (Option α)
  | none | some .null => some none
  | some json => (read json).map some

/-- Reads an axis with the value on it, or with `null` for no value. -/
def readAxis : Json → Option (String × Option String)
  | .array [.string axis, .null] => some (axis, none)
  | .array [.string axis, .string value] => some (axis, some value)
  | _ => none

def Guard.ofJson? (json : Json) : Option Guard := do
  let module ← readOptional Json.string? (json.member? "module")
  let capability ← readOptional (·.string?.bind Capability.ofName?) (json.member? "capability")
  let axis ← readOptional readAxis (json.member? "axis")
  return ⟨module, capability, axis⟩

def readRequest (json : Json) : Option Request := do
  let tag ← Tag.ofJson? (← json.member? "tag")
  let reference ← (← json.member? "ref").string?
  let property ← (← json.member? "property").string?
  return ⟨tag, reference, property⟩

/-- Reads an action from its name and what goes with it. -/
def Action.ofMember? (name : String) (json : Json) : Option Action :=
  match name, json with
  | "set", .array [.string path, value] => (Value.ofJson? value).map (.set path)
  | "remove", .string path => some (.remove path)
  | "append", tree => (Properties.ofJson? tree).map .append
  | "split", .array [.string axis, values] => values.strings?.map (.split axis)
  | "vset", .array [.string value, .string path, content] =>
    (Value.ofJson? content).map (.setNew value path)
  | "vselect", .array [.string value, .string field, keys] =>
    keys.strings?.map (.selectNew value field)
  | "dep", request => (readRequest request).map .depend
  | "module_error", .string text => some (.blameModule text)
  | "property_error", .array [.string property, .string text] => some (.blameProperty property text)
  | "height", .string path => some (.height path)
  | _, _ => none

def Action.ofJson? : Json → Option Action
  | .object [(name, json)] => Action.ofMember? name json
  | _ => none

def Rule.ofJson? (json : Json) : Option Rule := do
  let guard ← Guard.ofJson? ((json.member? "when").getD (.object []))
  let actions ← (← (← json.member? "do").array?).mapM Action.ofJson?
  return ⟨guard, actions⟩

end Rules

namespace Stage

def ofJson? : Json → Option Stage
  | .string name => builtin? name
  | json => do
    let name ← (← json.member? "name").string?
    let direction ← Direction.ofName? (← (← json.member? "direction").string?)
    let rules ← (← (← json.member? "rules").array?).mapM Rules.Rule.ofJson?
    return .ofRules name direction rules

/-- Reads a list of stages. -/
def listOfJson? (json : Json) : Option (List Stage) := json.array?.bind (·.mapM ofJson?)

end Stage
end VariantGraph
