import VariantGraph.Stage.Basic
/-!
# The stage that settles configuration variables

A module lists under `soong_config_variables` what each configuration variable contributes to its
properties. The stage takes that field away and appends the contributions of the variables in the
order of their names.

| here | there (crates/lib/src/mutator/builtin) |
| --- | --- |
| `field` | `FIELD` (soong_config.rs:11) |
| `act`, `settle` | `SoongConfigMutator::mutate` (soong_config.rs:25-53) |
| `choose`, `contribution`, `fallback?` | `choose` (soong_config.rs:57-84) |
| `isOn` | `is_truthy` (soong_config.rs:86-88) |
| `settings` | `without_default` (soong_config.rs:90-94) |
| `fill`, `fillFields` | `substitute_value`, `substitute` (soong_config.rs:97-111) |
-/
namespace VariantGraph.ConfigVariables

/-- The field that holds what each variable contributes. -/
def field : String := "soong_config_variables"

/-- Whether a value switches a variable on. -/
def isOn (value : String) : Bool := value ∈ ["y", "yes", "true", "1"]

/-- What is contributed when the variable selects nothing. -/
def fallback? (entries : Properties) : Option Properties := entries.getMap? conditionsDefault

/-- The entries that count when the variable is set. -/
def settings (entries : Properties) : Properties := entries.without conditionsDefault

mutual

/-- A value with another one written in place of every mark. -/
def fill (value : String) : Value → Value
  | .string text => .string (Text.fill value text)
  | .list items => .list (items.map (Text.fill value))
  | .map fields => .map (fillFields value fields)
  | other => other

def fillFields (value : String) : List (String × Value) → List (String × Value)
  | [] => []
  | (name, old) :: rest => (name, fill value old) :: fillFields value rest

end

/-- What a variable contributes, given its kind and its value. -/
def contribution (name : String) (kind : Variable) (value : Option String) (entries : Properties) :
    Except StageFault (Option Properties) :=
  match kind, value with
  | .bool, some value => .ok (if isOn value then some (settings entries) else fallback? entries)
  | .string allowed, some value =>
    if value ∈ allowed then .ok ((entries.getMap? value).or (fallback? entries))
    else .error (.valueNotAllowed name allowed value)
  | .value, some value => .ok (some (fillFields value (settings entries)))
  | _, none => .ok (fallback? entries)

/-- What the entry of a variable contributes in a configuration. -/
def choose (config : Config) (name : String) (entry : Value) : Except StageFault (Option Properties) :=
  match entry with
  | .map entries =>
    match config.declared.find? name with
    | none => .error (.unknownVariable name)
    | some kind => contribution name kind (config.values.find? name) entries
  | other => .error (.variableNotMap other.kindName)

/-- Settles one variable. -/
def settle (visit : Visit) (name : String) (entry : Value) : Visit :=
  match choose visit.env.config name entry with
  | .error fault => visit.blame (some (field ++ "." ++ name)) fault
  | .ok none => visit
  | .ok (some chosen) => visit.change (visit.properties.append chosen)

def act (visit : Visit) : Visit :=
  if visit.can .defaults then visit
  else match visit.properties.getMap? field with
    | none => visit
    | some contributions =>
      contributions.foldl (fun visit (name, entry) => settle visit name entry)
        (visit.setProperties (visit.properties.without field))

end VariantGraph.ConfigVariables

/-- Settles configuration variables. -/
def VariantGraph.Stage.configVariables : VariantGraph.Stage :=
  .ofVisit "soong_config" .topDown ConfigVariables.act
