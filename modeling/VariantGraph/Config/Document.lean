import VariantGraph.Config.Basic
import VariantGraph.Json.Basic
/-!
# Configurations as documents

A configuration document is an object; every section and every field of a section may be left out.
A section may also be written as an array of its fields in order. Unknown fields do not matter. Where
one of several alternatives is wanted its name is written, or an object with one empty member of that
name.

`ofJson` is `Config::from_toml` (config.rs:126-130) on the document that the text holds. Sections and fields
have the names that `Config` and its parts give them (config.rs:57-109, delegation.rs:20-41).
-/
namespace VariantGraph.Config

/-! ## Reading -/

/-- The fields of a section, by name or in order. -/
def fieldsOf (names : List String) : Json → Option (Table Json)
  | .object members => some members
  | .array items => some (Table.ofEntries (names.zip items))
  | _ => none

/-- A field that keeps its default when it is left out. -/
def optional (fields : Table Json) (name : String) (read : Json → Option α) (fallback : α) : Option α :=
  match fields.find? name with
  | some json => read json
  | none => some fallback

/-- The name of an alternative. -/
def readName : Json → Option String
  | .string name | .object [(name, .object [])] | .object [(name, .array [])] => some name
  | _ => none

def readOs (json : Json) : Option Os := (readName json).bind fun name => (Os.parse name).toOption

def readArch (json : Json) : Option Arch := (readName json).bind fun name => (Arch.parse name).toOption

def readTarget (fallback : Target) (json : Json) : Option Target := do
  let fields ← fieldsOf ["os", "arch"] json
  return ⟨← optional fields "os" readOs fallback.os, ← optional fields "arch" readArch fallback.arch⟩

def readArchs (json : Json) : Option (List Arch) := json.array?.bind (·.mapM readArch)

def readDevice (json : Json) : Option Device := do
  let fields ← fieldsOf ["os", "archs"] json
  return ⟨← optional fields "os" readOs defaultDevice.os,
    ← optional fields "archs" readArchs defaultDevice.archs⟩

/-- A table whose values are all read alike. -/
def readTable (read : Json → Option α) (json : Json) : Option (Table α) :=
  json.object?.bind fun members =>
    members.mapM fun (name, json) => (read json).map (name, ·)

/-- The variable of a kind; the values are asked for only if the kind has some. -/
def readKind (kind : String) (values : Option Json) : Option Variable :=
  match kind with
  | "bool" => some .bool
  | "value" => some .value
  | "string" => (values.bind Json.strings?).map .string
  | _ => none

/-- A variable: by its fields, or by its kind and then its values if the kind has some. -/
def readVariable : Json → Option Variable
  | .object members => do
    readKind (← (← Table.find? members "kind").string?) (Table.find? members "values")
  | .array [.string kind] => readKind kind none
  | .array [.string kind, values] => if kind = "string" then readKind kind (some values) else none
  | _ => none

def readPrecedence (json : Json) : Option ImportPrecedence :=
  match readName json with
  | some "prefer_imports" => some .preferImports
  | some "strict" => some .strict
  | _ => none

def readConversion (json : Json) : Option ConversionDefault :=
  match readName json with
  | some "default_true_recursively" => some .convertTree
  | some "default_true" => some .convertPackage
  | some "default_false" => some .keepPackage
  | _ => none

/-- A list of names as a set: sorted, each once. -/
def readNames (json : Json) : Option (List String) :=
  json.strings?.map fun names => (Table.ofEntries (names.map (·, ()))).keys

def readExternal (json : Json) : Option ExternalBuild := do
  let fields ← fieldsOf ["enabled", "packages", "do_not_convert", "mixed_builds_disabled"] json
  return ⟨← optional fields "enabled" Json.bool? false,
    ← optional fields "packages" (readTable readConversion) [],
    ← optional fields "do_not_convert" readNames [],
    ← optional fields "mixed_builds_disabled" readNames []⟩

/-- The configuration variables and their values. -/
def readVariables (json : Json) : Option (Table Variable × Table String) := do
  let fields ← fieldsOf ["variables", "values"] json
  return (← optional fields "variables" (readTable readVariable) [],
    ← optional fields "values" (readTable Json.string?) [])

def readCount (json : Json) : Option Nat :=
  json.int?.bind fun value => if 0 ≤ value then some value.toNat else none

/-- The configuration that a document describes, on top of what holds when nothing is said. -/
def readFields (fallback : Config) (json : Json) : Option Config := do
  let fields ← json.object?
  let host ← optional fields "host" (readTarget fallback.host) fallback.host
  let device ← optional fields "device" readDevice fallback.device
  let (declared, values) ←
    optional fields "soong_config" readVariables (fallback.declared, fallback.values)
  let precedence ← optional fields "import_precedence" readPrecedence fallback.precedence
  let external ← optional fields "external_build" readExternal fallback.external
  let parallelism ← optional fields "parallelism" readCount fallback.parallelism
  return ⟨host, device, declared, values, precedence, external, parallelism⟩

/-- Reads a configuration and accepts it if it can be used. -/
def ofJson (fallback : Config) (json : Json) : Except ConfigError Config :=
  match readFields fallback json with
  | none => .error .malformed
  | some config => config.validate

/-! ## Writing -/

def variableToJson : Variable → Json
  | .bool => .object [("kind", .string "bool")]
  | .string values => .object [("kind", .string "string"), ("values", .ofStrings values)]
  | .value => .object [("kind", .string "value")]

def conversionName : ConversionDefault → String
  | .convertTree => "default_true_recursively"
  | .convertPackage => "default_true"
  | .keepPackage => "default_false"

def precedenceName : ImportPrecedence → String
  | .preferImports => "prefer_imports"
  | .strict => "strict"

/-- The whole configuration as a document. -/
def toJson (config : Config) : Json :=
  .object [
    ("device", .object [
      ("archs", .ofStrings (config.device.archs.map Arch.name)),
      ("os", .string config.device.os.name)]),
    ("external_build", .object [
      ("do_not_convert", .ofStrings config.external.doNotConvert),
      ("enabled", .bool config.external.enabled),
      ("mixed_builds_disabled", .ofStrings config.external.mixedBuildsDisabled),
      ("packages", .object
        (config.external.packages.mapValues fun default => .string (conversionName default)))]),
    ("host", .object [
      ("arch", .string config.host.arch.name),
      ("os", .string config.host.os.name)]),
    ("import_precedence", .string (precedenceName config.precedence)),
    ("parallelism", .int config.parallelism),
    ("soong_config", .object [
      ("values", .object (config.values.mapValues .string)),
      ("variables", .object (config.declared.mapValues variableToJson))])]

end VariantGraph.Config
