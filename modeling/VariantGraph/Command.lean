import VariantGraph.Config.Document
import VariantGraph.Workspace
/-!
# Commands and their reports

What can be asked for on the command line, what comes of it, and how that is written. Files are read
by the caller: a `File` is a path and what is in it. A report is written as lines or as one document,
with lines for errors beside it.

| here | there (crates/cli/src) |
| --- | --- |
| `loadConfig`, `loadRecords` | `load_config`, `load_records` (cmd/mod.rs:17-26) |
| `execute?`, `resolveFor` | what commands do before they print (cmd/resolve.rs:20-37, cmd/check.rs:11-15) |
| `withWorkers` | the check of `--parallelism` (cmd/resolve.rs:22-27) |
| `Format` | `OutputFormat` (output.rs:15-19) |
| `renderElapsed`, `renderVariant`, `stat` | `format_duration`, `format_variant`, `print_stat` (output.rs:39-59, 85-91) |
| `resolvedLines`, `variantLines`, `resolvedJson` | what `cmd_resolve` prints (cmd/resolve.rs:42-72) |
| `checkedLines` | what `cmd_check` prints (cmd/check.rs:16-26) |
| `typeLines`, `typeJson`, `kindName` | `cmd_types`, `describe`, `kind_name` (cmd/types.rs:9-54) |
| `infoLines`, `infoJson` | `cmd_info` (cmd/info.rs:12-43) |
| `faultsJson`, `write` | `print_build_errors` (output.rs:101-110) |
-/
namespace VariantGraph

/-- A file that was looked at; no content if it could not be read. -/
structure File where
  path : String
  content : Option String

/-- The machine that a command runs on. -/
structure Machine where
  /-- The target that was detected. -/
  detected : Option String
  /-- The configuration that holds when nothing is said. -/
  config : Config

inductive Command where
  /-- Resolves records, possibly with another number of workers. -/
  | resolve (records : File) (config : Option File) (workers : Option Nat)
  /-- Resolves records for their errors only. -/
  | check (records : File) (config : Option File)
  /-- Lists the module types. -/
  | types
  /-- Shows the configuration. -/
  | info (config : Option File)

/-- Why a command could not begin. -/
inductive LoadError where
  | configUnreadable (path : String)
  | configRefused (path : String) (cause : ConfigError)
  | recordsUnreadable (path : String)
  | recordsMalformed (path : String)
  | noWorkers
  deriving DecidableEq, Repr

/-- What comes of a command. -/
inductive Report where
  | resolved (records : List PackageRecord) (graph : ResolvedGraph)
  | checked (records : List PackageRecord) (graph : ResolvedGraph)
  | types (table : TypeTable)
  | info (detected : Option String) (config : Config)
  /-- Errors in what was given; what was done with it comes first. -/
  | faulty (activity : String) (errors : List BuildError)
  | stopped (cause : LoadError)

namespace Command

/-! ## Carrying out -/

def loadConfig (machine : Machine) : Option File → Except LoadError Config
  | none => .ok machine.config
  | some file =>
    match file.content with
    | none => .error (.configUnreadable file.path)
    | some text =>
      match Json.ofText? text with
      | none => .error (.configRefused file.path .malformed)
      | some json => (Config.ofJson machine.config json).mapError (.configRefused file.path)

def loadRecords (file : File) : Except LoadError (List PackageRecord) :=
  match file.content with
  | none => .error (.recordsUnreadable file.path)
  | some text =>
    match PackageRecord.ofText? text with
    | none => .error (.recordsMalformed file.path)
    | some records => .ok records

/-- The configuration with another number of workers, of which there has to be one. -/
def withWorkers (config : Config) : Option Nat → Except LoadError Config
  | none => .ok config
  | some 0 => .error .noWorkers
  | some workers => .ok { config with parallelism := workers }

/-- Resolves records and makes a report of what comes of it. -/
def resolveFor (config : Config) (records : List PackageRecord) (activity : String)
    (report : List PackageRecord → ResolvedGraph → Report) : Report :=
  match Workspace.resolvePackages config records with
  | .ok graph => report records graph
  | .error errors => .faulty activity errors

/-- Carries out a command that may not be able to begin. -/
def execute? (machine : Machine) : Command → Except LoadError Report
  | resolve records config workers => do
    let config ← withWorkers (← loadConfig machine config) workers
    return resolveFor config (← loadRecords records) "resolution" .resolved
  | check records config => do
    let config ← loadConfig machine config
    return resolveFor config (← loadRecords records) "check" .checked
  | types => return .types Builtin.types
  | info config => return .info machine.detected (← loadConfig machine config)

/-- Carries out a command. -/
def execute (machine : Machine) (command : Command) : Report :=
  match command.execute? machine with
  | .ok report => report
  | .error cause => .stopped cause

end Command

/-- How a report is written. -/
inductive Format where
  | text | json
  deriving DecidableEq, Repr

/-- What stands on the main output. -/
inductive Printed where
  | lines (lines : List String)
  | document (json : Json)

/-- What a command leaves behind. -/
structure Output where
  code : Nat
  printed : Printed
  errors : List String

namespace Report

def programName : String := "modgraph"

def version : String := "0.1.0"

/-- An elapsed time in words, given in milliseconds. -/
def renderElapsed (millis : Nat) : String :=
  let seconds := millis / 1000
  if 60 ≤ seconds then toString (seconds / 60) ++ "m " ++ toString (seconds % 60) ++ "s"
  else if 0 < seconds then
    let hundredths := millis % 1000 / 10
    toString seconds ++ "." ++ (if hundredths < 10 then "0" else "") ++ toString hundredths ++ "s"
  else toString millis ++ "ms"

/-! ## Lines -/

/-- A labelled value. -/
def stat (label value : String) : String := "  " ++ label ++ ": " ++ value

def renderVariant (name : String) (variations : Variations) : String :=
  if variations = [] then name else name ++ variations.render

/-- A variant and what it depends on. -/
def variantLines (variant : ResolvedVariant) : List String :=
  ("• " ++ renderVariant variant.name variant.variations ++ " (" ++ variant.moduleType ++ ", //" ++
    variant.package ++ ")") ::
  variant.dependencies.map fun dependency =>
    "    → " ++ renderVariant dependency.name dependency.variations ++ " [" ++
      dependency.role.describe ++ "]"

def resolvedLines (records : List PackageRecord) (graph : ResolvedGraph) (elapsed : String) : List String :=
  ["✓ Resolved " ++ toString (PackageRecord.moduleCount records) ++ " module(s) into " ++
      toString graph.variants.length ++ " variant(s) in " ++ elapsed,
    stat "Edges" (toString graph.edgeCount),
    stat "Hash" (String.ofList (graph.hash.toList.take 12)),
    ""] ++ graph.variants.flatMap variantLines

def checkedLines (records : List PackageRecord) : List String :=
  ["✓ " ++ toString (PackageRecord.moduleCount records) ++ " module(s) in " ++
    toString records.length ++ " package(s) resolve cleanly"]

def typeLines (type : ModuleType) : List String :=
  ["• " ++ type.name,
    stat "Capabilities" (Text.join ", " (type.capabilities.map Capability.name)),
    stat "Fields" (Text.join ", " type.schema.keys)]

def stageNames : List String := Stage.builtin.map (·.name)

def precedenceWord : ImportPrecedence → String
  | .preferImports => "PreferImports"
  | .strict => "Strict"

def infoLines (detected : Option String) (config : Config) : List String :=
  [programName ++ " " ++ version, "",
    "System:",
    stat "Detected host" (detected.getD "unsupported platform"), "",
    "Configuration:",
    stat "Host" config.host.triple,
    stat "Device" (config.device.os.name ++ " [" ++
      Text.join ", " (config.device.archs.map Arch.name) ++ "]"),
    stat "Parallelism" (toString config.parallelism),
    stat "Import precedence" (precedenceWord config.precedence),
    stat "Config variables" (toString config.declared.length),
    stat "External build" (if config.external.enabled then "mixed" else "off"), "",
    "Stages: defaults, " ++ Text.join ", " stageNames]

/-! ## Documents -/

def kindName : FieldKind → String
  | .bool => "bool"
  | .int => "int"
  | .string => "string"
  | .stringList => "string_list"
  | .deps role => "deps(" ++ role.describe ++ ")"
  | .struct _ => "struct"
  | .conditional condition => "conditional(" ++ condition.axis ++ ")"
  | .configVariables => "config_variables"

def typeJson (type : ModuleType) : Json :=
  .object [
    ("name", .string type.name),
    ("capabilities", .ofStrings (type.capabilities.map Capability.name)),
    ("fields", .object (type.schema.mapValues fun field =>
      .object [("kind", .string (kindName field.kind)), ("variant", .bool field.variant)]))]

def infoJson (detected : Option String) (config : Config) : Json :=
  .object [
    ("version", .string version),
    ("detected_host", .ofOption .string detected),
    ("stages", .ofStrings stageNames),
    ("config", config.toJson)]

def resolvedJson (graph : ResolvedGraph) : Json :=
  .object [("hash", .string graph.hash), ("variants", .array (graph.variants.map (·.toJson)))]

def faultsJson (errors : List BuildError) : Json :=
  .object [("ok", .bool false), ("errors", .ofStrings (errors.map (·.message)))]

/-! ## Failures -/

/-- What went wrong in the first place, and the causes of that. -/
def causes : LoadError → String × List String
  | .configUnreadable path =>
    ("Failed to load config: " ++ path, ["failed to read config " ++ path, "no such file"])
  | .configRefused path .malformed =>
    ("Failed to load config: " ++ path, [ConfigError.message .malformed, "malformed document"])
  | .configRefused path cause => ("Failed to load config: " ++ path, [cause.message])
  | .recordsUnreadable path =>
    ("Failed to load module records: " ++ path, ["failed to read " ++ path, "no such file"])
  | .recordsMalformed path =>
    ("Failed to load module records: " ++ path,
      ["failed to parse module records", "malformed document"])
  | .noWorkers => ("--parallelism must be at least 1", [])

/-- A single cause is indented; several causes are numbered. -/
def causeLines : List String → List String
  | [] => []
  | [cause] => "" :: "Caused by:" :: (Text.split '\n' cause).map ("    " ++ ·)
  | several => "" :: "Caused by:" :: several.mapIdx fun i cause => "    " ++ toString i ++ ": " ++ cause

/-- The lines for a failure with its causes. -/
def failureLines (failure : String × List String) : List String :=
  ("Error: " ++ failure.1) :: causeLines failure.2

/-! ## Writing -/

/-- A success, written as lines or as a document. -/
def success (format : Format) (lines : List String) (json : Json) : Output :=
  ⟨0, if format = .json then .document json else .lines lines, []⟩

/-- Writes a report. Errors go to the error output as lines, or to the main output as a document. -/
def write (format : Format) (elapsed : String) : Report → Output
  | resolved records graph =>
    success format (resolvedLines records graph elapsed) (resolvedJson graph)
  | checked records graph =>
    success format (checkedLines records)
      (.object [("ok", .bool true), ("variants", .int graph.variants.length)])
  | types table =>
    success format (table.values.flatMap typeLines) (.array (table.values.map typeJson))
  | info detected config => success format (infoLines detected config) (infoJson detected config)
  | faulty activity errors =>
    let summary := activity ++ " failed with " ++ toString errors.length ++ " error(s)"
    match format with
    | .text => ⟨1, .lines [], errors.map ("✗ " ++ ·.message) ++ failureLines (summary, [])⟩
    | .json => ⟨1, .document (faultsJson errors), failureLines (summary, [])⟩
  | stopped cause => ⟨1, .lines [], failureLines (causes cause)⟩

end Report
end VariantGraph
