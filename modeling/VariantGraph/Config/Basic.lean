import VariantGraph.Namespace.Registry
import VariantGraph.Platform
/-!
# The configuration of a build

| here | there (crates/lib/src) |
| --- | --- |
| `Config`, `defaultOn` | `Config` and its default (config.rs:101-122) |
| `Config.declared`, `Config.values` | `SoongConfig` (config.rs:87-90) |
| `Variable` | `VariableDecl` (config.rs:75-82) |
| `Device`, `defaultDevice` | `DeviceConfig` and its default (config.rs:57-70) |
| `ExternalBuild`, `ConversionDefault` | `ExternalBuildConfig`, `PackageDefault` (delegation.rs:20-41) |
| `ConfigError` | `ConfigError` (config.rs:38-52) |
| `fault?`, `validate` | `Config::validate` (config.rs:141-163) |
-/
namespace VariantGraph

/-- What a configuration variable is. -/
inductive Variable where
  /-- Takes its properties when it is switched on. -/
  | bool
  /-- Takes the branch that its value names; the value is one of these. -/
  | string (values : List String)
  /-- Puts its value into its properties. -/
  | value
  deriving DecidableEq, Repr

/-- Whether the modules of a package are converted for the external build when they say nothing. -/
inductive ConversionDefault where
  /-- They are, and so are those of the packages below. -/
  | convertTree
  /-- They are. -/
  | convertPackage
  /-- They are not. -/
  | keepPackage
  deriving DecidableEq, Repr

/-- What is handed over to the external build. -/
structure ExternalBuild where
  /-- Whether the compilation of converted modules is delegated. -/
  enabled : Bool
  /-- Defaults by package path; `.` is the root package. -/
  packages : Table ConversionDefault
  /-- Names of modules that are never converted. -/
  doNotConvert : List String
  /-- Names of modules that are converted and yet built here. -/
  mixedBuildsDisabled : List String

/-- What modules for devices are built for. -/
structure Device where
  os : Os
  archs : List Arch
  deriving DecidableEq, Repr

structure Config where
  host : Target
  device : Device
  /-- The declared configuration variables. -/
  declared : Table Variable
  /-- The values of configuration variables. -/
  values : Table String
  precedence : ImportPrecedence
  external : ExternalBuild
  /-- How many workers a stage may use; no result depends on it. -/
  parallelism : Nat

/-- Why a configuration was refused. -/
inductive ConfigError where
  /-- The document is no configuration. -/
  | malformed
  | noDeviceArch
  | deviceIsHost (os : Os)
  | repeatedValue (name : String)
  deriving DecidableEq, Repr

namespace ConfigError

/-- The reason why a readable configuration cannot be used. -/
def reason : ConfigError → String
  | malformed => ""
  | noDeviceArch => "device.archs must not be empty"
  | deviceIsHost os => "device.os must be a device OS, found " ++ os.name
  | repeatedValue name =>
    "soong config variable " ++ Text.quoted name ++ " declares a value twice"

def message : ConfigError → String
  | malformed => "failed to parse config"
  | error => "invalid config: " ++ error.reason

end ConfigError

namespace Config

def defaultExternal : ExternalBuild := ⟨false, [], [], []⟩

/-- Android on two architectures. -/
def defaultDevice : Device := ⟨.android, [.arm64, .arm]⟩

/-- The configuration that an empty document describes on a machine. -/
def defaultOn (host : Target) (parallelism : Nat) : Config :=
  ⟨host, defaultDevice, [], [], .preferImports, defaultExternal, parallelism⟩

/-- The declared variables whose values are listed twice. -/
def repeatedVariables (config : Config) : List String :=
  config.declared.filterMap fun (name, kind) =>
    match kind with
    | .string values => if values.Nodup then none else some name
    | _ => none

/-- What keeps a configuration from being used, the first fault first. -/
def fault? (config : Config) : Option ConfigError :=
  if config.device.archs = [] then some .noDeviceArch
  else if config.device.os.isHost then some (.deviceIsHost config.device.os)
  else config.repeatedVariables.head?.map .repeatedValue

/-- Accepts a configuration that can be used. -/
def validate (config : Config) : Except ConfigError Config :=
  match config.fault? with
  | some fault => .error fault
  | none => .ok config

end Config
end VariantGraph
