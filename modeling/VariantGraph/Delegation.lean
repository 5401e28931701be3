import VariantGraph.Config.Basic
import VariantGraph.Graph.Basic
import VariantGraph.Property.Path
/-!
# What is handed over to the external build

Every final variant says whether its module is converted for the external build and whether its
compilation is delegated there. This follows from the configuration and the module's own properties
and never changes the graph.

| here | there (crates/lib/src) |
| --- | --- |
| `rootPackageKey` | `ROOT_PACKAGE_KEY` (consts.rs:10) |
| `stemsOf`, `convertsTree`, `convertsByDefault` | `package_defaults_to_convert` (delegation.rs:54-78) |
| `converts` | `converted` (delegation.rs:81-91) |
| `ExternalStatus`, `status` | `ExternalBuildStatus`, `status` (delegation.rs:45-50, 94-115) |
-/
namespace VariantGraph

/-- The key of the root package in conversion defaults. -/
def rootPackageKey : String := "."

/-- What a variant says about the external build. -/
structure ExternalStatus where
  converted : Bool
  delegated : Bool
  label : Option String
  deriving DecidableEq, Repr

namespace ExternalBuild

/-- The paths that are made of the first components of a path, behind a stem that was read before. An
empty stem has no slash after it. -/
def stemsOf (stem : String) : List String → List String
  | [] => []
  | part :: parts =>
    let stem := if stem = "" then part else stem ++ "/" ++ part
    stem :: stemsOf stem parts

/-- Whether the entry for a path is about all packages below it too. -/
def convertsTree (external : ExternalBuild) (path : String) : Bool :=
  external.packages.find? path = some .convertTree

/-- Whether the modules of a package are converted when they say nothing: as its own entry says, else
if an entry for the root or a package on the way says so for everything below. -/
def convertsByDefault (external : ExternalBuild) (package : String) : Bool :=
  match external.packages.find? (if package = "" then rootPackageKey else package) with
  | some .keepPackage => false
  | some _ => true
  | none =>
    external.convertsTree rootPackageKey ||
      (stemsOf "" (Text.split '/' package)).any external.convertsTree

/-- Whether a variant is converted. -/
def converts (external : ExternalBuild) (module : Module) (properties : Properties) : Bool :=
  (properties.getString? "external_build.label").isSome ||
    (module.name ∉ external.doNotConvert && module.can .externalBuildable &&
      (properties.getBool? "external_build.available").getD
        (external.convertsByDefault module.package))

/-- What a variant says about the external build. -/
def status (external : ExternalBuild) (module : Module) (variant : Variant) : ExternalStatus :=
  let converted := external.converts module variant.properties
  { converted
    delegated :=
      external.enabled && converted && (variant.properties.getBool? "enabled").getD true &&
        variant.variations.value? Axis.os ≠ some Os.windows.name &&
        module.name ∉ external.mixedBuildsDisabled
    label :=
      match variant.properties.getString? "external_build.label" with
      | some label => some label
      | none => if converted then some ("//" ++ module.package ++ ":" ++ module.name) else none }

end ExternalBuild
end VariantGraph
