import VariantGraph.Namespace.Registry
import VariantGraph.Property.Error
/-!
# Build errors

Everything that a build can find fault with, each error blamed on a module or a package. Errors are
collected, so that one build reports as many independent faults as it can find.

| here | there (crates/lib/src) |
| --- | --- |
| `BuildError`, `message` | `BuildError` and its texts, with `join_rules` and `describe_property` (error.rs:17-145, 168-177) |
| `Origin` | the `module` and `package` of an error |
| `StageFault` | what stages give to `module_error` and `property_error` (mutator/context.rs:158-167) |
| `package?` | `BuildError::package` (error.rs:149-165) |
-/
namespace VariantGraph

/-- The module that an error is blamed on. -/
structure Origin where
  module : String
  package : String
  deriving DecidableEq, Repr

/-- What a stage finds wrong with a module. -/
inductive StageFault where
  /-- A configuration variable that holds no map. -/
  | variableNotMap (kind : String)
  | unknownVariable (name : String)
  | valueNotAllowed (name : String) (allowed : List String) (value : String)
  /-- Dependencies in a branch that is taken when no other one is. -/
  | misplacedDependencies
  | unsupportedEverywhere
  | notToolProvider (target : String)
  | disabledTarget (target : String)
  | noVariation (value : String)
  /-- Anything else, in words. -/
  | other (text : String)
  deriving DecidableEq, Repr

def StageFault.message : StageFault → String
  | variableNotMap kind => "expected a map, found " ++ kind
  | unknownVariable name => "unknown soong config variable " ++ Text.quoted name
  | valueNotAllowed name allowed value =>
    "soong config property " ++ Text.quoted name ++ " must be one of [" ++ Text.join " " allowed ++
      "], found " ++ Text.quoted value
  | misplacedDependencies => "dependencies may not be listed under conditions_default"
  | unsupportedEverywhere => "module is supported on neither host nor device"
  | notToolProvider target => Text.quoted target ++ " is not a host tool provider"
  | disabledTarget target => "depends on disabled module " ++ Text.quoted target
  | noVariation value => "no variation " ++ Text.quoted value
  | other text => text

inductive BuildError where
  /-- Two modules of one name in one namespace. -/
  | duplicateName (name scope package previousPackage : String)
  /-- A namespace or a package that cannot be declared. -/
  | declaration (package : String) (cause : RegistryError)
  | unknownType (origin : Origin) (moduleType : String)
  /-- Properties that cannot be populated, merged or selected. -/
  | invalidProperty (origin : Origin) (cause : PropertyError)
  | invalidVisibility (origin : Origin) (property : String) (cause : VisibilityError)
  | invalidDefaultVisibility (package : String) (cause : VisibilityError)
  | unresolved (origin : Origin) (property : String) (cause : ResolveError)
  /-- A reference to a module that may not be seen. -/
  | notVisible (origin : Origin) (property target targetPackage : String) (rules : List VisibilityRule)
  | notDefaults (origin : Origin) (target : String)
  | dependsOnDefaults (origin : Origin) (property target : String)
  | dependencyCycle (path : List String)
  | defaultsCycle (path : List String)
  /-- A dependency that no variant of its target satisfies. -/
  | missingVariant (origin : Origin) (variations property target : String)
  /-- What a stage finds wrong, possibly with one property. -/
  | stageFault (stage : String) (origin : Origin) (property : Option String) (fault : StageFault)
  deriving DecidableEq, Repr

/-- A module and its package in words. -/
def Origin.describe (origin : Origin) : String :=
  "module " ++ Text.quoted origin.module ++ " in package " ++ Text.quoted origin.package

namespace BuildError

def message : BuildError → String
  | duplicateName name scope package previousPackage =>
    Origin.describe ⟨name, package⟩ ++ " is already defined in " ++ describeNamespace scope ++
      " by package " ++ Text.quoted previousPackage
  | declaration package cause => "package " ++ Text.quoted package ++ ": " ++ cause.message
  | unknownType origin moduleType =>
    origin.describe ++ ": unknown module type " ++ Text.quoted moduleType
  | invalidProperty origin cause => origin.describe ++ ": " ++ cause.message
  | invalidVisibility origin property cause =>
    origin.describe ++ ": property " ++ Text.quoted property ++ ": " ++ cause.message
  | invalidDefaultVisibility package cause =>
    "package " ++ Text.quoted package ++ ": property \"default_visibility\": " ++ cause.message
  | unresolved origin property cause =>
    origin.describe ++ ": property " ++ Text.quoted property ++ ": " ++ cause.message
  | notVisible origin property target targetPackage rules =>
    origin.describe ++ " may not reference " ++ Text.quoted target ++ " in package " ++
      Text.quoted targetPackage ++ " (property " ++ Text.quoted property ++ "): not visible under [" ++
      Text.join ", " (rules.map (·.label)) ++ "]"
  | notDefaults origin target =>
    origin.describe ++ ": " ++ Text.quoted target ++ " is not a defaults module"
  | dependsOnDefaults origin property target =>
    origin.describe ++ ": property " ++ Text.quoted property ++ ": cannot depend on defaults module " ++
      Text.quoted target
  | dependencyCycle path => "dependency cycle: " ++ Text.join " -> " path
  | defaultsCycle path => "defaults cycle: " ++ Text.join " -> " path
  | missingVariant origin variations property target =>
    origin.describe ++ " variant " ++ variations ++ ": property " ++ Text.quoted property ++
      ": no variant of " ++ Text.quoted target ++ " matches"
  | stageFault stage origin property fault =>
    stage ++ ": " ++ origin.describe ++
      (match property with
        | some property => " property " ++ Text.quoted property
        | none => "") ++
      ": " ++ fault.message

/-- The package that an error is blamed on; a cycle is blamed on none. -/
def package? : BuildError → Option String
  | duplicateName _ _ package _ | declaration package _ | invalidDefaultVisibility package _ =>
    some package
  | unknownType origin _ | invalidProperty origin _ | invalidVisibility origin _ _ | unresolved origin _ _
  | notVisible origin _ _ _ _ | notDefaults origin _ | dependsOnDefaults origin _ _
  | missingVariant origin _ _ _ | stageFault _ origin _ _ => some origin.package
  | dependencyCycle _ | defaultsCycle _ => none

end BuildError
end VariantGraph
