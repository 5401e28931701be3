import VariantGraph.Stage.ConfigVariables
import VariantGraph.Stage.Dependencies
import VariantGraph.Stage.DependencyCheck
import VariantGraph.Stage.Splitting
/-!
# The built-in stages

`builtin` is the list of `register_builtin_mutators` (mutator/builtin/mod.rs:25-32).
-/
namespace VariantGraph.Stage

/-- The stages of an ordinary build, in order. -/
def builtin : List Stage := [configVariables, dependencies, os, arch, link, dependencyCheck]

/-- The built-in stage of a name. -/
def builtin? (name : String) : Option Stage := builtin.find? (·.name = name)

end VariantGraph.Stage
