import VariantGraph.Stage.Basic
/-!
# The stage that checks dependencies

Tools have to be tools, and what is built may not depend on what is disabled. Disabled variants are
not checked themselves.

`act` is `DependencyCheckMutator::mutate` (mutator/builtin/check.rs:20-45), `fault?` the body of its loop.
-/
namespace VariantGraph.DependencyCheck

/-- Whether properties say that a variant is not built. -/
def isDisabled (properties : Properties) : Bool := properties.getBool? "enabled" = some false

/-- What is wrong with a dependency. -/
def fault? (graph : Graph) (dependency : Dependency) : Option StageFault :=
  let target := graph.module dependency.module
  if dependency.tag.role = .tool && !target.can .hostToolProvider then
    some (.notToolProvider target.name)
  else if dependency.targets.any fun id => isDisabled (graph.variant id).properties then
    some (.disabledTarget target.name)
  else none

def act (visit : Visit) : Visit :=
  if isDisabled visit.properties then visit
  else visit.variant.dependencies.foldl (fun visit dependency =>
    match fault? visit.graph dependency with
    | some fault => visit.blame (some dependency.property) fault
    | none => visit) visit

end VariantGraph.DependencyCheck

/-- Checks dependencies. -/
def VariantGraph.Stage.dependencyCheck : VariantGraph.Stage :=
  .ofVisit "dependency_check" .bottomUp DependencyCheck.act
