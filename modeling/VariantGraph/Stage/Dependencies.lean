import VariantGraph.Stage.Basic
/-!
# The stage that turns references into dependencies

Every reference in a dependency field becomes a dependency, also those in branches of conditional
fields. A dependency from a branch only exists for variants that select the branch.

| here | there (crates/lib/src/mutator/builtin) |
| --- | --- |
| `tagFor` | `tag_for` (deps.rs:19-30) |
| `topRequests` | the loop over the top fields (deps.rs:55-59) |
| `branchLists`, `BranchList.requests`, `branchValue` | the loop over the branches (deps.rs:61-91) |
| `act` | `DepsMutator::mutate` (deps.rs:41-99) |
-/
namespace VariantGraph.Dependencies

/-- The tag of a role: a tool is one for the host whatever uses it, a library is linked as its role
says. -/
def tagFor (role : Role) (host : Target) : Tag :=
  let tag := Tag.ofRole role
  match role with
  | .tool => { tag with far := true }.require Axis.os host.os.name |>.require Axis.arch host.arch.name
  | .sharedLib => tag.require Axis.link LinkMode.shared
  | .staticLib => tag.require Axis.link LinkMode.static
  | .data | .dep => tag

/-- The dependencies listed at the top of a module's properties. -/
def topRequests (schema : Schema) (host : Target) (properties : Properties) : List Request :=
  schema.dependencyFields.flatMap fun (field, role) =>
    (properties.getList field).map fun reference => ⟨tagFor role host, reference, field⟩

/-- The value on the axis of a condition that selects a branch. -/
def branchValue (condition : Condition) (host : Target) (branch : String) : String :=
  if condition = .target ∧ branch = hostBranch then host.os.name else branch

/-- A list of dependencies in a branch. -/
structure BranchList where
  condition : Condition
  branch : String
  role : Role
  /-- The path of the list. -/
  property : String
  references : List String

/-- The lists of dependencies that are not empty, in all branches of a module's conditional fields. -/
def branchLists (schema : Schema) (properties : Properties) : List BranchList :=
  schema.conditionalFields.flatMap fun (name, condition) =>
    ((properties.getMap? name).getD []).flatMap fun (branch, value) =>
      match value with
      | .map fields =>
        schema.dependencyFields.filterMap fun (field, role) =>
          match Properties.getList fields field with
          | [] => none
          | references =>
            some ⟨condition, branch, role, name ++ "." ++ branch ++ "." ++ field, references⟩
      | _ => []

/-- The dependencies that a list in a branch asks for. -/
def BranchList.requests (host : Target) (list : BranchList) : List Request :=
  let tag := (tagFor list.role host).onlyFrom list.condition.axis
    (branchValue list.condition host list.branch)
  list.references.map fun reference => ⟨tag, reference, list.property⟩

def act (visit : Visit) : Visit :=
  if visit.can .defaults then visit
  else match visit.moduleType? with
    | none => visit
    | some type =>
      let host := visit.env.config.host
      let (misplaced, placed) :=
        (branchLists type.schema visit.properties).partition (·.branch = conditionsDefault)
      let requests := topRequests type.schema host visit.properties ++
        placed.flatMap (BranchList.requests host)
      let blamed := misplaced.foldl
        (fun visit list => visit.blame (some list.property) .misplacedDependencies) visit
      requests.foldl Visit.depend blamed

end VariantGraph.Dependencies

/-- Turns references into dependencies. -/
def VariantGraph.Stage.dependencies : VariantGraph.Stage :=
  .ofVisit "deps" .bottomUp Dependencies.act
