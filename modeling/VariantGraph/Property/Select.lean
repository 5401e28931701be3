import VariantGraph.Property.Merge
/-!
# Selecting the branches of a conditional field

Selecting takes a conditional field out of its tree and appends the branches that the keys name, in
the order of the keys. If they name none, `conditions_default` is appended instead; if that is
missing too, the tree stays as it is, the conditional field included.

| here | there (crates/lib/src) |
| --- | --- |
| `branch?` | `branch` (property/select.rs:60-70) |
| `branches?`, `choose` | how `select` gathers the branches (property/select.rs:34-46) |
| `select` | `select` (property/select.rs:18-58) |
-/
namespace VariantGraph.Properties

/-- The branch stored under a key. -/
def branch? (branches : Properties) (field key : String) : Except PropertyError (Option Properties) :=
  match branches.find? key with
  | none => .ok none
  | some (.map branch) => .ok (some branch)
  | some other => .error (.typeMismatch (field ++ "." ++ key) "a map" other.kindName)

/-- The branches stored under some keys, in the order of the keys. -/
def branches? (branches : Properties) (field : String) :
    List String → Except PropertyError (List Properties)
  | [] => .ok []
  | key :: keys => do
    let found ← branch? branches field key
    let others ← branches? branches field keys
    return found.toList ++ others

/-- The branches to append, and whether the keys named any. -/
def choose (branches : Properties) (field : String) (keys : List String) :
    Except PropertyError (List Properties × Bool) := do
  let named ← branches? branches field keys
  if named.isEmpty then
    let fallback ← branch? branches field conditionsDefault
    return (fallback.toList, false)
  else return (named, true)

/-- Folds the branches that some keys name into the tree. The answer says whether they named any. -/
def select (props : Properties) (field : String) (keys : List String) : Attempt Properties Bool :=
  match get? props field with
  | none => .done props false
  | some (.map branches) =>
    match choose branches field keys with
    | .error error => .stopped props error
    | .ok ([], _) => .done props false
    | .ok (chosen, named) =>
      (appendAll (without props field) chosen).andThen fun props => .done props named
  | some other => .stopped props (.typeMismatch field "a map" other.kindName)

end VariantGraph.Properties
