import VariantGraph.Text
/-!
# What can go wrong with properties

Errors name the offending property by its dotted path. An operation that changes a tree step by step
may fail half-way; an `Attempt` then also holds the tree as far as it got.

`PropertyError` is the one of property/mod.rs:29-53; an `Attempt` is what is left of a tree that is
changed in place.
-/
namespace VariantGraph

/-- Why properties were refused. -/
inductive PropertyError where
  /-- A property that the schema does not have. -/
  | unknownProperty (path : String)
  /-- A property whose value is of the wrong type. -/
  | typeMismatch (path expected found : String)
  /-- A branch that its condition can never select. -/
  | unknownCondition (path condition : String)
  /-- Two trees to be merged hold values of different kinds in one place. -/
  | shapeMismatch (path into added : String)
  /-- A dotted path that leads through a value with no fields. -/
  | notAMap (path : String)
  deriving DecidableEq, Repr

def PropertyError.message : PropertyError → String
  | unknownProperty path => "unrecognized property " ++ Text.quoted path
  | typeMismatch path expected found =>
    "property " ++ Text.quoted path ++ " must be " ++ expected ++ ", found " ++ found
  | unknownCondition path condition =>
    "property " ++ Text.quoted path ++ " has unknown condition " ++ Text.quoted condition
  | shapeMismatch path into added =>
    "cannot merge property " ++ Text.quoted path ++ ": " ++ into ++ " and " ++ added ++
      " have incompatible shapes"
  | notAMap path => "property path " ++ Text.quoted path ++ " goes through a non-map value"

/-- The state an operation left, and its answer or the reason why it stopped there. -/
structure Attempt (σ α : Type) where
  state : σ
  result : Except PropertyError α

namespace Attempt

variable {σ τ α : Type}

/-- An operation that ran to its end. -/
def done (state : σ) (answer : α) : Attempt σ α := ⟨state, .ok answer⟩

/-- An operation that stopped. -/
def stopped (state : σ) (error : PropertyError) : Attempt σ α := ⟨state, .error error⟩

/-- Goes on from where the first operation ended, unless it stopped. -/
def andThen (first : Attempt σ Unit) (next : σ → Attempt σ α) : Attempt σ α :=
  match first.result with
  | .ok _ => next first.state
  | .error error => stopped first.state error

/-- The same outcome seen as part of a larger state. -/
def within (attempt : Attempt σ α) (embed : σ → τ) : Attempt τ α :=
  ⟨embed attempt.state, attempt.result⟩

/-- The error that stopped the operation. -/
def error? (attempt : Attempt σ α) : Option PropertyError :=
  match attempt.result with
  | .ok _ => none
  | .error error => some error

end Attempt
end VariantGraph
