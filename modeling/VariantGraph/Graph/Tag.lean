import VariantGraph.Role
import VariantGraph.Variations
/-!
# Tags of dependencies

A tag says what a dependency is for and which variants of the target it may lead to. On an axis that
a side is not split on yet nothing is excluded, so a dependency fans out when its target is split and
narrows when its own variant is.

| here | there (crates/lib/src) |
| --- | --- |
| `Tag` | `DependencyTag` (graph/types.rs:126-136); `required` and `origin` are its `required` and `from` |
| `ofRole`, `require`, `onlyFrom` | `new`, `require`, `only_from` (graph/types.rs:139-159) |
| `appliesTo`, `allows` | `applies_to`, `allows` (graph/types.rs:162-184) |
-/
namespace VariantGraph

structure Tag where
  role : Role
  /-- The variant's own variations do not matter to the target. -/
  far : Bool
  /-- Values that the target has to have on axes it is split on. -/
  required : Variations
  /-- Values that the variant has to have for the dependency to exist at all. -/
  origin : Variations
  deriving DecidableEq, Repr

namespace Tag

/-- The tag of a role with no constraints. -/
def ofRole (role : Role) : Tag := ⟨role, false, [], []⟩

/-- The tag with one more required value. -/
def require (tag : Tag) (axis value : String) : Tag :=
  { tag with required := tag.required.assign axis value }

/-- The tag for variants with one more value only. -/
def onlyFrom (tag : Tag) (axis value : String) : Tag :=
  { tag with origin := tag.origin.assign axis value }

/-- Whether the dependency exists for a variant. -/
def appliesTo (tag : Tag) (variant : Variations) : Bool := tag.origin.compatible variant

/-- Whether the dependency of a variant may lead to a target variant. -/
def allows (tag : Tag) (variant target : Variations) : Bool :=
  tag.appliesTo variant && tag.required.compatible target &&
    (tag.far || (tag.origin ++ variant).all fun (axis, value) =>
      tag.required.has axis || (target.value? axis).all (· = value))

end Tag
end VariantGraph
