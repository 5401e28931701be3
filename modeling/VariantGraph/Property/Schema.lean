import VariantGraph.Platform
import VariantGraph.Role
import VariantGraph.Variations
/-!
# Schemas: the fields that properties may have

A schema is fixed for a module type. It says for each field what it holds and whether it may differ
between variants; only such fields may stand in conditional branches (`Schema.variantFields`).

| here | there (crates/lib/src) |
| --- | --- |
| `conditionsDefault` | `CONDITIONS_DEFAULT` (consts.rs:7) |
| `Condition`, `axis`, `accepts` | the same (property/schema.rs:16-46) |
| `FieldKind`, `FieldKind.describe` | `FieldKind`, `describe` (property/schema.rs:50-79) |
| `Field`, `Schema` | `Field`, `Schema` (property/schema.rs:83-93) |
| `fixed`, `varying` | `with`, `with_variant` (property/schema.rs:101-110) |
| `variantFields` | `variant_schema` (property/schema.rs:133-142) |
| `dependencyFields`, `conditionalFields` | `dependency_fields`, `conditional_fields` (property/schema.rs:145-158) |
-/
namespace VariantGraph

/-- The branch that is taken when no other one is. -/
def conditionsDefault : String := "conditions_default"

/-- The branch of a `target` field that every host system selects. -/
def hostBranch : String := "host"

/-- What a conditional field chooses its branches by. -/
inductive Condition where
  | arch | target | link
  deriving DecidableEq, Repr

namespace Condition

/-- The axis whose value selects the branch. -/
def axis : Condition → String
  | arch => Axis.arch
  | target => Axis.os
  | link => Axis.link

/-- Whether a name is that of a branch that can be selected. -/
def accepts (condition : Condition) (name : String) : Bool :=
  name = conditionsDefault ||
  match condition with
  | arch => (Arch.parse name).isOk
  | target => name = hostBranch || (Os.parse name).isOk
  | link => name = LinkMode.static || name = LinkMode.shared

end Condition

/-- A declared field: what it holds, and whether it may differ between variants. -/
structure Declared (κ : Type) where
  kind : κ
  variant : Bool

/-- What a field holds. -/
inductive FieldKind where
  | bool
  | int
  | string
  | stringList
  /-- References to modules that are wanted in a role. -/
  | deps (role : Role)
  /-- A map with fields of its own. -/
  | struct (fields : List (String × Declared FieldKind))
  /-- One branch of variant fields per value of a condition. -/
  | conditional (condition : Condition)
  /-- Variant fields, or branches of them, per configuration variable. -/
  | configVariables
  deriving Inhabited

/-- The shape that a field asks for, in words. -/
def FieldKind.describe : FieldKind → String
  | bool => "a bool"
  | int => "an int"
  | string => "a string"
  | stringList | deps _ => "a list of strings"
  | struct _ | conditional _ | configVariables => "a map"

abbrev Field := Declared FieldKind

/-- The fields of a property tree. -/
abbrev Schema := Table Field

namespace Schema

/-- One more field, which may stand only at the top. -/
def fixed (schema : Schema) (name : String) (kind : FieldKind) : Schema :=
  schema.insert name ⟨kind, false⟩

/-- One more field, which may also stand in branches. -/
def varying (schema : Schema) (name : String) (kind : FieldKind) : Schema :=
  schema.insert name ⟨kind, true⟩

/-- The fields that may stand in a branch. -/
def variantFields (schema : Schema) : Schema := schema.filter fun (_, field) => field.variant

/-- The fields that hold references, with the roles of those. -/
def dependencyFields (schema : Schema) : List (String × Role) :=
  schema.filterMap fun (name, field) =>
    match field.kind with
    | .deps role => some (name, role)
    | _ => none

/-- The conditional fields. -/
def conditionalFields (schema : Schema) : List (String × Condition) :=
  schema.filterMap fun (name, field) =>
    match field.kind with
    | .conditional condition => some (name, condition)
    | _ => none

end Schema
end VariantGraph
