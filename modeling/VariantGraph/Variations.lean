import VariantGraph.Text
import VariantGraph.Table
/-!
# Variations: what tells the variants of a module apart

A variant has a value on every axis on which its module was split. Two variants can be paired when
they agree on every axis that both have (`Variations.compatible`).

| here | there (crates/lib/src) |
| --- | --- |
| `Axis.os`, `Axis.arch`, `Axis.link` | `AXIS_OS`, `AXIS_ARCH`, `AXIS_LINK` (consts.rs:16-22) |
| `Variations`, `value?`, `assign` | `Variations`, `get`, `with` (graph/types.rs:62, 73-75, 90-94) |
| `compatible` | `compatible_with` (graph/types.rs:97-102) |
| `render` | `fmt` (graph/types.rs:106-115) |
-/
namespace VariantGraph

/-- The axes of the stages that every build has. -/
def Axis.os : String := "os"

def Axis.arch : String := "arch"

def Axis.link : String := "link"

/-- How a library is linked: the values on the axis `link`. -/
def LinkMode.static : String := "static"

def LinkMode.shared : String := "shared"

/-- A value for each axis on which a variant is split. -/
abbrev Variations := Table String

namespace Variations

/-- The value on an axis. -/
def value? (variations : Variations) (axis : String) : Option String := variations.find? axis

/-- The variations with a value set on one more axis. -/
def assign (variations : Variations) (axis value : String) : Variations := variations.insert axis value

/-- Whether two variants agree on every axis that both have. -/
def compatible (a b : Variations) : Bool :=
  a.all fun (axis, value) => (value? b axis).all (· = value)

/-- Whether one comes before another: by the first entry in which they differ. -/
def before : Variations → Variations → Bool
  | _, [] => false
  | [], _ :: _ => true
  | (axis, value) :: a, (axis', value') :: b =>
    if axis = axis' then if value = value' then before a b else value < value' else axis < axis'

/-- The written form, such as `{arch: arm64, os: android}`. -/
def render (variations : Variations) : String :=
  "\x7b" ++ Text.join ", " (variations.map fun (axis, value) => axis ++ ": " ++ value) ++ "\x7d"

end Variations
end VariantGraph
