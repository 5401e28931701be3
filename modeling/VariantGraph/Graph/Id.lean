/-!
# Identities of modules and variants

Modules and variants are numbered from zero in the order in which they come into being; a number is
never used again.

They are the `ModuleId` and `VariantId` of graph/types.rs:14-20.
-/
namespace VariantGraph

abbrev ModuleId := Nat

abbrev VariantId := Nat

end VariantGraph
