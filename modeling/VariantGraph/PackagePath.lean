import VariantGraph.Text
/-!
# Package paths

A package path is a text whose components are separated by slashes; the root package is the empty
path. The packages above a path are found by cutting it before each of its slashes, and the root is
above every path. `PackagePath.within` says the same of two given paths.

| here | there (crates/lib/src) |
| --- | --- |
| `ancestors` | the walk of `default_visibility`, the candidates of `enclosing_namespace` (namespace/registry.rs:151-159, 258-269) |
| `within` | `is_within` (namespace/visibility.rs:140-146) |
-/
namespace VariantGraph.PackagePath

/-- What stands before each slash, from the first slash on. -/
def stems : List Char → List (List Char)
  | [] => []
  | c :: rest => if c = '/' then [] :: (stems rest).map (c :: ·) else (stems rest).map (c :: ·)

/-- The path itself and the paths above it, the nearest first and the root last. -/
def ancestors (path : String) : List String :=
  path :: (stems path.toList).reverse.map String.ofList ++ [""]

/-- Whether a package is another one or lies below it. -/
def within (package ancestor : String) : Bool :=
  ancestor = "" || package = ancestor || Text.startsWith (ancestor ++ "/") package

end VariantGraph.PackagePath
