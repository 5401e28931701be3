import VariantGraph.Text
/-!
# References to modules

A reference is a plain name, which is searched for, or `//namespace:name`, which says where the
module is; `//:name` is in the global namespace. `Reference.render` writes a reference down again.

| here | there (crates/lib/src) |
| --- | --- |
| `Reference`, `name` | `ModuleReference`, `name` (namespace/reference.rs:10-23) |
| `parse?` | `from_str` (namespace/reference.rs:29-49) |
| `render` | `fmt` (namespace/reference.rs:53-58) |
-/
namespace VariantGraph

/-- A module as it is named in a list of dependencies. -/
inductive Reference where
  | plain (name : String)
  | qualified (scope name : String)
  deriving DecidableEq, Repr

namespace Reference

/-- The name of the module, without its namespace. -/
def name : Reference → String
  | plain name => name
  | qualified _ name => name

/-- The namespace that a reference says. -/
def scope? : Reference → Option String
  | plain _ => none
  | qualified scope _ => some scope

def render : Reference → String
  | plain name => name
  | qualified scope name => "//" ++ scope ++ ":" ++ name

/-- Reads a reference: the namespace ends at the first colon and not in a slash, and a name has no
colon; a plain name has no slash either. -/
def parse? (text : String) : Option Reference :=
  match Text.stripLead? "//" text with
  | some rest =>
    match Text.cut? ':' rest with
    | some (scope, name) =>
      if name = "" || Text.has ':' name || Text.endsIn '/' scope then none
      else some (.qualified scope name)
    | none => none
  | none =>
    if text = "" || Text.has ':' text || Text.has '/' text then none else some (.plain text)

end Reference
end VariantGraph
