import VariantGraph.PackagePath
/-!
# Visibility rules

A module says in a list of labels which packages may depend on it. `//visibility:public`,
`//visibility:private` and `//visibility:legacy_public` stand alone, except that
`//visibility:override` may stand before them; `//pkg:__pkg__` admits one package and
`//pkg:__subpackages__` also those below it. A label that begins with the colon is about the package
it is written in.

| here | there (crates/lib/src) |
| --- | --- |
| `VisibilityRule`, `VisibilityError` | `VisibilityRule`, `VisibilityRuleError` (namespace/visibility.rs:18-29, 85-101) |
| `label` | `fmt` (namespace/visibility.rs:71-80) |
| `isExclusive` | `is_exclusive` (namespace/visibility.rs:32-37) |
| `ofLabel?`, `ofWord?`, `ofTarget?` | `VisibilityRule::parse` (namespace/visibility.rs:39-67) |
| `parse`, `ofLabels`, `body`, `listError?` | `parse_rules` (namespace/visibility.rs:104-127) |
| `admits`, `anyAdmits` | `rules_allow` (namespace/visibility.rs:130-137) |
-/
namespace VariantGraph

/-- One rule of a visibility list. -/
inductive VisibilityRule where
  | everyone
  | nobody
  /-- Sets inherited rules aside; admits nobody itself. -/
  | override
  /-- The rule of a module that has none and inherits none. -/
  | legacyEveryone
  /-- This package. -/
  | package (path : String)
  /-- This package and those below it. -/
  | subtree (path : String)
  deriving DecidableEq, Repr

/-- Why a list of labels was refused. -/
inductive VisibilityError where
  | unknown (label : String)
  | notExclusive (label : String)
  | overrideNotFirst
  | empty
  deriving DecidableEq, Repr

def VisibilityError.message : VisibilityError → String
  | unknown label => "unrecognized visibility rule " ++ Text.quoted label
  | notExclusive label =>
    "visibility rule " ++ Text.quoted label ++ " may not be combined with other rules"
  | overrideNotFirst => "\"//visibility:override\" may only be the first rule"
  | empty => "visibility rule list is empty"

namespace VisibilityRule

/-- The label of a rule, written so that it means the same in every package. -/
def label : VisibilityRule → String
  | everyone => "//visibility:public"
  | nobody => "//visibility:private"
  | override => "//visibility:override"
  | legacyEveryone => "//visibility:legacy_public"
  | package path => "//" ++ path ++ ":__pkg__"
  | subtree path => "//" ++ path ++ ":__subpackages__"

/-- Whether a rule may not stand beside others. -/
def isExclusive : VisibilityRule → Bool
  | everyone | nobody | legacyEveryone => true
  | _ => false

/-- The rules that are written with the word `visibility`. -/
def ofWord? : String → Option VisibilityRule
  | "public" => some everyone
  | "private" => some nobody
  | "override" => some override
  | "legacy_public" => some legacyEveryone
  | _ => none

/-- The rules about a package, by the target that is written behind it. -/
def ofTarget? (path : String) : String → Option VisibilityRule
  | "__pkg__" => some (package path)
  | "__subpackages__" => some (subtree path)
  | _ => none

/-- The rule of a label that is written in a package. -/
def ofLabel? (home label : String) : Option VisibilityRule :=
  match Text.stripLead? "//visibility:" label with
  | some word => ofWord? word
  | none =>
    match Text.stripLead? "//" label with
    | some rest => (Text.cut? ':' rest).bind fun (path, target) => ofTarget? path target
    | none => (Text.stripLead? ":" label).bind (ofTarget? home)

/-- Whether a rule admits a package. -/
def admits : VisibilityRule → String → Bool
  | everyone, _ | legacyEveryone, _ => true
  | nobody, _ | override, _ => false
  | package path, visitor => visitor = path
  | subtree path, visitor => PackagePath.within visitor path

/-- Whether some rule of a list admits a package. -/
def anyAdmits (rules : List VisibilityRule) (visitor : String) : Bool := rules.any (·.admits visitor)

/-- The rules of labels that are written in a package, each by itself. -/
def ofLabels (home : String) : List String → Except VisibilityError (List VisibilityRule)
  | [] => .ok []
  | label :: labels =>
    match ofLabel? home label with
    | some rule => (ofLabels home labels).map (rule :: ·)
    | none => .error (.unknown label)

/-- The rules behind a leading override. -/
def body : List VisibilityRule → List VisibilityRule
  | override :: rest => rest
  | rules => rules

/-- Which rule about the rules of a list is broken, if any. -/
def listError? (rules : List VisibilityRule) : Option VisibilityError :=
  if rules = [] then some .empty
  else if override ∈ body rules then some .overrideNotFirst
  else if 1 < (body rules).length then
    ((body rules).find? (·.isExclusive)).map fun rule => .notExclusive rule.label
  else none

/-- Reads a list of labels that is written in a package. -/
def parse (home : String) (labels : List String) : Except VisibilityError (List VisibilityRule) := do
  let rules ← ofLabels home labels
  match listError? rules with
  | some error => .error error
  | none => .ok rules

end VisibilityRule
end VariantGraph
