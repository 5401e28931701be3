/-!
# Roles of dependencies

`Role` is `DependencyRole`, and `Role.describe` its `as_str` (graph/types.rs:31-51).
-/
namespace VariantGraph

/-- What a module wants another module for. -/
inductive Role where
  | sharedLib | staticLib | tool | data | dep
  deriving DecidableEq, Repr

namespace Role

def all : List Role := [sharedLib, staticLib, tool, data, dep]

/-- The role as it is read and written in records. -/
def key : Role → String
  | sharedLib => "shared_lib"
  | staticLib => "static_lib"
  | tool => "tool"
  | data => "data"
  | dep => "dep"

/-- The role in words. -/
def describe : Role → String
  | sharedLib => "shared lib"
  | staticLib => "static lib"
  | tool => "tool"
  | data => "data"
  | dep => "dep"

def ofKey? (text : String) : Option Role := all.find? (·.key = text)

theorem ofKey?_key (role : Role) : ofKey? role.key = some role := by cases role <;> rfl

end Role
end VariantGraph
