import VariantGraph.Json.Compact
/-!
# Indented JSON text

The written form for readers: members in the order of their names, one per line, two blanks deeper
than what they belong to.
-/
namespace VariantGraph.Json

mutual

/-- The same value with the members of all objects in the order of their names. -/
def sorted : Json → Json
  | .array items => .array (sortedItems items)
  | .object members => .object (sortedMembers members)
  | other => other

def sortedItems : List Json → List Json
  | [] => []
  | item :: rest => sorted item :: sortedItems rest

def sortedMembers : List (String × Json) → Table Json
  | [] => []
  | (name, value) :: rest => Table.insert (sortedMembers rest) name (sorted value)

end

/-- A new line that is indented by some levels, followed by more text. -/
def newLine (level : Nat) (rest : List Char) : List Char :=
  '\n' :: (List.replicate (2 * level) ' ' ++ rest)

mutual

/-- The indented text of a value at a level, followed by more text. -/
def writeIndented (level : Nat) : Json → List Char → List Char
  | .array [], rest => '[' :: ']' :: rest
  | .object [], rest => '\x7b' :: '\x7d' :: rest
  | .array (item :: items), rest =>
    '[' :: newLine (level + 1) (writeIndented (level + 1) item (indentItems level items rest))
  | .object ((name, value) :: members), rest =>
    '\x7b' :: newLine (level + 1) (writeString name
      (':' :: ' ' :: writeIndented (level + 1) value (indentMembers level members rest)))
  | other, rest => write other rest

def indentItems (level : Nat) : List Json → List Char → List Char
  | [], rest => newLine level (']' :: rest)
  | item :: items, rest =>
    ',' :: newLine (level + 1) (writeIndented (level + 1) item (indentItems level items rest))

def indentMembers (level : Nat) : List (String × Json) → List Char → List Char
  | [], rest => newLine level ('\x7d' :: rest)
  | (name, value) :: members, rest =>
    ',' :: newLine (level + 1) (writeString name
      (':' :: ' ' :: writeIndented (level + 1) value (indentMembers level members rest)))

end

/-- The indented text of a value. -/
def pretty (value : Json) : String := String.ofList (writeIndented 0 value.sorted [])

end VariantGraph.Json
