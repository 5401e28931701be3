import VariantGraph.Json.Basic
import VariantGraph.Text
/-!
# Compact JSON text

The written form without blanks, in the order in which members are stored. Only `"`, `\` and the
control characters below U+0020 are escaped; everything else stands as it is. `write value rest` is
the text of `value` followed by `rest`, so the text of a list is the text of its first item followed
by the text of the others.
-/
namespace VariantGraph.Json

/-- A character as it stands inside a string. -/
def escaped (c : Char) : List Char :=
  if c = '"' then ['\\', '"']
  else if c = '\\' then ['\\', '\\']
  else if c = '\n' then ['\\', 'n']
  else if c = '\r' then ['\\', 'r']
  else if c = '\t' then ['\\', 't']
  else if c = '\x08' then ['\\', 'b']
  else if c = '\x0c' then ['\\', 'f']
  else if c.toNat < 0x20 then
    ['\\', 'u', '0', '0', Text.hexDigit (c.toNat / 16), Text.hexDigit (c.toNat % 16)]
  else [c]

/-- A string between quotes, followed by more text. -/
def writeString (value : String) (rest : List Char) : List Char :=
  '"' :: (value.toList.flatMap escaped ++ '"' :: rest)

mutual

/-- The text of a value, followed by more text. -/
def write : Json → List Char → List Char
  | .null, rest => 'n' :: 'u' :: 'l' :: 'l' :: rest
  | .bool true, rest => 't' :: 'r' :: 'u' :: 'e' :: rest
  | .bool false, rest => 'f' :: 'a' :: 'l' :: 's' :: 'e' :: rest
  | .int value, rest => (toString value).toList ++ rest
  | .decimal digits, rest => digits.toList ++ rest
  | .string value, rest => writeString value rest
  | .array items, rest => '[' :: writeItems true items rest
  | .object members, rest => '\x7b' :: writeMembers true members rest

/-- The items of an array and its closing bracket; all but a first item follow a comma. -/
def writeItems : Bool → List Json → List Char → List Char
  | _, [], rest => ']' :: rest
  | true, item :: items, rest => write item (writeItems false items rest)
  | false, item :: items, rest => ',' :: write item (writeItems false items rest)

/-- The members of an object and its closing brace; all but a first member follow a comma. -/
def writeMembers : Bool → List (String × Json) → List Char → List Char
  | _, [], rest => '\x7d' :: rest
  | true, (name, value) :: members, rest =>
    writeString name (':' :: write value (writeMembers false members rest))
  | false, (name, value) :: members, rest =>
    ',' :: writeString name (':' :: write value (writeMembers false members rest))

end

/-- The compact text of a value. -/
def compact (value : Json) : String := String.ofList (write value [])

end VariantGraph.Json
