/-!
# JSON documents as written

Reading a document has two steps. This module does the first: it recognises the grammar of JSON
and keeps numbers as their digits and strings as their characters and `\u` escapes. What a number or
a string stands for, and whether it stands for anything, is decided only for the parts that are
used (`VariantGraph.Json.Decode`), so a part nobody asks for has to be well written but may hold an
escape for half a character or a number of any size.
-/
namespace VariantGraph

/-- One element of a written string: a character, or a `\u` escape with its code. -/
inductive StringUnit where
  | char (value : Char)
  | escape (code : Nat)
  deriving DecidableEq, Repr

/-- A document as written. -/
inductive RawJson where
  | null
  | bool (value : Bool)
  | number (digits : List Char)
  | string (units : List StringUnit)
  | array (items : List RawJson)
  | object (members : List (List StringUnit × RawJson))
  deriving Inhabited

namespace RawJson

/-! ## Leaves -/

def isBlank (c : Char) : Bool := c = ' ' || c = '\n' || c = '\t' || c = '\r'

def skipBlanks (text : List Char) : List Char := text.dropWhile isBlank

def isDigit (c : Char) : Bool := '0' ≤ c && c ≤ '9'

/-- The value of a hexadecimal digit in either case. -/
def hexValue? (c : Char) : Option Nat :=
  if isDigit c then some (c.toNat - '0'.toNat)
  else if 'a' ≤ c ∧ c ≤ 'f' then some (c.toNat - 'a'.toNat + 10)
  else if 'A' ≤ c ∧ c ≤ 'F' then some (c.toNat - 'A'.toNat + 10)
  else none

/-- The character that a one-letter escape stands for. -/
def shortEscape? : Char → Option Char
  | '"' => some '"'
  | '\\' => some '\\'
  | '/' => some '/'
  | 'b' => some '\x08'
  | 'f' => some '\x0c'
  | 'n' => some '\n'
  | 'r' => some '\r'
  | 't' => some '\t'
  | _ => none

/-- The rest of a string after its opening quote, behind the units read so far in reverse. -/
def readString : List StringUnit → List Char → Option (List StringUnit × List Char)
  | units, '"' :: rest => some (units.reverse, rest)
  | units, '\\' :: 'u' :: a :: b :: c :: d :: rest =>
    match hexValue? a, hexValue? b, hexValue? c, hexValue? d with
    | some a, some b, some c, some d => readString (.escape (((a * 16 + b) * 16 + c) * 16 + d) :: units) rest
    | _, _, _, _ => none
  | units, '\\' :: c :: rest =>
    match shortEscape? c with
    | some c => readString (.char c :: units) rest
    | none => none
  | units, c :: rest => if c.toNat < 0x20 then none else readString (.char c :: units) rest
  | _, [] => none

/-- One digit or more. -/
def readDigits (text : List Char) : Option (List Char × List Char) :=
  match text.span isDigit with
  | ([], _) => none
  | found => some found

/-- The digits before the point: a lone zero, or digits that do not begin with one. -/
def readWhole : List Char → Option (List Char × List Char)
  | '0' :: rest => if rest.head?.any isDigit then none else some (['0'], rest)
  | text => readDigits text

/-- A point with its digits, if there is one. -/
def readFraction : List Char → Option (List Char × List Char)
  | '.' :: rest => (readDigits rest).map fun (digits, rest) => ('.' :: digits, rest)
  | text => some ([], text)

/-- An exponent with its sign, if there is one. -/
def readExponent : List Char → Option (List Char × List Char)
  | e :: sign :: rest =>
    if e ≠ 'e' ∧ e ≠ 'E' then some ([], e :: sign :: rest)
    else if sign = '+' ∨ sign = '-' then
      (readDigits rest).map fun (digits, rest) => (e :: sign :: digits, rest)
    else (readDigits (sign :: rest)).map fun (digits, rest) => (e :: digits, rest)
  | [e] => if e = 'e' ∨ e = 'E' then none else some ([], [e])
  | [] => some ([], [])

/-- A number without its sign. -/
def readUnsigned (text : List Char) : Option (List Char × List Char) := do
  let (whole, text) ← readWhole text
  let (fraction, text) ← readFraction text
  let (exponent, text) ← readExponent text
  return (whole ++ fraction ++ exponent, text)

def readNumber : List Char → Option (List Char × List Char)
  | '-' :: rest => (readUnsigned rest).map fun (digits, rest) => ('-' :: digits, rest)
  | text => readUnsigned text

/-! ## Values

Every call consumes a character or passes on to one that does, so twice the length of the text
bounds the number of nested calls. -/

mutual

/-- A value and what follows it. -/
def readValue : Nat → List Char → Option (RawJson × List Char)
  | 0, _ => none
  | fuel + 1, text =>
    match skipBlanks text with
    | 'n' :: 'u' :: 'l' :: 'l' :: rest => some (.null, rest)
    | 't' :: 'r' :: 'u' :: 'e' :: rest => some (.bool true, rest)
    | 'f' :: 'a' :: 'l' :: 's' :: 'e' :: rest => some (.bool false, rest)
    | '"' :: rest => (readString [] rest).map fun (units, rest) => (.string units, rest)
    | '[' :: rest =>
      match skipBlanks rest with
      | ']' :: rest => some (.array [], rest)
      | text => readItems fuel [] text
    | '\x7b' :: rest =>
      match skipBlanks rest with
      | '\x7d' :: rest => some (.object [], rest)
      | text => readMembers fuel [] text
    | text => (readNumber text).map fun (digits, rest) => (.number digits, rest)

/-- The items of an array from one of them on, behind those read so far in reverse. -/
def readItems : Nat → List RawJson → List Char → Option (RawJson × List Char)
  | 0, _, _ => none
  | fuel + 1, items, text =>
    match readValue fuel text with
    | none => none
    | some (item, text) =>
      match skipBlanks text with
      | ',' :: rest => readItems fuel (item :: items) rest
      | ']' :: rest => some (.array (item :: items).reverse, rest)
      | _ => none

/-- The members of an object from one of them on, behind those read so far in reverse. -/
def readMembers : Nat → List (List StringUnit × RawJson) → List Char → Option (RawJson × List Char)
  | 0, _, _ => none
  | fuel + 1, members, text =>
    match skipBlanks text with
    | '"' :: rest =>
      match readString [] rest with
      | none => none
      | some (name, text) =>
        match skipBlanks text with
        | ':' :: rest =>
          match readValue fuel rest with
          | none => none
          | some (value, text) =>
            match skipBlanks text with
            | ',' :: rest => readMembers fuel ((name, value) :: members) rest
            | '\x7d' :: rest => some (.object ((name, value) :: members).reverse, rest)
            | _ => none
        | _ => none
    | _ => none

end

/-- A whole document: one value with nothing but blanks around it. -/
def ofText? (text : String) : Option RawJson :=
  match readValue (2 * text.length + 2) text.toList with
  | some (value, rest) => if (skipBlanks rest).isEmpty then some value else none
  | none => none

end RawJson
end VariantGraph
