import VariantGraph.Json.Basic
import VariantGraph.Json.Raw
/-!
# What a written document stands for

Strings have to be whole (an escape for the first half of a character is followed by one for the
second half), numbers have to fit a 64-bit float, and arrays and objects nest at most 127 deep.
-/
namespace VariantGraph.RawJson

/-! ## Strings -/

/-- Whether a code is the first half of a character outside the basic plane. -/
def isHighHalf (code : Nat) : Bool := 0xD800 ≤ code && code < 0xDC00

/-- Whether a code is the second half of such a character. -/
def isLowHalf (code : Nat) : Bool := 0xDC00 ≤ code && code < 0xE000

/-- The characters of a written string, behind those read so far in reverse; halves of characters
have to come in pairs. -/
def decodeUnits : List Char → List StringUnit → Option (List Char)
  | read, [] => some read.reverse
  | read, .char c :: rest => decodeUnits (c :: read) rest
  | read, .escape high :: .escape low :: rest =>
    if isHighHalf high then
      if isLowHalf low then
        decodeUnits (Char.ofNat (0x10000 + (high - 0xD800) * 0x400 + (low - 0xDC00)) :: read) rest
      else none
    else if isLowHalf high then none
    else decodeUnits (Char.ofNat high :: read) (.escape low :: rest)
  | read, .escape code :: rest =>
    if isHighHalf code || isLowHalf code then none else decodeUnits (Char.ofNat code :: read) rest

def decodeString (units : List StringUnit) : Option String :=
  (decodeUnits [] units).map String.ofList

/-! ## Numbers -/

def digitValue (c : Char) : Nat := c.toNat - '0'.toNat

/-- The value of a run of digits. -/
def digitsValue (digits : List Char) : Nat := digits.foldl (fun n c => 10 * n + digitValue c) 0

/-- Takes digits into a significand as long as it stays within 64 bits; the rest is returned. -/
def absorb (significand : Nat) : List Char → Nat × List Char
  | [] => (significand, [])
  | c :: rest =>
    let next := 10 * significand + digitValue c
    if next < 0x10000000000000000 then absorb next rest else (significand, c :: rest)

/-- Whether an unsigned number with a fraction, an exponent or more than 64 bits is finite as a
64-bit float: its significand is cut to 64 bits and multiplied by a power of ten. -/
def isFinite (text : List Char) : Bool :=
  let (whole, text) := text.span isDigit
  let (significand, dropped) := absorb 0 whole
  let (fraction, text) := match text with
    | '.' :: rest => rest.span isDigit
    | _ => ([], text)
  let (significand, ignored) := absorb significand fraction
  let scale : Int := dropped.length - (fraction.length - ignored.length : Nat)
  let exponent : Int := match text with
    | _ :: '-' :: digits => -(digitsValue digits : Int)
    | _ :: '+' :: digits => digitsValue digits
    | _ :: digits => digitsValue digits
    | [] => 0
  let power := scale + exponent
  significand = 0 || power < 0 ||
    (power ≤ 308 && !(significand.toUInt64.toFloat * Float.ofScientific 1 false power.toNat).isInf)

/-- A number without sign. Digits alone are an integer if they fit 64 bits. -/
def decodeUnsigned (digits : List Char) : Option Json :=
  if digits.all isDigit ∧ digitsValue digits < 0x10000000000000000 then some (.int (digitsValue digits))
  else if isFinite digits then some (.decimal (String.ofList digits))
  else none

/-- A number after a minus sign. Digits alone are an integer if they fit a signed 64-bit word and
are not zero: minus zero is no integer. -/
def decodeNegative (digits : List Char) : Option Json :=
  let value := digitsValue digits
  if digits.all isDigit ∧ 0 < value ∧ value ≤ 0x8000000000000000 then some (.int (-(value : Int)))
  else if isFinite digits then some (.decimal (String.ofList ('-' :: digits)))
  else none

def decodeNumber : List Char → Option Json
  | '-' :: digits => decodeNegative digits
  | digits => decodeUnsigned digits

/-! ## Values -/

/-- How deep arrays and objects may nest. -/
def maxDepth : Nat := 127

mutual

/-- The value of a document whose arrays and objects may nest `room` deep. -/
def decode (room : Nat) : RawJson → Option Json
  | .null => some .null
  | .bool value => some (.bool value)
  | .number digits => decodeNumber digits
  | .string units => (decodeString units).map .string
  | .array items => if room = 0 then none else (decodeItems (room - 1) items).map .array
  | .object members =>
    if room = 0 then none else (decodeMembers (room - 1) [] members).map .object

def decodeItems (room : Nat) : List RawJson → Option (List Json)
  | [] => some []
  | item :: items =>
    match decode room item with
    | some item => (decodeItems room items).map (item :: ·)
    | none => none

/-- Members are put into the table read so far, so that a later one replaces an earlier one. -/
def decodeMembers (room : Nat) (table : Table Json) :
    List (List StringUnit × RawJson) → Option (Table Json)
  | [] => some table
  | (name, value) :: members =>
    match decodeString name, decode room value with
    | some name, some value => decodeMembers room (table.insert name value) members
    | _, _ => none

end

end RawJson

/-- Reads a JSON document. -/
def Json.ofText? (text : String) : Option Json :=
  (RawJson.ofText? text).bind (RawJson.decode RawJson.maxDepth)

end VariantGraph
