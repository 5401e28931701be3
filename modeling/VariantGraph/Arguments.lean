/-!
# Command-line arguments

`[--format text|json] [--verbose] COMMAND`, where the command is `resolve RECORDS`, `check RECORDS`,
`types` or `info`. Options may stand anywhere and be written `--name value` or `--name=value`.

`readAll` reads what `Cli` and `Commands` declare (crates/cli/src/main.rs:16-64).
-/
namespace VariantGraph

/-- What was asked for, with the paths of the files that it needs. -/
structure Arguments where
  json : Bool
  words : List String
  config : Option String
  workers : Option Nat

namespace Arguments

def empty : Arguments := ⟨false, [], none, none⟩

/-- The value of an option, if a word holds it after an equals sign. -/
def inlineValue? (option word : String) : Option String :=
  if word.startsWith (option ++ "=") then some (word.drop (option.length + 1)).toString else none

/-- Sets the output format. -/
def setFormat (arguments : Arguments) (word : String) : Except String Arguments :=
  match word with
  | "json" => .ok { arguments with json := true }
  | "text" => .ok { arguments with json := false }
  | _ => .error ("invalid value '" ++ word ++ "' for '--format'")

/-- Sets the number of workers. -/
def setWorkers (arguments : Arguments) (word : String) : Except String Arguments :=
  match word.toNat? with
  | some workers => .ok { arguments with workers := some workers }
  | none => .error ("invalid value '" ++ word ++ "' for '--parallelism'")

/-- Sets an option that has a value. -/
def setOption? (arguments : Arguments) (option value : String) : Option (Except String Arguments) :=
  match option with
  | "--format" => some (setFormat arguments value)
  | "--config" | "-c" => some (.ok { arguments with config := some value })
  | "--parallelism" | "-j" => some (setWorkers arguments value)
  | _ => none

/-- Whether a word is an option that is followed by its value. -/
def takesValue (word : String) : Bool :=
  word ∈ ["--format", "--config", "-c", "--parallelism", "-j"]

/-- Reads the words that are left. -/
def readAll (arguments : Arguments) : List String → Except String Arguments
  | [] => .ok arguments
  | word :: rest =>
    if word = "--verbose" || word = "-v" then readAll arguments rest
    else if takesValue word then
      match rest with
      | [] => .error ("a value is required for '" ++ word ++ "'")
      | value :: rest =>
        match setOption? arguments word value with
        | some (.ok arguments) => readAll arguments rest
        | some (.error error) => .error error
        | none => .error ("unexpected argument '" ++ word ++ "'")
    else
      match ["--format", "--config", "--parallelism"].findSome? fun option =>
        (inlineValue? option word).bind (setOption? arguments option) with
      | some (.ok arguments) => readAll arguments rest
      | some (.error error) => .error error
      | none =>
        if word.startsWith "-" then .error ("unexpected argument '" ++ word ++ "'")
        else readAll { arguments with words := arguments.words ++ [word] } rest

end Arguments
end VariantGraph
