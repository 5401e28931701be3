import VariantGraph.Arguments
import VariantGraph.Command
import VariantGraph.Json.Pretty
/-!
# The command line

Reads the arguments and the files they name, carries out the command and prints its report. The
configuration file is a JSON document.

`runCommand` is `main` behind the reading of arguments (crates/cli/src/main.rs:66-80).
-/
namespace VariantGraph

/-- Reads a file that may not be there. -/
def readFile (path : String) : IO File := do
  try
    return ⟨path, some (← IO.FS.readFile path)⟩
  catch _ =>
    return ⟨path, none⟩

def readFile? (path : Option String) : IO (Option File) :=
  match path with
  | some path => return some (← readFile path)
  | none => return none

/-- The command that some arguments ask for. -/
def readCommand (arguments : Arguments) : IO (Option Command) := do
  match arguments.words with
  | ["resolve", records] =>
    return some (.resolve (← readFile records) (← readFile? arguments.config) arguments.workers)
  | ["check", records] => return some (.check (← readFile records) (← readFile? arguments.config))
  | ["types"] => return some .types
  | ["info"] => return some (.info (← readFile? arguments.config))
  | _ => return none

/-- A machine of which nothing is known. -/
def plainMachine : Machine :=
  ⟨some (Target.triple ⟨.linux, .x86_64⟩), Config.defaultOn ⟨.linux, .x86_64⟩ 1⟩

def print (output : Output) : IO UInt32 := do
  match output.printed with
  | .lines lines => lines.forM fun line => IO.println line
  | .document json => IO.println json.pretty
  output.errors.forM fun line => IO.eprintln line
  return UInt32.ofNat output.code

/-- Prints what is wrong with the arguments. -/
def refuse (reason : String) : IO UInt32 := do
  IO.eprintln ("error: " ++ reason)
  return 2

def runCommand (words : List String) : IO UInt32 := do
  match Arguments.empty.readAll words with
  | .error reason => refuse reason
  | .ok arguments =>
    match ← readCommand arguments with
    | none => refuse "a command is required: resolve RECORDS, check RECORDS, types or info"
    | some command =>
      let start ← IO.monoMsNow
      let report ← IO.lazyPure fun _ => command.execute plainMachine
      let done ← IO.monoMsNow
      print (report.write (if arguments.json then .json else .text) (Report.renderElapsed (done - start)))

end VariantGraph

def main (words : List String) : IO UInt32 := VariantGraph.runCommand words
