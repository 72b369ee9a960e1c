/-
The command `prove` at work: this module gathers what surrounds a run, runs
the command and writes what it says.  Settings files are read as `Document`
says.
-/
import NaturalDeduction.CommandLine.Program
import NaturalDeduction.Document.Basic

open NaturalDeduction

/-- The values of the variables that are set. -/
def gatherVariables : List String → IO (List (String × String))
  | [] => return []
  | name :: rest => do
    let others ← gatherVariables rest
    match ← IO.getEnv name with
    | some value => return (name, value) :: others
    | none => return others

/-- What stands at a path, if it can be read. -/
def readEntry (path : String) : IO (Option Path.Entry) := do
  try
    return some (.file (← IO.FS.readFile path))
  catch error =>
    match error with
    | .inappropriateType .. => return some .directory
    | _ => return none

/-- Runs the command on its arguments. -/
def main (arguments : List String) : IO UInt32 := do
  let environ ← gatherVariables CommandLine.environmentNames
  let path? := CommandLine.settingsPath? arguments environ
  let file ← match path? with
    | some path => readEntry path
    | none => pure none
  let input ← if CommandLine.readsInput arguments then (← IO.getStdin).getLine else pure ""
  let readFile (path : String) : Option Path.Entry :=
    if some path = path? then file else none
  match CommandLine.run arguments ⟨environ, readFile, Document.read?, input⟩ with
  | .usage error =>
    IO.eprintln error.line
    return 2
  | .noPath =>
    IO.eprintln CommandLine.noPathMessage
    return 1
  | .directory path =>
    IO.eprintln (SettingsError.isDirectory path).message
    return 1
  | .response r =>
    IO.eprint r.errors
    IO.print r.output
    return r.code.toUInt32
