/-
The command `prove`.

The command reads a request, from its arguments or from the first line of its
input, searches for a proof and prints a report.  It says by its exit code
whether a proof was found (0), no proof was found (1), or something was wrong
with the request or the settings (2).

Settings are worked out before the request is read, so a fault in them is
reported first.  They start from bounds that are roomier than usual; a
settings file, the environment and the options are laid over them in this
order.

The log goes to the error output: the news with one `-v`, everything with two.
-/
import NaturalDeduction.Attempt.Report
import NaturalDeduction.Attempt.Request
import NaturalDeduction.CommandLine.Options
import NaturalDeduction.Settings.Layers
import NaturalDeduction.Value.Json

namespace NaturalDeduction

namespace CommandLine

/-- What surrounds a run of the command. -/
structure Surroundings where
  /-- The variables of the environment. -/
  environ : List (String × String)
  /-- What stands at a path, if there is anything. -/
  readFile : String → Option Path.Entry
  /-- The value that a text stands for, if it is a document. -/
  readDocument : String → Option Value
  /-- The text of the input. -/
  input : String

/-- What a run of the command writes, and its exit code. -/
structure Response where
  code : Nat
  output : String
  errors : String
deriving DecidableEq, Repr

/-- The end of a run: a fault in the arguments, no path for the settings file
after its option, a directory in its place, or a response. -/
inductive Result where
  | usage (error : UsageError)
  | noPath
  | directory (path : String)
  | response (r : Response)
deriving DecidableEq, Repr

/-- The line that reports a fault in the arguments. -/
def UsageError.line (e : UsageError) : String :=
  "prove: error: " ++ e.message

/-! ### Settings -/

/-- The changes that the options ask for. -/
def Options.changes (o : Options) : Settings.Fields :=
  let integer : Given Int → Value
    | .absent => .null
    | .empty => .list []
    | .value n => .int n
  { maxLines := integer o.maxLines
    iterations := integer o.iterations
    subMaxLines := integer o.subMaxLines
    subIterations := integer o.subIterations
    dedupe := if o.dedupe then .bool true else .null }

/-- The settings of a run, with a settings file at the given path. -/
def Options.settings (o : Options) (path : Option String) (s : Surroundings) :
    Except SettingsError Settings := do
  let base ← Settings.roomy.load s.readFile s.readDocument path s.environ
  base.replace o.changes

/-! ### The log -/

/-- A line of the log. -/
def logLine (detail : Detail) (source message : String) : String :=
  "[" ++ detail.label ++ "] " ++ source ++ ": " ++ message ++ "\n"

/-- Whether an event of a level is logged. -/
def logs (verbosity : Nat) : Detail → Bool
  | .info => 1 ≤ verbosity
  | .debug => 2 ≤ verbosity

/-- The log of a run with the given settings. -/
def logText (verbosity : Nat) (settings : Settings) (events : Array Event) : String :=
  let opening :=
    if logs verbosity .info then
      logLine .info "prove" ("Searching with " ++ settings.toValue.render)
    else ""
  let shown := events.toList.filter fun e => logs verbosity e.detail
  opening ++ String.join (shown.map fun e => logLine e.detail e.source e.message)

/-! ### Running -/

/-- The request, and what is written while it is read. -/
def request (o : Options) (s : Surroundings) : String × String :=
  match o.statement with
  | some text => (text, "")
  | none =>
    let line := s.input.toList.takeWhile (· ≠ '\n')
    (Text.strip (String.ofList line), "Enter the propositional logic statement: \n")

/-- Searches and reports. -/
def answer (o : Options) (prompt : String) (a : Attempt) : Response :=
  let (run, after) := a.search
  let log := prompt ++ logText o.verbosity a.settings (a.log run)
  let json := after.toRecord.toJson ++ "\n"
  match run.ending with
  | .proved _ => ⟨0, if o.json then json else after.report ++ "\n", log⟩
  | .halted why =>
    ⟨1, if o.json then json else "", log ++ "Did not find proof: " ++ why.label ++ "\n"⟩
  | .broken fault => ⟨1, "", log ++ fault.message ++ "\n"⟩

/-- The response to a request with settings. -/
def respond (o : Options) (s : Surroundings) (settings : Settings) : Response :=
  let (text, prompt) := request o s
  match Attempt.ofRequest text settings with
  | .error e => ⟨2, "", prompt ++ "Error: " ++ e.message ++ "\n"⟩
  | .ok a => answer o prompt a

/-- What the command says about itself. -/
def helpText : String :=
  "usage: prove [options] [statement]\n\n"
    ++ "Search for a natural-deduction proof of a propositional argument.\n"
    ++ "A statement is 'assumption,assumption,.../conclusion'; without one it is\n"
    ++ "read from standard input.\n\noptions:\n"
    ++ String.join (Flag.spellings.map fun s => "  " ++ s.1 ++ "\n")

/-- The end of a run with a settings file at the given path. -/
def Options.runWith (o : Options) (path : Option String) (s : Surroundings) : Result :=
  match o.settings path s with
  | .error (.isDirectory path) => .directory path
  | .error e => .response ⟨2, "", "Error: " ++ e.message ++ "\n"⟩
  | .ok settings => .response (respond o s settings)

/-- The end of a run on arguments without a fault. -/
def Options.run (o : Options) (s : Surroundings) : Result :=
  if o.help then .response ⟨0, helpText, ""⟩
  else match o.config with
    | .absent => o.runWith none s
    | .empty => .noPath
    | .value path => o.runWith (some path) s

/-- What is said when the option for the settings file has no path. -/
def noPathMessage : String :=
  "expected str, bytes or os.PathLike object, not list"

/-- Runs the command. -/
def run (arguments : List String) (s : Surroundings) : Result :=
  match parse arguments with
  | .error e => .usage e
  | .ok o => o.run s

/-- The path of the settings file that a run with these arguments looks
for. -/
def settingsPath? (arguments : List String) (environ : List (String × String)) :
    Option String :=
  match parse arguments with
  | .error _ => none
  | .ok o =>
    match o.config with
    | .absent => some (Settings.defaultPath environ)
    | .empty => none
    | .value path => some path

/-- Whether a run with these arguments reads its input. -/
def readsInput (arguments : List String) : Bool :=
  match parse arguments with
  | .error _ => false
  | .ok o => !o.help && o.statement.isNone

/-- The variables of the environment that matter. -/
def environmentNames : List String :=
  ["PROVER_SETTINGS", "PROVER_MAX_LINE_LENGTH", "PROVER_ITERATIONS",
   "PROVER_SUB_MAX_LINE_LENGTH", "PROVER_SUB_ITERATIONS", "PROVER_DEDUPE_STATES"]

end CommandLine

end NaturalDeduction
