/-
Layers of settings.

Settings are built up in layers.  A layer gives values to some fields and
leaves the others as they are: first the data of a settings file, then the
environment, then whatever the caller adds.  Each layer is checked when it is
laid on, so a bad value is an error even if a later layer would replace it.

A settings file has two sections, `search` and `sub_search`.  A section that
is missing or counts as false is empty.  Budgets in it are integers or null.
The flag is read from text by its word, and from any other value by its truth.
How the text of a file is read as data is not settled here: a reader of
documents is given, which may refuse a text.

In the environment an empty variable counts as missing.  A file is taken from
the given path, which then has to exist, or else from the path that the
environment names, or from the usual place, if there is one.
-/
import NaturalDeduction.Settings.Basic
import NaturalDeduction.Settings.Path
import NaturalDeduction.Text.Integer

namespace NaturalDeduction

namespace Settings

/-! ### Data of a file -/

/-- Whether a word turns a flag on. -/
def isOn (word : String) : Bool :=
  ["1", "true", "yes", "on"].contains (Text.strip word).toLower

/-- The section of a settings file with a name. -/
def section? (data : List (Value × Value)) (name : String) : Option (List (Value × Value)) :=
  match Value.find? data name with
  | none => some []
  | some (.mapping entries) => some entries
  | some value => if value.truthy then none else some []

/-- The integer in an entry of a section, or null. -/
def integerEntry (entries : List (Value × Value)) (name : String) :
    Except SettingsError Value :=
  match (Value.find? entries name).getD .null with
  | .null => .ok .null
  | .int n => .ok (.int n)
  | value => .error (.notInteger value)

/-- The flag in an entry of a section, or null. -/
def flagEntry (entries : List (Value × Value)) (name : String) : Value :=
  match (Value.find? entries name).getD .null with
  | .null => .null
  | .text word => .bool (isOn word)
  | value => .bool value.truthy

/-- The changes that the data of a settings file asks for. -/
def mappingChanges (data : List (Value × Value)) : Except SettingsError Fields := do
  match section? data "search", section? data "sub_search" with
  | some search, some sub =>
    let maxLines ← integerEntry search "max_line_length"
    let iterations ← integerEntry search "iterations"
    let dedupe := flagEntry search "deduplicate_states"
    let subMaxLines ← integerEntry sub "max_line_length"
    let subIterations ← integerEntry sub "iterations"
    return { maxLines, iterations, subMaxLines, subIterations, dedupe }
  | _, _ => throw .sectionNotMapping

/-- The settings with the data of a settings file laid over them. -/
def withMapping (base : Settings) (data : List (Value × Value)) :
    Except SettingsError Settings := do
  base.replace (← mappingChanges data)

/-! ### The environment -/

/-- The variable of an environment with a name, if it is not empty. -/
def setting? (environ : List (String × String)) (name : String) : Option String :=
  (environ.lookup name).filter (· ≠ "")

/-- The integer in a variable, or null. -/
def integerVariable (environ : List (String × String)) (name : String) :
    Except SettingsError Value :=
  match setting? environ name with
  | none => .ok .null
  | some raw =>
    match Text.readInt? raw with
    | some n => .ok (.int n)
    | none => .error (.variableNotInteger name raw)

/-- The flag in a variable, or null. -/
def flagVariable (environ : List (String × String)) (name : String) : Value :=
  match setting? environ name with
  | none => .null
  | some raw => .bool (isOn raw)

/-- The changes that the environment asks for. -/
def environmentChanges (environ : List (String × String)) : Except SettingsError Fields := do
  let maxLines ← integerVariable environ "PROVER_MAX_LINE_LENGTH"
  let iterations ← integerVariable environ "PROVER_ITERATIONS"
  let subMaxLines ← integerVariable environ "PROVER_SUB_MAX_LINE_LENGTH"
  let subIterations ← integerVariable environ "PROVER_SUB_ITERATIONS"
  let dedupe := flagVariable environ "PROVER_DEDUPE_STATES"
  return { maxLines, iterations, subMaxLines, subIterations, dedupe }

/-- The settings with the environment laid over them. -/
def withEnvironment (base : Settings) (environ : List (String × String)) :
    Except SettingsError Settings := do
  base.replace (← environmentChanges environ)

/-! ### Files -/

/-- The settings with a file laid over them; `read` gives what stands at a
path, if there is anything, and `document` the value that a text stands for, if
it is a document. -/
def withFile (base : Settings) (read : String → Option Path.Entry)
    (document : String → Option Value) (path : String) : Except SettingsError Settings :=
  match read path with
  | none => .error (.fileMissing (Path.normal path))
  | some .directory => .error (.isDirectory (Path.normal path))
  | some (.file text) =>
    match document text with
    | none => .error (.fileUnreadable (Path.normal path))
    | some (.mapping data) => base.withMapping data
    | some value =>
      if value.truthy then .error (.fileNotMapping (Path.normal path)) else base.withMapping []

/-- The usual place of the settings file. -/
def usualPath : String := "config/prover.yaml"

/-- The place of the settings file when none is given. -/
def defaultPath (environ : List (String × String)) : String :=
  (setting? environ "PROVER_SETTINGS").getD usualPath

/-- The settings with the settings file and then the environment laid over
them. -/
def load (base : Settings) (read : String → Option Path.Entry)
    (document : String → Option Value) (path : Option String)
    (environ : List (String × String)) : Except SettingsError Settings := do
  let settings ← match path with
    | some path => base.withFile read document path
    | none =>
      if (read (defaultPath environ)).isSome then
        base.withFile read document (defaultPath environ)
      else pure base
  settings.withEnvironment environ

end Settings

end NaturalDeduction
