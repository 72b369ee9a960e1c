/-
Settings of a search.

A search is bounded by two budgets: a node with more than `maxLines` lines is
not expanded, and at most `iterations` nodes are.  The searches that are run
inside disjunction elimination and conditional proof have budgets of their
own.  Every budget is positive.

The flag `dedupe` makes a search skip a node when one with the same formulas
was queued before.  It is kept as it was written, and only its truth matters.

Settings are made from fields that may hold any value (`Settings.ofFields`):
the budgets are checked in their order, and the first that is not a positive
integer is reported.
-/
import NaturalDeduction.Value.Basic

namespace NaturalDeduction

/-- The settings of a search. -/
structure Settings where
  /-- The most lines a node may have to be expanded. -/
  maxLines : Nat := 15
  /-- The most nodes that are expanded. -/
  iterations : Nat := 50000
  /-- The bound on lines for nested searches. -/
  subMaxLines : Nat := 15
  /-- The bound on expansions for each nested search. -/
  subIterations : Nat := 500
  /-- Whether nodes with the same formulas are queued only once. -/
  dedupe : Value := .bool false
  maxLines_pos : 0 < maxLines := by decide
  iterations_pos : 0 < iterations := by decide
  subMaxLines_pos : 0 < subMaxLines := by decide
  subIterations_pos : 0 < subIterations := by decide
deriving Repr

instance : Inhabited Settings := ⟨{}⟩

/-- Settings with roomier bounds on the outermost search. -/
def Settings.roomy : Settings := { maxLines := 20, iterations := 100000 }

/-- The settings of the searches that a search with these settings runs.  What
they find becomes part of the outer proof, so their bound on lines is never
above the outer one. -/
def Settings.nested (s : Settings) : Settings where
  maxLines := min s.subMaxLines s.maxLines
  iterations := s.subIterations
  subMaxLines := min s.subMaxLines s.maxLines
  subIterations := s.subIterations
  dedupe := s.dedupe
  maxLines_pos := Nat.lt_min.mpr ⟨s.subMaxLines_pos, s.maxLines_pos⟩
  iterations_pos := s.subIterations_pos
  subMaxLines_pos := Nat.lt_min.mpr ⟨s.subMaxLines_pos, s.maxLines_pos⟩
  subIterations_pos := s.subIterations_pos

theorem Settings.nested_maxLines_le (s : Settings) :
    s.nested.maxLines ≤ s.maxLines :=
  Nat.min_le_right s.subMaxLines s.maxLines

/-! ### Settings from fields -/

/-- A budget of a search. -/
inductive Budget where
  | maxLines
  | iterations
  | subMaxLines
  | subIterations
deriving DecidableEq, Repr

/-- The name of a budget. -/
def Budget.name : Budget → String
  | maxLines => "max_line_length"
  | iterations => "iterations"
  | subMaxLines => "sub_max_line_length"
  | subIterations => "sub_iterations"

/-- Why settings cannot be made. -/
inductive SettingsError where
  | notPositive (budget : Budget) (value : Value)
  | sectionNotMapping
  | notInteger (value : Value)
  | variableNotInteger (name raw : String)
  | fileMissing (path : String)
  | isDirectory (path : String)
  | fileUnreadable (path : String)
  | fileNotMapping (path : String)
deriving Repr, BEq

/-- The wording of an error. -/
def SettingsError.message : SettingsError → String
  | notPositive budget value =>
    budget.name ++ " must be a positive integer, got " ++ value.render
  | sectionNotMapping => "'search' and 'sub_search' sections must be mappings"
  | notInteger value => "expected an integer, got " ++ value.render
  | variableNotInteger name raw => name ++ " must be an integer, got " ++ Text.quote raw
  | fileMissing path => "Settings file not found at: " ++ path
  | isDirectory path => "[Errno 21] Is a directory: " ++ Text.quote path
  | fileUnreadable path => "Error parsing YAML file: " ++ path
  | fileNotMapping path => "Malformed settings file: expected a mapping in " ++ path

/-- Values for the fields of settings, not checked yet. -/
structure Settings.Fields where
  maxLines : Value
  iterations : Value
  subMaxLines : Value
  subIterations : Value
  dedupe : Value
deriving Repr, Inhabited

namespace Settings

/-- A positive number, or the error that says the value is none. -/
def positive (budget : Budget) : Value → Except SettingsError { n : Nat // 0 < n }
  | .int (.ofNat n) =>
    if h : 0 < n then .ok ⟨n, h⟩ else .error (.notPositive budget (.int (.ofNat n)))
  | value => .error (.notPositive budget value)

/-- The settings with the given fields. -/
def ofFields (f : Fields) : Except SettingsError Settings := do
  let ⟨maxLines, maxLines_pos⟩ ← positive .maxLines f.maxLines
  let ⟨iterations, iterations_pos⟩ ← positive .iterations f.iterations
  let ⟨subMaxLines, subMaxLines_pos⟩ ← positive .subMaxLines f.subMaxLines
  let ⟨subIterations, subIterations_pos⟩ ← positive .subIterations f.subIterations
  return { maxLines, iterations, subMaxLines, subIterations, dedupe := f.dedupe,
           maxLines_pos, iterations_pos, subMaxLines_pos, subIterations_pos }

/-- The fields of settings. -/
def fields (s : Settings) : Fields where
  maxLines := .int s.maxLines
  iterations := .int s.iterations
  subMaxLines := .int s.subMaxLines
  subIterations := .int s.subIterations
  dedupe := s.dedupe

/-- No changes: a null field leaves a setting as it is. -/
def Fields.unchanged : Fields := ⟨.null, .null, .null, .null, .null⟩

/-- The first value, or the second where the first is null. -/
def orElse : Value → Value → Value
  | .null, old => old
  | new, _ => new

/-- The settings with those fields changed that are not null. -/
def replace (s : Settings) (changes : Fields) : Except SettingsError Settings :=
  ofFields
    { maxLines := orElse changes.maxLines s.fields.maxLines
      iterations := orElse changes.iterations s.fields.iterations
      subMaxLines := orElse changes.subMaxLines s.fields.subMaxLines
      subIterations := orElse changes.subIterations s.fields.subIterations
      dedupe := orElse changes.dedupe s.fields.dedupe }

/-- The fields by name, as a mapping. -/
def toValue (s : Settings) : Value :=
  .mapping
    [(.text "max_line_length", s.fields.maxLines),
     (.text "iterations", s.fields.iterations),
     (.text "sub_max_line_length", s.fields.subMaxLines),
     (.text "sub_iterations", s.fields.subIterations),
     (.text "deduplicate_states", s.fields.dedupe)]

end Settings

end NaturalDeduction
