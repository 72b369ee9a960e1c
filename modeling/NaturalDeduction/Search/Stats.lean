/-
How searches end and what they count.

A search that finds no proof halts for one of three reasons: nothing is left
to try, everything left is too long, or the budget of expansions is spent.
-/

namespace NaturalDeduction

/-- Why a search halted without a proof. -/
inductive Halt where
  | deadEnd
  | maximumLines
  | maximumIteration
deriving DecidableEq, Repr

/-- How far a search has come. -/
inductive Status where
  | searching
  | finished
  | halted (why : Halt)
deriving DecidableEq, Repr

/-- What a reader is told about why a search halted. -/
def Halt.label : Halt → String
  | deadEnd => "Dead end"
  | maximumLines => "Maximum lines"
  | maximumIteration => "Maximum iteration"

namespace Status

/-- Every status. -/
def all : List Status :=
  [searching, finished, halted .deadEnd, halted .maximumLines,
   halted .maximumIteration]

/-- The name of a status in records. -/
def name : Status → String
  | searching => "searching"
  | finished => "finished_proof"
  | halted .deadEnd => "dead_end"
  | halted .maximumLines => "maximum_lines"
  | halted .maximumIteration => "maximum_iteration"

/-- The status with a name. -/
def ofName? (text : String) : Option Status :=
  all.find? fun s => s.name = text

/-- What a reader is told about a status. -/
def label : Status → String
  | searching => "Searching"
  | finished => "Finished proof"
  | halted why => why.label

/-- The wording of the error that a search in this status is reported
with. -/
def message (s : Status) : String :=
  "Search error: " ++ s.label

/-- Whether the search has found a proof. -/
def proved (s : Status) : Bool :=
  s = finished

@[simp] theorem ofName?_name (s : Status) : ofName? s.name = some s := by
  rcases s with _ | _ | why
  · decide
  · decide
  · cases why <;> decide

end Status

/-- What one search has counted, the searches nested in it apart. -/
structure Stats where
  /-- Nodes taken up for expansion. -/
  iterations : Nat := 0
  /-- Children put into the queue. -/
  enqueued : Nat := 0
  /-- Nodes discarded because they have too many lines. -/
  overLength : Nat := 0
  /-- Expanded nodes without a candidate. -/
  deadEnds : Nat := 0
  /-- Candidates found for the expanded nodes. -/
  candidates : Nat := 0
  /-- Nested searches that were run for the expanded nodes. -/
  subSearches : Nat := 0
  /-- Children not queued because their formulas were queued before. -/
  duplicates : Nat := 0
deriving DecidableEq, Repr, Inhabited

end NaturalDeduction
