/-
Results of searches.

A run ends with a proof, or halts, or breaks off at lines that cannot be
worked on.  In each case it leaves what it counted and its trace.
-/
import NaturalDeduction.Line.Sequence
import NaturalDeduction.Search.Event

namespace NaturalDeduction

/-- How a run ended. -/
inductive Ending where
  /-- With lines that state the goal. -/
  | proved (lines : List Line)
  | halted (why : Halt)
  /-- In the middle of its work. -/
  | broken (fault : Fault)
deriving DecidableEq, Repr

/-- The result of a run. -/
structure Run where
  ending : Ending
  stats : Stats
  trace : Array Event
deriving Repr

namespace Run

/-- How far a run came.  One that broke off never left the search. -/
def status (r : Run) : Status :=
  match r.ending with
  | .proved _ => .finished
  | .halted why => .halted why
  | .broken _ => .searching

/-- The answer to the request that a run served, unless it broke off. -/
def answer (nested : Bool) (goal : Formula) (r : Run) : Option Event :=
  match r.ending with
  | .proved lines =>
    some (.proved nested goal lines.length r.stats.iterations r.stats.subSearches)
  | .halted why => some (.notProved nested goal why r.stats.iterations)
  | .broken _ => none

/-- The trace of a run with the answer to its request at the end. -/
def fullTrace (nested : Bool) (goal : Formula) (r : Run) : Array Event :=
  match r.answer nested goal with
  | some event => r.trace.push event
  | none => r.trace

end Run

end NaturalDeduction
