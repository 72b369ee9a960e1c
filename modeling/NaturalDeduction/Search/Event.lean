/-
The log of a search.

Every search leaves a trace of what it did.  A nested search leaves its
events before those of the search that ran it.  An event has a level of
detail, the name of the part that reports it, and a wording.
-/
import NaturalDeduction.Formula.Printer
import NaturalDeduction.Search.Stats

namespace NaturalDeduction

/-- How much detail an event adds. -/
inductive Detail where
  | debug
  | info
deriving DecidableEq, Repr

/-- The name of a level of detail. -/
def Detail.label : Detail → String
  | debug => "DEBUG"
  | info => "INFO"

/-- Something that happened in a search. -/
inductive Event where
  /-- Candidates were found for a node. -/
  | generated (candidates lines subSearches : Nat)
  /-- A nested search for a goal under a hypothesis failed. -/
  | branchFailed (goal hypothesis : Formula) (why : Halt)
  /-- A search reached its goal. -/
  | finished (iterations lines : Nat)
  /-- A search halted. -/
  | stopped (why : Halt) (iterations : Nat)
  /-- A request was answered with a proof. -/
  | proved (nested : Bool) (goal : Formula) (lines iterations subSearches : Nat)
  /-- A request was answered without a proof. -/
  | notProved (nested : Bool) (goal : Formula) (why : Halt) (iterations : Nat)
deriving DecidableEq, Repr

namespace Event

/-- The level of detail: only the answer to an outermost request is
news. -/
def detail : Event → Detail
  | proved false .. | notProved false .. => .info
  | _ => .debug

/-- The part that reports an event. -/
def source : Event → String
  | generated .. | branchFailed .. => "derivation.possible"
  | finished .. | stopped .. => "derivation.search"
  | proved .. | notProved .. => "derivation.proof"

/-- The wording of an event. -/
def message : Event → String
  | generated candidates lines subSearches =>
    "Generated " ++ toString candidates ++ " candidates for a " ++ toString lines
      ++ "-line node (" ++ toString subSearches ++ " sub-searches)"
  | branchFailed goal hypothesis why =>
    "Sub-search for " ++ goal.render ++ " assuming " ++ hypothesis.render
      ++ " failed: " ++ why.label
  | finished iterations lines =>
    "Search finished after " ++ toString iterations ++ " iterations with "
      ++ toString lines ++ " lines"
  | stopped why iterations =>
    "Search stopped: " ++ why.label ++ " after " ++ toString iterations ++ " iterations"
  | proved _ goal lines iterations subSearches =>
    "Proved " ++ goal.render ++ " in " ++ toString lines ++ " lines (iterations="
      ++ toString iterations ++ ", sub_searches=" ++ toString subSearches ++ ")"
  | notProved _ goal why iterations =>
    "No proof of " ++ goal.render ++ ": " ++ why.label ++ " (iterations="
      ++ toString iterations ++ ")"

end Event

end NaturalDeduction
