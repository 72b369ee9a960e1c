/-
Sequences of lines.

Lines are looked up by index.  An index below zero counts from the end, so a
sequence of `n` lines answers the indices from `-n` to `n - 1` (`at?`).  Of the
other indices those that take more than 64 bits are a fault of their own.

The vocabulary of a sequence and a goal is the list of the names in them,
the lines first, each name at the place of its first occurrence.
-/
import NaturalDeduction.Fault
import NaturalDeduction.Line.Basic

namespace NaturalDeduction

namespace Line

/-- The line at an index, counted from the end if it is below zero. -/
def at? (lines : List Line) (n : Int) : Option Line :=
  if 0 ≤ n then lines[n.toNat]?
  else if -n ≤ lines.length then lines[(lines.length + n).toNat]?
  else none

/-- Whether an index fits into 64 bits. -/
def isIndex (n : Int) : Bool :=
  -9223372036854775808 ≤ n && n < 9223372036854775808

/-- The line at an index that has to exist. -/
def get (lines : List Line) (n : Int) : Except Fault Line :=
  match at? lines n with
  | some l => .ok l
  | none => .error (if isIndex n then .indexOutOfRange else .indexTooWide)

/-- The assumptions that some of the lines rest on. -/
def restsOf (lines : List Line) : IndexSet :=
  .unions (lines.map rests)

/-- The assumptions that the lines at the given indices rest on. -/
def restsAt (lines : List Line) (indices : List Int) : Except Fault IndexSet := do
  return restsOf (← indices.mapM (get lines))

/-- Whether some line states a formula. -/
def states (lines : List Line) (f : Formula) : Bool :=
  lines.any fun l => l.formula = f

/-- The names in the lines and then in the goal. -/
def vocabulary (lines : List Line) (goal : Formula) : List String :=
  (lines.flatMap (·.formula.names) ++ goal.names).eraseDups

/-- The lines are numbered by their places. -/
def WellNumbered (lines : List Line) : Prop :=
  ∀ (i : Nat) (l : Line), lines[i]? = some l → l.number = i

end Line

end NaturalDeduction
