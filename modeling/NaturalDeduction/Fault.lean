/-
Internal faults.

A search or a check works on sequences of lines that may come from outside,
with any numbers and any citations.  When such a number leads nowhere the
work stops with a fault.  A fault is not an answer about the proof: it says
that the lines could not be worked on.
-/
import NaturalDeduction.Formula.Semantics

namespace NaturalDeduction

/-- Why lines could not be worked on. -/
inductive Fault where
  /-- An index that no line of the sequence has. -/
  | indexOutOfRange
  /-- An index that no line of any sequence has: it takes more than 64 bits. -/
  | indexTooWide
  /-- A conditional proof whose consequent stands on no line. -/
  | consequentMissing
  /-- A truth table that lacks one of the names. -/
  | unknownAtom (atom : UnknownAtom)
deriving DecidableEq, Repr

/-- The wording of a fault. -/
def Fault.message : Fault → String
  | .indexOutOfRange => "tuple index out of range"
  | .indexTooWide => "cannot fit 'int' into an index-sized integer"
  | .consequentMissing => "generator raised StopIteration"
  | .unknownAtom atom => atom.message

end NaturalDeduction
