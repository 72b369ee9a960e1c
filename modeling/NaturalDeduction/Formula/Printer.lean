/-
The printed form of formulas.

Every binary connective is printed inside brackets with a blank on each side
of it, and a negation sign stands directly before its operand, so the printed
form never depends on precedence.
-/
import NaturalDeduction.Formula.Basic

namespace NaturalDeduction

namespace Formula

/-- The printed form of a formula. -/
def render : Formula → String
  | var name => name
  | neg a => "~" ++ a.render
  | conj a b => "(" ++ a.render ++ " & " ++ b.render ++ ")"
  | disj a b => "(" ++ a.render ++ " v " ++ b.render ++ ")"
  | imp a b => "(" ++ a.render ++ " -> " ++ b.render ++ ")"

/-- The printed forms of several formulas, with a comma and a blank between
neighbours. -/
def renderAll (fs : List Formula) : String :=
  ", ".intercalate (fs.map render)

end Formula

end NaturalDeduction
