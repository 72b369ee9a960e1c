/-
Lines of a proof.

A line states a formula, names the rule that gives it, cites the lines it
was drawn from, and carries the set of assumptions it rests on.  Numbers,
citations and assumption indices count from zero inside the library and are
printed counting from one.
-/
import NaturalDeduction.Formula.Printer
import NaturalDeduction.Line.IndexSet
import NaturalDeduction.Rule

namespace NaturalDeduction

/-- A line of a proof. -/
structure Line where
  /-- The place the line claims in its sequence. -/
  number : Int
  formula : Formula
  rule : Rule
  /-- The assumptions and hypotheses that the line depends on. -/
  rests : IndexSet
  /-- The lines it was drawn from, in the order in which its rule takes
  them. -/
  cites : List Int
deriving DecidableEq, Repr

namespace Line

/-- The line as it stands after `offset` lines were put in front of line
`threshold`: its own number moves, and so does every index from `threshold`
on. -/
def renumber (offset threshold : Int) (l : Line) : Line :=
  let move (n : Int) := if threshold ≤ n then n + offset else n
  { l with
    number := l.number + offset
    rests := l.rests.image move
    cites := l.cites.map move }

/-- Indices as they are printed: in increasing order, each once, counted
from one. -/
def printedIndices (s : IndexSet) : String :=
  ", ".intercalate (s.toList.map fun n => toString (n + 1))

/-- The printed form of a line. -/
def render (l : Line) : String :=
  "Line " ++ toString (l.number + 1) ++ ": " ++ l.formula.render
    ++ " [" ++ printedIndices l.rests ++ "] using " ++ l.rule.abbreviation
    ++ if l.cites.isEmpty then ""
       else " from lines " ++ printedIndices (.ofList l.cites)

/-- The line that states the assumption at place `index`. -/
def ofAssumption (f : Formula) (index : Nat) : Line :=
  ⟨index, f, .assumption, .singleton index, []⟩

/-- The hypothesis of a block: a line that rests on itself. -/
def ofHypothesis (f : Formula) (rule : Rule) (index : Nat) (cites : List Int) : Line :=
  ⟨index, f, rule, .singleton index, cites⟩

/-- The lines that a proof from these assumptions starts with. -/
def ofAssumptions (fs : List Formula) : List Line :=
  fs.mapIdx fun i f => ofAssumption f i

end Line

end NaturalDeduction
