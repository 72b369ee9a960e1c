/-
Nodes of the search and their extensions.

A node is an unfinished proof: its lines so far, the goal, and the settings of
the search.  An extension is what one step adds to it: a last line that
states the result, and before it the lines of the block that the step closes,
if it closes one.
-/
import NaturalDeduction.Line.Sequence
import NaturalDeduction.Settings.Basic

namespace NaturalDeduction

/-- Lines that are added to a node together; the last one states the
result. -/
structure Extension where
  lead : List Line
  last : Line
deriving DecidableEq, Repr

namespace Extension

/-- An extension by one line. -/
def single (l : Line) : Extension := ⟨[], l⟩

/-- All lines of an extension. -/
def lines (e : Extension) : List Line := e.lead ++ [e.last]

/-- The extension by some lines, of which there has to be at least one. -/
def ofLines? (lines : List Line) : Option Extension :=
  lines.getLast?.map fun last => ⟨lines.dropLast, last⟩

/-- The wording of the error that no lines are given. -/
def emptyMessage : String := "A possible must contain at least one line"

end Extension

/-- An unfinished proof of a goal. -/
structure Node where
  lines : List Line
  goal : Formula
  settings : Settings
deriving Repr

namespace Node

/-- Whether some line states the goal. -/
def isComplete (n : Node) : Bool :=
  Line.states n.lines n.goal

/-- The formulas of the lines that are assumptions. -/
def assumptions (n : Node) : List Formula :=
  (n.lines.filter (·.rule = .assumption)).map (·.formula)

/-- The node with the lines of an extension added. -/
def extend (n : Node) (e : Extension) : Node :=
  { n with lines := n.lines ++ e.lines }

/-- The formulas of a sequence of lines.  Two nodes count as the same state
when these are the same up to order. -/
def formulas (lines : List Line) : List Formula :=
  lines.map (·.formula)

/-- Whether two nodes have the same formulas, each the same number of
times. -/
def sameState (m n : Node) : Bool :=
  (formulas m.lines).isPerm (formulas n.lines)

/-- The distinct formulas of a node, each with the number of its lines. -/
def formulaCounts (n : Node) : List (Formula × Nat) :=
  (formulas n.lines).eraseDups.map fun f => (f, (formulas n.lines).count f)

/-- How many more lines a node may be given before it is too long to
expand. -/
def room (n : Node) : Nat :=
  n.settings.maxLines + 1 - n.lines.length

end Node

end NaturalDeduction
