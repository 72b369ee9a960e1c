/-
Blocks of lines.

A hypothesis opens a block, and a line of the matching rule that cites it
closes the block.  A hypothesis that no such line cites is open, wherever in
the sequence the citing line would stand.

The printed depth of a line is the number of blocks around it.  A hypothesis
counts as inside its own block and a closing line as outside.  The second
hypothesis of a disjunction elimination takes the place of the first.
-/
import NaturalDeduction.Line.Basic

namespace NaturalDeduction

namespace Line

/-- Whether a line closes the block that a line of rule `opener` opened at
place `index`. -/
def discharges (l : Line) (opener : Rule) (index : Nat) : Bool :=
  l.rule.opener = some opener && l.cites.contains (index : Int)

/-- The hypotheses that no line discharges, with their places. -/
def openHypotheses (lines : List Line) : List (Line × Nat) :=
  lines.zipIdx.filter fun (h, i) =>
    h.rule.opensBlock && !lines.any (·.discharges h.rule i)

/-- The places of the hypotheses that no line discharges. -/
def openBlocks (lines : List Line) : List Nat :=
  (openHypotheses lines).map (·.2)

/-- Whether a hypothesis of rule `opener` is still open. -/
def hasOpenBlock (lines : List Line) (opener : Rule) : Bool :=
  (openHypotheses lines).any fun (h, _) => h.rule = opener

/-- The opening rules of the blocks around the next line, innermost first,
once a line of rule `rule` has been passed. -/
def blocksAfter (blocks : List Rule) (rule : Rule) : List Rule :=
  if rule.opensBlock then
    if rule = .disjHypothesis ∧ blocks.head? = some rule then blocks
    else rule :: blocks
  else match rule.opener with
    | some opener => (blocks.dropWhile (· ≠ opener)).tail
    | none => blocks

/-- The depths of lines that stand inside `blocks`. -/
def depthsWithin (blocks : List Rule) : List Line → List Nat
  | [] => []
  | l :: lines =>
    let blocks := blocksAfter blocks l.rule
    blocks.length :: depthsWithin blocks lines

/-- The depth of every line. -/
def blockDepths (lines : List Line) : List Nat :=
  depthsWithin [] lines

end Line

end NaturalDeduction
