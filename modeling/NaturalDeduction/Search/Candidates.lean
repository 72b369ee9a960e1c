/-
Candidates of a node.

Besides the steps that add one line there are two that add a block, disjunction
elimination and conditional proof.  Such a step opens a hypothesis, has a
nested search prove what is needed under it, and puts the lines found in front
of the line that discharges the hypothesis.

* Disjunction elimination tries every disjunction among the lines and looks
  for the node's own goal under each side.  The second branch was found as if
  it stood where the first one stands, so it is renumbered
  (`Node.disjElimBlock`).
* Conditional proof looks for the right side of the goal under its left side.
  The nested search may find the right side among the lines before the
  hypothesis; the last line that states it is then cited too
  (`Node.conditionalBlock`).

Neither is tried on a node that states its goal, nor inside an open block of
its own kind, so blocks of one kind never nest.

How a nested search runs is not settled here: everything in this module takes
the search as an argument.
-/
import NaturalDeduction.Formula.Fingerprint
import NaturalDeduction.Line.Blocks
import NaturalDeduction.Search.Distinct
import NaturalDeduction.Search.Result
import NaturalDeduction.Search.Steps

namespace NaturalDeduction

/-- What one way to extend a node comes to. -/
structure Found where
  candidates : List Extension := []
  /-- The number of nested searches that were run. -/
  subSearches : Nat := 0
  trace : Array Event := #[]
deriving Repr, Inhabited

namespace Found

/-- First one way, then another. -/
def append (a b : Found) : Found :=
  ⟨a.candidates ++ b.candidates, a.subSearches + b.subSearches, a.trace ++ b.trace⟩

end Found

namespace Node

/-! ### Nested searches -/

/-- The node that a nested search starts from. -/
def assuming (n : Node) (hypothesis : Line) (goal : Formula) : Node :=
  ⟨n.lines ++ [hypothesis], goal, n.settings.nested⟩

/-- The lines from the hypothesis on that a nested search finds, if it finds
the goal, and the trace that it leaves. -/
def branch (search : Node → Run) (n : Node) (hypothesis : Line) (goal : Formula) :
    Except Fault (Option (List Line) × Array Event) :=
  let run := search (n.assuming hypothesis goal)
  let trace := run.fullTrace true goal
  match run.ending with
  | .proved lines => .ok (some (lines.drop n.lines.length), trace)
  | .halted why => .ok (none, trace.push (.branchFailed goal hypothesis.formula why))
  | .broken fault => .error fault

/-! ### Disjunction elimination -/

/-- The hypothesis that one side of a disjunction holds. -/
def disjHypothesis (n : Node) (disjunction : Line) (side : Formula) : Line :=
  .ofHypothesis side .disjHypothesis n.lines.length [disjunction.number]

/-- Both branches of a disjunction elimination and the line that ends it. -/
def disjElimBlock (n : Node) (disjunction : Line) (first second : List Line) : Extension :=
  let start := n.lines.length
  let lead := first ++ second.map (Line.renumber first.length start)
  { lead
    last :=
      { number := start + lead.length
        formula := n.goal
        rule := .disjElim
        rests := Line.restsOf (disjunction :: lead)
        cites := disjunction.number :: lead.map (·.number) } }

/-- Disjunction elimination on one line: the right side is looked into only
when the left one leads to the goal. -/
def disjElimOn (search : Node → Run) (n : Node) (l : Line) : Except Fault Found :=
  match l.formula with
  | .disj a b => do
    let (first?, trace₁) ← n.branch search (n.disjHypothesis l a) n.goal
    match first? with
    | none => return ⟨[], 1, trace₁⟩
    | some first =>
      let (second?, trace₂) ← n.branch search (n.disjHypothesis l b) n.goal
      match second? with
      | none => return ⟨[], 2, trace₁ ++ trace₂⟩
      | some second => return ⟨[n.disjElimBlock l first second], 2, trace₁ ++ trace₂⟩
  | _ => return {}

/-- Disjunction elimination on each of the given lines. -/
def disjElimsOn (search : Node → Run) (n : Node) : List Line → Except Fault Found
  | [] => return {}
  | l :: rest => do
    let found ← n.disjElimOn search l
    return found.append (← n.disjElimsOn search rest)

/-- Every disjunction elimination. -/
def disjElims (search : Node → Run) (n : Node) : Except Fault Found :=
  if n.isComplete || Line.hasOpenBlock n.lines .disjHypothesis then return {}
  else n.disjElimsOn search n.lines

/-! ### Conditional proof -/

/-- The lines under a conditional hypothesis and the line that ends the
block. -/
def conditionalBlock (n : Node) (consequent : Formula) (lead : List Line) :
    Except Fault Extension := do
  let earlier ←
    if Line.states lead consequent then pure []
    else match n.lines.reverse.find? fun l => l.formula = consequent with
      | some l => pure [l]
      | none => throw .consequentMissing
  return {
    lead
    last :=
      { number := n.lines.length + lead.length
        formula := n.goal
        rule := .conditionalProof
        rests := Line.restsOf (lead ++ earlier)
        cites := (earlier ++ lead).map (·.number) } }

/-- Conditional proof, when the goal is an implication. -/
def conditionalProofs (search : Node → Run) (n : Node) : Except Fault Found :=
  match n.goal with
  | .imp a b =>
    if n.isComplete || Line.hasOpenBlock n.lines .conditionalHypothesis then return {}
    else do
      let hypothesis := Line.ofHypothesis a .conditionalHypothesis n.lines.length []
      let (lead?, trace) ← n.branch search hypothesis b
      match lead? with
      | none => return ⟨[], 1, trace⟩
      | some lead => return ⟨[← n.conditionalBlock b lead], 1, trace⟩
  | _ => return {}

/-! ### All candidates -/

/-- Every candidate of a node, in order.  An extension whose result is on a
line already is left out, and so is one that came before. -/
def candidates (search : Node → Run) (n : Node) : Except Fault Found := do
  let singles ← n.singleSteps
  let blocks := (← n.disjElims search).append (← n.conditionalProofs search)
  let fresh := (singles ++ blocks.candidates).filter fun e =>
    !Line.states n.lines e.last.formula
  let kept := distinctBy (·.last.formula.fingerprint) fresh
  return {
    candidates := kept
    subSearches := blocks.subSearches
    trace := blocks.trace.push (.generated kept.length n.lines.length blocks.subSearches) }

end Node

end NaturalDeduction
