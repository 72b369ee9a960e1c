/-
Checking finished proofs.

A sequence of lines is checked in layers, and each layer is asked only when
those before it found nothing:

* numbering: lines are numbered by their places and cite earlier lines only;
* steps: every line is a right application of its rule;
* assumption sets: an assumption or a hypothesis rests on itself, and any
  other line on exactly what the lines it cites rest on;
* conclusion: some line states the goal;
* truth table, when assumptions are given and it is wanted: the assumptions
  entail the goal.

The verdict names the last layer asked.  The first three layers together are
`firstDefect`, which depends on the lines alone; `Sound lines` says that they
find nothing.
-/
import NaturalDeduction.Check.Step

namespace NaturalDeduction

/-- A layer of the check. -/
inductive Layer where
  | numbering
  | steps
  | assumptionSets
  | conclusion
  | truthTable
deriving DecidableEq, Repr

/-- The name of a layer in a verdict. -/
def Layer.label : Layer → String
  | numbering => "structure"
  | steps => "rule"
  | assumptionSets => "assumptions"
  | conclusion => "conclusion"
  | truthTable => "truth-table"

/-- The first thing found wrong with a proof. -/
inductive Defect where
  | misnumbered (place : Nat) (number : Int)
  | citesAhead (place : Nat)
  | unsupportedRule (number : Int) (rule : Rule)
  | wrongStep (number : Int) (problem : StepProblem)
  | wrongRests (number : Int) (rests expected : IndexSet)
  | goalNotStated (goal : Formula)
  | goalNotEntailed (goal : Formula)
deriving DecidableEq, Repr

namespace Defect

/-- The layer that finds a defect. -/
def layer : Defect → Layer
  | misnumbered .. | citesAhead _ => .numbering
  | unsupportedRule .. | wrongStep .. => .steps
  | wrongRests .. => .assumptionSets
  | goalNotStated _ => .conclusion
  | goalNotEntailed _ => .truthTable

/-- Indices as a list in brackets, counted from zero. -/
def bracketed (s : IndexSet) : String :=
  "[" ++ ", ".intercalate (s.toList.map toString) ++ "]"

/-- The wording of a defect. -/
def message : Defect → String
  | misnumbered place number =>
    "line at position " ++ toString (place + 1) ++ " is numbered " ++ toString (number + 1)
  | citesAhead place =>
    "line " ++ toString (place + 1) ++ " cites a line that does not precede it"
  | unsupportedRule number rule =>
    "line " ++ toString (number + 1) ++ ": unsupported rule " ++ rule.abbreviation
  | wrongStep number problem =>
    "line " ++ toString (number + 1) ++ ": " ++ problem.message
  | wrongRests number rests expected =>
    "line " ++ toString (number + 1) ++ " rests on " ++ bracketed rests
      ++ ", expected " ++ bracketed expected
  | goalNotStated goal => "no line states " ++ goal.render
  | goalNotEntailed goal => "assumptions do not entail " ++ goal.render

end Defect

/-! ### The layers -/

/-- What the numbering layer finds about the line at a place. -/
def numberingDefect? (l : Line) (place : Nat) : Option Defect :=
  if l.number ≠ place then some (.misnumbered place l.number)
  else if l.cites.any fun n => n < 0 || (place : Int) ≤ n then some (.citesAhead place)
  else none

/-- What the step layer finds about a line. -/
def stepDefect? (lines : List Line) (l : Line) : Except Fault (Option Defect) := do
  if l.rule = .reductio then
    return some (.unsupportedRule l.number l.rule)
  else
    return (← l.problem? lines).map (.wrongStep l.number ·)

/-- What a line should rest on. -/
def expectedRests (lines : List Line) (l : Line) : Except Fault IndexSet :=
  if l.rule.isAssumed then return .singleton l.number
  else Line.restsAt lines l.cites

/-- What the assumption-set layer finds about a line. -/
def restsDefect? (lines : List Line) (l : Line) : Except Fault (Option Defect) := do
  let expected ← expectedRests lines l
  return if l.rests = expected then none
    else some (.wrongRests l.number l.rests expected)

/-- The first defect that a test finds in a sequence. -/
def firstAmong (test : Line → Except Fault (Option Defect)) :
    List Line → Except Fault (Option Defect)
  | [] => return none
  | l :: lines => do
    match ← test l with
    | some d => return some d
    | none => firstAmong test lines

/-- The first defect that the layers on the lines alone find: numbering,
steps and assumption sets. -/
def firstDefect (lines : List Line) : Except Fault (Option Defect) := do
  match lines.zipIdx.findSome? fun (l, i) => numberingDefect? l i with
  | some d => return some d
  | none =>
    match ← firstAmong (stepDefect? lines) lines with
    | some d => return some d
    | none => firstAmong (restsDefect? lines) lines

/-- Nothing is wrong with the lines by themselves. -/
def Sound (lines : List Line) : Prop :=
  firstDefect lines = .ok none

instance (lines : List Line) : Decidable (Sound lines) :=
  match h : firstDefect lines with
  | .ok none => isTrue h
  | .ok (some d) => isFalse (by simp [Sound, h])
  | .error f => isFalse (by simp [Sound, h])

/-! ### The verdict -/

/-- The answer of the check. -/
inductive Verdict where
  /-- Nothing was found, and this layer was asked last. -/
  | accepted (last : Layer)
  | rejected (defect : Defect)
deriving DecidableEq, Repr

namespace Verdict

/-- Whether nothing was found. -/
def verified : Verdict → Bool
  | accepted _ => true
  | rejected _ => false

/-- The layer asked last. -/
def layer : Verdict → Layer
  | accepted last => last
  | rejected defect => defect.layer

/-- What was found. -/
def details : Verdict → Option String
  | accepted _ => none
  | rejected defect => some defect.message

end Verdict

/-- Whether the assumptions entail the goal, as a verdict. -/
def entailmentVerdict (assumptions : List Formula) (goal : Formula) :
    Except Fault Verdict :=
  match Formula.entails assumptions goal with
  | .error atom => .error (.unknownAtom atom)
  | .ok true => .ok (.accepted .truthTable)
  | .ok false => .ok (.rejected (.goalNotEntailed goal))

/-- Checks that lines prove a goal.  The truth table is consulted when
assumptions are given and `semantics` is on. -/
def verify (lines : List Line) (goal : Formula)
    (assumptions : Option (List Formula)) (semantics : Bool) :
    Except Fault Verdict := do
  match ← firstDefect lines with
  | some d => return .rejected d
  | none =>
    if !Line.states lines goal then
      return .rejected (.goalNotStated goal)
    else match assumptions, semantics with
      | some fs, true => entailmentVerdict fs goal
      | _, _ => return .accepted .conclusion

end NaturalDeduction
