/-
Single steps of a proof.

A step is right when its line is a well-formed application of its rule to
the lines it cites.  `Line.problem?` finds what is wrong with a step, looking
only at the line and at the lines before it: the check knows nothing of how
lines are found.

A disjunction elimination cites the disjunction first, then the lines of both
branches.  Its two hypotheses are the cited hypotheses drawn from that
disjunction.  The first branch runs from the earlier hypothesis to the later
one, the second from there to the line itself, and in each of them a cited
line has to state the conclusion.
-/
import NaturalDeduction.Line.Sequence

namespace NaturalDeduction

/-- What is wrong with a step. -/
inductive StepProblem where
  | assumptionCites
  | notModusPonens
  | notModusTollens
  | notConjElim
  | notConjIntro
  | notDisjIntro
  | notDoubleNegation
  | notDisjunct
  | disjElimCitesNothing
  | noDisjunction
  | notTwoHypotheses
  | hypothesesMismatch
  /-- The branch that starts at an index never states the formula. -/
  | branchFallsShort (start : Int) (formula : Formula)
  | notImplication
  | noConditionalHypothesis
  | consequentNotCited
deriving DecidableEq, Repr

/-- The wording of a problem. -/
def StepProblem.message : StepProblem → String
  | assumptionCites => "assumptions cite no lines"
  | notModusPonens => "not a modus ponens step"
  | notModusTollens => "not a modus tollens step"
  | notConjElim => "not a conjunction elimination"
  | notConjIntro => "not a conjunction introduction"
  | notDisjIntro => "not a disjunction introduction"
  | notDoubleNegation => "not a double negation step"
  | notDisjunct => "hypothesis is not a disjunct of the cited line"
  | disjElimCitesNothing => "disjunction elimination cites no lines"
  | noDisjunction => "first citation is not a disjunction"
  | notTwoHypotheses => "expected two branch hypotheses"
  | hypothesesMismatch => "branch hypotheses do not match the disjuncts"
  | branchFallsShort start formula =>
    "branch starting at line " ++ toString (start + 1) ++ " does not reach " ++ formula.render
  | notImplication => "conditional proof must state an implication"
  | noConditionalHypothesis => "no matching conditional hypothesis cited"
  | consequentNotCited => "consequent is not established by a cited line"

/-! ### Rules that add one line -/

/-- Whether `f` follows from the cited formulas by modus ponens. -/
def isModusPonens (f : Formula) : List Formula → Bool
  | [.imp a b, c] => a = c && b = f
  | _ => false

/-- Whether `f` follows from the cited formulas by modus tollens. -/
def isModusTollens (f : Formula) : List Formula → Bool
  | [.imp a b, c] => c = .neg b && f = .neg a
  | _ => false

/-- Whether `f` is one side of the one conjunction that is cited. -/
def isConjElim (f : Formula) : List Formula → Bool
  | [.conj a b] => f = a || f = b
  | _ => false

/-- Whether `f` is the conjunction of the two cited formulas. -/
def isConjIntro (f : Formula) : List Formula → Bool
  | [a, b] => f = .conj a b
  | _ => false

/-- Whether `f` is the disjunction of the two cited formulas, or a
disjunction of which the one cited formula is a side. -/
def isDisjIntro (f : Formula) : List Formula → Bool
  | [a, b] => f = .disj a b
  | [a] =>
    match f with
    | .disj b c => a = b || a = c
    | _ => false
  | _ => false

/-- Whether `f` and the one cited formula differ by two negations. -/
def isDoubleNegation (f : Formula) : List Formula → Bool
  | [a] => f = .neg (.neg a) || a = .neg (.neg f)
  | _ => false

/-- Whether `f` is one side of the one disjunction that is cited. -/
def isDisjunct (f : Formula) : List Formula → Bool
  | [.disj a b] => f = a || f = b
  | _ => false

/-! ### Rules that close a block -/

/-- The cited indices, in order, at which `test` accepts the line. -/
def citedWhere (lines : List Line) (test : Line → Bool) :
    List Int → Except Fault (List Int)
  | [] => return []
  | n :: ns => do
    let l ← Line.get lines n
    let rest ← citedWhere lines test ns
    return if test l then n :: rest else rest

/-- Whether a cited line with an index in `[start, stop)` states `f`. -/
def branchStates (lines : List Line) (cites : List Int) (f : Formula)
    (start stop : Int) : Except Fault Bool := do
  let inside := cites.filter fun n => start ≤ n && n < stop
  let cited ← inside.mapM (Line.get lines)
  return Line.states cited f

/-- What is wrong with a disjunction elimination. -/
def disjElimProblem? (lines : List Line) (l : Line) :
    Except Fault (Option StepProblem) := do
  match l.cites with
  | [] => return some .disjElimCitesNothing
  | n :: _ =>
    let disjunction ← Line.get lines n
    match disjunction.formula with
    | .disj a b =>
      let isHypothesis (h : Line) : Bool :=
        h.rule = .disjHypothesis && h.cites = [disjunction.number]
      match ← citedWhere lines isHypothesis l.cites with
      | [i, j] =>
        let first ← Line.get lines (min i j)
        let second ← Line.get lines (max i j)
        if (first.formula, second.formula) ≠ (a, b) then
          return some .hypothesesMismatch
        else if !(← branchStates lines l.cites l.formula (min i j) (max i j)) then
          return some (.branchFallsShort (min i j) l.formula)
        else if !(← branchStates lines l.cites l.formula (max i j) l.number) then
          return some (.branchFallsShort (max i j) l.formula)
        else
          return none
      | _ => return some .notTwoHypotheses
    | _ => return some .noDisjunction

/-- What is wrong with a conditional proof. -/
def conditionalProblem? (lines : List Line) (l : Line) :
    Except Fault (Option StepProblem) := do
  match l.formula with
  | .imp a b =>
    let cited ← l.cites.mapM (Line.get lines)
    if !cited.any (fun c => c.rule = .conditionalHypothesis && c.formula = a) then
      return some .noConditionalHypothesis
    else if !Line.states cited b then
      return some .consequentNotCited
    else
      return none
  | _ => return some .notImplication

/-! ### Any step -/

/-- What is wrong with a line whose rule is judged by the cited formulas
alone. -/
def citedProblem? (lines : List Line) (l : Line)
    (test : Formula → List Formula → Bool) (problem : StepProblem) :
    Except Fault (Option StepProblem) := do
  let cited ← l.cites.mapM (Line.get lines)
  return if test l.formula (cited.map (·.formula)) then none else some problem

/-- What is wrong with an assumption. -/
def assumptionProblem? (l : Line) : Option StepProblem :=
  if l.cites.isEmpty then none else some .assumptionCites

/-- What is wrong with a line as a step from the lines before it.  No
verdict is given on a rule that is known by name only. -/
def Line.problem? (lines : List Line) (l : Line) :
    Except Fault (Option StepProblem) :=
  match l.rule with
  | .assumption | .conditionalHypothesis => return assumptionProblem? l
  | .modusPonens => citedProblem? lines l isModusPonens .notModusPonens
  | .modusTollens => citedProblem? lines l isModusTollens .notModusTollens
  | .conjElim => citedProblem? lines l isConjElim .notConjElim
  | .conjIntro => citedProblem? lines l isConjIntro .notConjIntro
  | .disjIntro => citedProblem? lines l isDisjIntro .notDisjIntro
  | .doubleNegation => citedProblem? lines l isDoubleNegation .notDoubleNegation
  | .disjHypothesis => citedProblem? lines l isDisjunct .notDisjunct
  | .disjElim => disjElimProblem? lines l
  | .conditionalProof => conditionalProblem? lines l
  | .reductio => return none

end NaturalDeduction
