/-
Steps that add one line.

Each of the rules is tried on every line, or on every pair of lines, in the
order of the lines; a line may be paired with itself.  A disjunction is
introduced from two lines, or from one line and a variable of the vocabulary
on either side.  The rules themselves come in a fixed order (`drafts`).

A draft says what a new line would state and which lines it would cite.
Making it a line looks up what the cited lines rest on, by their numbers.
-/
import NaturalDeduction.Search.Node

namespace NaturalDeduction

/-- A line before its number and its assumption set are worked out. -/
structure Draft where
  formula : Formula
  rule : Rule
  cites : List Int
deriving DecidableEq, Repr

namespace Draft

/-- The draft as the line after `lines`. -/
def toLine (lines : List Line) (d : Draft) : Except Fault Line := do
  return ⟨lines.length, d.formula, d.rule, ← Line.restsAt lines d.cites, d.cites⟩

/-- The draft as an extension of `lines`. -/
def toExtension (lines : List Line) (d : Draft) : Except Fault Extension := do
  return .single (← d.toLine lines)

end Draft

/-! ### Rule by rule -/

/-- Every pair of lines, the first of them slowest. -/
def pairs (lines : List Line) : List (Line × Line) :=
  lines.flatMap fun a => lines.map fun b => (a, b)

/-- Modus ponens from an implication and its left side. -/
def modusPonens? (conditional antecedent : Line) : Option Draft :=
  match conditional.formula with
  | .imp a b =>
    if antecedent.formula = a then
      some ⟨b, .modusPonens, [conditional.number, antecedent.number]⟩
    else none
  | _ => none

/-- Modus tollens from an implication and the negation of its right
side. -/
def modusTollens? (conditional denial : Line) : Option Draft :=
  match conditional.formula with
  | .imp a b =>
    if denial.formula = .neg b then
      some ⟨.neg a, .modusTollens, [conditional.number, denial.number]⟩
    else none
  | _ => none

/-- Both sides of a conjunction. -/
def conjElims (l : Line) : List Draft :=
  match l.formula with
  | .conj a b => [⟨a, .conjElim, [l.number]⟩, ⟨b, .conjElim, [l.number]⟩]
  | _ => []

/-- The conjunction of two lines. -/
def conjIntro (a b : Line) : Draft :=
  ⟨.conj a.formula b.formula, .conjIntro, [a.number, b.number]⟩

/-- The disjunction of two lines. -/
def disjIntro (a b : Line) : Draft :=
  ⟨.disj a.formula b.formula, .disjIntro, [a.number, b.number]⟩

/-- The disjunctions of a line and a variable. -/
def disjIntrosWith (l : Line) (name : String) : List Draft :=
  [⟨.disj l.formula (.var name), .disjIntro, [l.number]⟩,
   ⟨.disj (.var name) l.formula, .disjIntro, [l.number]⟩]

/-- A line without two negations in front. -/
def doubleNegationElim? (l : Line) : Option Draft :=
  match l.formula with
  | .neg (.neg a) => some ⟨a, .doubleNegation, [l.number]⟩
  | _ => none

/-- A line with two negations in front. -/
def doubleNegationIntro (l : Line) : Draft :=
  ⟨.neg (.neg l.formula), .doubleNegation, [l.number]⟩

/-! ### All rules -/

/-- Every draft from the given lines and variables, rule by rule. -/
def drafts (lines : List Line) (vocabulary : List String) : List Draft :=
  (pairs lines).filterMap (fun (a, b) => modusPonens? a b)
    ++ (pairs lines).filterMap (fun (a, b) => modusTollens? a b)
    ++ lines.flatMap conjElims
    ++ (pairs lines).map (fun (a, b) => conjIntro a b)
    ++ (pairs lines).map (fun (a, b) => disjIntro a b)
    ++ lines.flatMap (fun l => vocabulary.flatMap (disjIntrosWith l))
    ++ lines.filterMap doubleNegationElim?
    ++ lines.map doubleNegationIntro

/-- Every extension of a node by one line. -/
def Node.singleSteps (n : Node) : Except Fault (List Extension) :=
  (drafts n.lines (Line.vocabulary n.lines n.goal)).mapM (Draft.toExtension n.lines)

end NaturalDeduction
