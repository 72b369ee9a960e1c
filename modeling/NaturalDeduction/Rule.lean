/-
Rules of inference.

Two of the rules discharge a hypothesis: disjunction elimination and
conditional proof.  Each has a rule of its own for the hypothesis that opens
its block, so the lines of a block lie between a line with the opening rule
and a line with the closing one.
-/

namespace NaturalDeduction

/-- The rule that justifies a line of a proof. -/
inductive Rule where
  | assumption
  | modusPonens
  | modusTollens
  | conditionalProof
  | conditionalHypothesis
  | doubleNegation
  | conjIntro
  | conjElim
  | disjIntro
  | disjElim
  | disjHypothesis
  /-- Known by name only: no line of this rule is ever derived or
  accepted. -/
  | reductio
deriving DecidableEq, Repr, Inhabited

namespace Rule

/-- Every rule. -/
def all : List Rule :=
  [assumption, modusPonens, modusTollens, conditionalProof,
   conditionalHypothesis, doubleNegation, conjIntro, conjElim, disjIntro,
   disjElim, disjHypothesis, reductio]

/-- The short name printed beside a line. -/
def abbreviation : Rule → String
  | assumption => "A"
  | modusPonens => "MPP"
  | modusTollens => "MTT"
  | conditionalProof => "CP"
  | conditionalHypothesis => "A(CP)"
  | doubleNegation => "DN"
  | conjIntro => "&I"
  | conjElim => "&E"
  | disjIntro => "vI"
  | disjElim => "vE"
  | disjHypothesis => "A(vE)"
  | reductio => "RAA"

/-- The rule with a short name. -/
def ofAbbreviation? (text : String) : Option Rule :=
  all.find? fun r => r.abbreviation = text

/-- The rule that closes the block opened by this one. -/
def discharge : Rule → Option Rule
  | disjHypothesis => some disjElim
  | conditionalHypothesis => some conditionalProof
  | _ => none

/-- The rule that opens the block closed by this one. -/
def opener : Rule → Option Rule
  | disjElim => some disjHypothesis
  | conditionalProof => some conditionalHypothesis
  | _ => none

/-- Whether a line of this rule is the hypothesis of a block. -/
def opensBlock (r : Rule) : Bool :=
  r.discharge.isSome

/-- Whether a line of this rule ends a block. -/
def closesBlock (r : Rule) : Bool :=
  r.opener.isSome

/-- Whether a line of this rule rests on itself, and not on what it
cites. -/
def isAssumed (r : Rule) : Bool :=
  r = assumption || r.opensBlock

@[simp] theorem ofAbbreviation?_abbreviation (r : Rule) :
    ofAbbreviation? r.abbreviation = some r := by
  cases r <;> decide

theorem opener_eq_none_of_opensBlock {r : Rule} (h : r.opensBlock = true) : r.opener = none := by
  cases r <;> first | rfl | cases h

end Rule

end NaturalDeduction
