/-
Formulas of propositional logic.

A formula is a tree over named variables.  Nothing is ever normalised: two
formulas are equal exactly when they are the same tree, so `A & B` and
`B & A` differ.  A variable's name is any text, although only single capital
letters can be read back from print.

Traversal is in pre-order, the left operand before the right one, and lists
of distinct parts keep the place of each part's first occurrence.
-/

namespace NaturalDeduction

/-- A formula of propositional logic. -/
inductive Formula where
  | var (name : String)
  | neg (operand : Formula)
  | conj (left right : Formula)
  | disj (left right : Formula)
  | imp (left right : Formula)
deriving DecidableEq, Repr, Inhabited

namespace Formula

/-- The immediate parts of a formula, left before right. -/
def children : Formula → List Formula
  | var _ => []
  | neg a => [a]
  | conj a b | disj a b | imp a b => [a, b]

/-- The height of the tree: a variable has depth zero. -/
def depth : Formula → Nat
  | var _ => 0
  | neg a => 1 + a.depth
  | conj a b | disj a b | imp a b => 1 + max a.depth b.depth

/-- Every occurrence of a subformula, in pre-order. -/
def occurrences : Formula → List Formula
  | var name => [var name]
  | neg a => neg a :: a.occurrences
  | conj a b => conj a b :: (a.occurrences ++ b.occurrences)
  | disj a b => disj a b :: (a.occurrences ++ b.occurrences)
  | imp a b => imp a b :: (a.occurrences ++ b.occurrences)

/-- The distinct subformulas, each at the place of its first occurrence. -/
def subformulas (f : Formula) : List Formula :=
  f.occurrences.eraseDups

/-- The name of every occurrence of a variable, from left to right. -/
def names : Formula → List String
  | var name => [name]
  | neg a => a.names
  | conj a b | disj a b | imp a b => a.names ++ b.names

/-- The distinct variable names, each at the place of its first
occurrence. -/
def distinctNames (f : Formula) : List String :=
  f.names.eraseDups

/-- A formula under `n` negation signs. -/
def negTimes : Nat → Formula → Formula
  | 0, f => f
  | n + 1, f => neg (negTimes n f)

end Formula

end NaturalDeduction
