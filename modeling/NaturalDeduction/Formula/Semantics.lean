/-
Truth of formulas.

`Formula.holds` is the meaning of a formula under a valuation, which gives
every name a truth value.  `Formula.evaluate` computes it under an
assignment, which gives truth values to finitely many names: the right
operand of a connective is looked at only when the left one leaves the value
open, and a name without a value is an error only when it is reached.

`entails` runs through every assignment of the names that occur, false before
true and the first name slowest, and stops at the first one that makes all
assumptions true and the conclusion false.
-/
import NaturalDeduction.Formula.Basic
import NaturalDeduction.Increasing

namespace NaturalDeduction

/-- A name that has no truth value. -/
structure UnknownAtom where
  name : String
deriving DecidableEq, Repr

/-- The wording of the error. -/
def UnknownAtom.message (e : UnknownAtom) : String :=
  "Unknown atom: " ++ e.name

/-- Truth values for finitely many names; of two entries for one name the
first counts. -/
abbrev Assignment := List (String × Bool)

namespace Formula

/-- The truth value of a formula under a valuation of all names. -/
def holds (v : String → Bool) : Formula → Bool
  | var name => v name
  | neg a => !a.holds v
  | conj a b => a.holds v && b.holds v
  | disj a b => a.holds v || b.holds v
  | imp a b => !a.holds v || b.holds v

/-- The truth value of a formula under an assignment. -/
def evaluate (env : Assignment) : Formula → Except UnknownAtom Bool
  | var name =>
    match env.lookup name with
    | some b => .ok b
    | none => .error ⟨name⟩
  | neg a => do
    let x ← a.evaluate env
    return !x
  | conj a b => do
    let x ← a.evaluate env
    if x then b.evaluate env else return false
  | disj a b => do
    let x ← a.evaluate env
    if x then return true else b.evaluate env
  | imp a b => do
    let x ← a.evaluate env
    if x then b.evaluate env else return true

/-- The names that occur in some of the formulas, in increasing order. -/
def atoms (fs : List Formula) : List String :=
  Increasing.ofList (fs.flatMap names)

/-- Whether all formulas are true, asked up to the first false one. -/
def allTrue (env : Assignment) : List Formula → Except UnknownAtom Bool
  | [] => return true
  | f :: fs => do
    let x ← f.evaluate env
    if x then allTrue env fs else return false

/-- Whether an assignment respects the step from assumptions to
conclusion. -/
def respects (env : Assignment) (assumptions : List Formula)
    (conclusion : Formula) : Except UnknownAtom Bool := do
  let premises ← allTrue env assumptions
  if premises then conclusion.evaluate env else return true

/-- Whether every way to give the `names` truth values on top of `env`
respects the step from assumptions to conclusion. -/
def allRespect (assumptions : List Formula) (conclusion : Formula) :
    (names : List String) → (env : Assignment) → Except UnknownAtom Bool
  | [], env => respects env assumptions conclusion
  | name :: names, env => do
    let x ← allRespect assumptions conclusion names ((name, false) :: env)
    if x then allRespect assumptions conclusion names ((name, true) :: env)
    else return false

/-- Whether the assumptions entail the conclusion, by truth table. -/
def entails (assumptions : List Formula) (conclusion : Formula) :
    Except UnknownAtom Bool :=
  allRespect assumptions conclusion (atoms (assumptions ++ [conclusion])) []

end Formula

end NaturalDeduction
