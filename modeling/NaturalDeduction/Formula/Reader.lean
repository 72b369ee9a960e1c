/-
Reading formulas from text.

A formula is a chain of operands and connectives.  Every connective binds to
the right and has the same strength: `A & B v C` is `A & (B v C)`.  An operand
is a capital letter, a bracketed formula, or a negated operand.  Negation is
written `-` or `~`, conjunction `&`, disjunction `v` or `|`, implication `>`
or `->`.  Blanks (U+0020 only) may stand anywhere except inside `->`.

The text is read from left to right and the first fault found is the one
reported.  A bracket is first cut out up to the sign that closes it, and its
contents are then read as a text of their own.  So a bracket that is never
closed is reported before anything inside it, and a fault inside brackets is
reported as if the contents had been the whole text.

Reading ends because each step goes on with a shorter text:
`length_of_cutBracket` says so for the contents of a bracket and for what
follows it.
-/
import NaturalDeduction.Formula.Basic

namespace NaturalDeduction

/-! ### Faults -/

/-- Why a text is not a formula. -/
inductive ReadError where
  /-- A character that no formula contains. -/
  | invalidCharacter (char : Char)
  /-- A text or a pair of brackets with nothing in it. -/
  | empty
  /-- A connective with no operand before it. -/
  | missingLeft (connective : Char)
  /-- A connective at the end of its text. -/
  | missingRight (connective : Char)
  /-- A negation sign with no operand after it. -/
  | missingNegated
  /-- The start of an operand where a connective belongs. -/
  | notConnective (char : Char)
  /-- A closing bracket that closes nothing; `upTo` ends with it. -/
  | strayBracket (upTo : String)
  /-- An opening bracket that is never closed, the text after it, and the
  number of brackets open at the end of that text. -/
  | openBracket (after : String) (count : Nat)
deriving DecidableEq, Repr

/-- The wording of a fault. -/
def ReadError.message : ReadError → String
  | .invalidCharacter c =>
    "'" ++ c.toString ++ "' did not match one of the valid characters."
  | .empty => "Empty expression"
  | .missingLeft op => "Expected left operand before '" ++ op.toString ++ "'"
  | .missingRight op => "Expected right operand after '" ++ op.toString ++ "'"
  | .missingNegated => "Expected expression after '-'"
  | .notConnective c => "Invalid operator: '" ++ c.toString ++ "'"
  | .strayBracket upTo =>
    "Unmatched parentheses in expression: " ++ upTo ++ " at bracket -1"
  | .openBracket after count =>
    "Unmatched parentheses in expression: " ++ after ++ " at bracket " ++ toString count

namespace Formula

/-! ### Characters and brackets -/

/-- What a single character stands for in a formula.  The two characters of
`->` are recognised together, before either is looked at on its own. -/
inductive Sign where
  | letter
  | negation
  | connective (join : Formula → Formula → Formula)
  | opening
  | closing
  | unknown

/-- The meaning of a character. -/
def Sign.of (c : Char) : Sign :=
  if c.isUpper then .letter
  else match c with
    | '-' | '~' => .negation
    | '&' => .connective conj
    | 'v' | '|' => .connective disj
    | '>' => .connective imp
    | '(' => .opening
    | ')' => .closing
    | _ => .unknown

/-- Cuts the text after an opening bracket into the bracket's contents and
what follows its closing sign; `depth` more brackets are open already. -/
def cutBracket : (depth : Nat) → List Char → Option (List Char × List Char)
  | _, [] => none
  | 0, ')' :: rest => some ([], rest)
  | depth + 1, ')' :: rest =>
    (cutBracket depth rest).map fun (inside, after) => (')' :: inside, after)
  | depth, '(' :: rest =>
    (cutBracket (depth + 1) rest).map fun (inside, after) => ('(' :: inside, after)
  | depth, c :: rest =>
    (cutBracket depth rest).map fun (inside, after) => (c :: inside, after)

/-- Contents and remainder together are shorter than the text they were cut
from. -/
theorem length_of_cutBracket {depth : Nat} {text inside after : List Char}
    (h : cutBracket depth text = some (inside, after)) :
    inside.length + after.length < text.length := by
  fun_induction cutBracket depth text generalizing inside after with
  | case1 => simp at h
  | case2 rest =>
    obtain ⟨rfl, rfl⟩ : [] = inside ∧ rest = after := by simpa using h
    simp
  | case3 rest depth ih =>
    obtain ⟨⟨inside', after'⟩, hcut, heq⟩ := Option.map_eq_some_iff.mp h
    obtain ⟨rfl, rfl⟩ : ')' :: inside' = inside ∧ after' = after := by simpa using heq
    have := ih hcut
    simp only [List.length_cons]
    omega
  | case4 depth rest ih =>
    obtain ⟨⟨inside', after'⟩, hcut, heq⟩ := Option.map_eq_some_iff.mp h
    obtain ⟨rfl, rfl⟩ : '(' :: inside' = inside ∧ after' = after := by simpa using heq
    have := ih hcut
    simp only [List.length_cons]
    omega
  | case5 depth c rest _ _ _ ih =>
    obtain ⟨⟨inside', after'⟩, hcut, heq⟩ := Option.map_eq_some_iff.mp h
    obtain ⟨rfl, rfl⟩ : c :: inside' = inside ∧ after' = after := by simpa using heq
    have := ih hcut
    simp only [List.length_cons]
    omega

/-! ### Reading -/

/-- What has been read of the operand before the next connective. -/
inductive Pending where
  /-- So many negation signs, and the operand itself is still to come. -/
  | awaiting (negations : Nat)
  /-- A whole operand. -/
  | operand (f : Formula)

/-- Reads the rest of `text`, after what is `pending`. -/
def readFrom (text : List Char) (pending : Pending) (rest : List Char) :
    Except ReadError Formula :=
  match rest with
  | [] =>
    match pending with
    | .awaiting 0 => .error .empty
    | .awaiting (_ + 1) => .error .missingNegated
    | .operand f => .ok f
  | ' ' :: rest => readFrom text pending rest
  | '-' :: '>' :: rest =>
    match pending with
    | .awaiting 0 => .error (.missingLeft '>')
    | .awaiting (_ + 1) => .error .missingNegated
    | .operand left =>
      if rest.all (· = ' ') then .error (.missingRight '>')
      else (imp left ·) <$> readFrom text (.awaiting 0) rest
  | c :: rest =>
    match Sign.of c, pending with
    | .letter, .awaiting n =>
      readFrom text (.operand (negTimes n (var c.toString))) rest
    | .negation, .awaiting n => readFrom text (.awaiting (n + 1)) rest
    | .opening, .awaiting n =>
      match h : cutBracket 0 rest with
      | none =>
        .error (.openBracket (String.ofList rest) (1 + rest.count '(' - rest.count ')'))
      | some (inside, after) =>
        have := length_of_cutBracket h
        match readFrom inside (.awaiting 0) inside with
        | .error e => .error e
        | .ok f => readFrom text (.operand (negTimes n f)) after
    | .letter, .operand _ | .negation, .operand _ | .opening, .operand _ =>
      .error (.notConnective c)
    | .connective _, .awaiting 0 => .error (.missingLeft c)
    | .connective join, .operand left =>
      if rest.all (· = ' ') then .error (.missingRight c)
      else (join left ·) <$> readFrom text (.awaiting 0) rest
    | .connective _, .awaiting (_ + 1) | .closing, .awaiting (_ + 1) =>
      .error .missingNegated
    | .closing, _ =>
      .error (.strayBracket (String.ofList (text.take (text.length - rest.length))))
    | .unknown, _ => .error (.invalidCharacter c)
termination_by rest.length

/-- Reads a whole text as one formula. -/
def read (text : String) : Except ReadError Formula :=
  readFrom text.toList (.awaiting 0) text.toList

end Formula

end NaturalDeduction
