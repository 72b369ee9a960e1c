/-
Requests on a single line.

A request is a text such as `P, P > Q / Q`: the assumptions, with commas
between them, then a slash, then the goal.  Only the first slash divides.
When nothing but blank characters stands before it there are no assumptions;
otherwise every piece between commas has to be a formula, the empty ones
included.
-/
import NaturalDeduction.Attempt.Basic
import NaturalDeduction.Formula.Reader
import NaturalDeduction.Text.Blank
import NaturalDeduction.Text.Split

namespace NaturalDeduction

/-- Why a text is not a request. -/
inductive RequestError where
  | noDelimiter
  /-- One of the formulas cannot be read. -/
  | unreadable (error : ReadError)
deriving DecidableEq, Repr

/-- The wording of an error. -/
def RequestError.message : RequestError → String
  | noDelimiter => "Need a '/' to delimit assumptions and conclusion"
  | unreadable error => error.message

namespace Request

/-- The texts of the assumptions and the text of the goal. -/
def split (text : String) : Except RequestError (List String × String) :=
  match Text.cutAt '/' text.toList with
  | none => .error .noDelimiter
  | some (before, after) =>
    if (Text.trimBlank before).isEmpty then .ok ([], String.ofList after)
    else .ok ((Text.pieces ',' before).map String.ofList, String.ofList after)

/-- Reads one of the formulas of a request. -/
def readFormula (text : String) : Except RequestError Formula :=
  (Formula.read text).mapError .unreadable

/-- The assumptions and the goal of a request. -/
def read (text : String) : Except RequestError (List Formula × Formula) := do
  let (assumptions, goal) ← split (Text.strip text)
  return (← assumptions.mapM readFormula, ← readFormula goal)

end Request

/-- The attempt that a request asks for. -/
def Attempt.ofRequest (text : String) (settings : Settings) : Except RequestError Attempt := do
  let (assumptions, goal) ← Request.read text
  return Attempt.start assumptions goal settings

end NaturalDeduction
