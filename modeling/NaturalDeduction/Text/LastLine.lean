/-
The last line of a text.

Lines end at a newline, a return, or both together; at a vertical tab or a form
feed; at one of the separators U+001C to U+001E; and at U+0085, U+2028 and
U+2029.
-/
namespace NaturalDeduction

namespace Text

/-- Whether a character ends a line. -/
def endsLine (c : Char) : Bool :=
  let n := c.toNat
  (0x0A ≤ n && n ≤ 0x0D) || (0x1C ≤ n && n ≤ 0x1E) || n = 0x85 || n = 0x2028 || n = 0x2029

/-- The text without a return at its end. -/
def dropReturn (cs : List Char) : List Char :=
  if cs.getLast? = some '\r' then cs.dropLast else cs

/-- The last line of a text that is written with a newline after it.  A return
at the end of the text is one line break with that newline. -/
def lastLine (s : String) : String :=
  String.ofList ((dropReturn s.toList).reverse.takeWhile (!endsLine ·)).reverse

end Text

end NaturalDeduction
