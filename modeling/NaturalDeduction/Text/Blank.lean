/-
Blank characters.

A character is blank when it has the property White_Space, or is one of the
four information separators U+001C to U+001F.  The zero-width space U+200B is
not blank.
-/

namespace NaturalDeduction

namespace Text

/-- The ranges of blank characters. -/
def blankRanges : List (Nat × Nat) :=
  [(0x09, 0x0D), (0x1C, 0x20), (0x85, 0x85), (0xA0, 0xA0), (0x1680, 0x1680),
   (0x2000, 0x200A), (0x2028, 0x2029), (0x202F, 0x202F), (0x205F, 0x205F),
   (0x3000, 0x3000)]

/-- Whether a character is blank. -/
def isBlank (c : Char) : Bool :=
  blankRanges.any fun (first, last) => first ≤ c.toNat && c.toNat ≤ last

/-- The text without the characters at its end that pass a test. -/
def dropEnd (test : Char → Bool) (cs : List Char) : List Char :=
  (cs.reverse.dropWhile test).reverse

/-- The text without the blank characters at both of its ends. -/
def trimBlank (cs : List Char) : List Char :=
  dropEnd isBlank (cs.dropWhile isBlank)

/-- The text without the blank characters at both of its ends. -/
def strip (s : String) : String :=
  String.ofList (trimBlank s.toList)

end Text

end NaturalDeduction
