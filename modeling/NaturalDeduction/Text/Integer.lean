/-
Integers as people write them.

The decimal digits of every script are read alike.  Around an integer blank
characters may stand, except the information separators; before its digits one
sign; and between two digits one underscore, to group them.
-/
import NaturalDeduction.Text.Blank

namespace NaturalDeduction

namespace Text

/-- The code points of the zeros of all scripts; the other nine digits of a
script follow its zero. -/
def zeros : List Nat :=
  [0x30, 0x660, 0x6F0, 0x7C0, 0x966, 0x9E6, 0xA66, 0xAE6, 0xB66, 0xBE6, 0xC66,
   0xCE6, 0xD66, 0xDE6, 0xE50, 0xED0, 0xF20, 0x1040, 0x1090, 0x17E0, 0x1810,
   0x1946, 0x19D0, 0x1A80, 0x1A90, 0x1B50, 0x1BB0, 0x1C40, 0x1C50, 0xA620,
   0xA8D0, 0xA900, 0xA9D0, 0xA9F0, 0xAA50, 0xABF0, 0xFF10, 0x104A0, 0x10D30,
   0x11066, 0x110F0, 0x11136, 0x111D0, 0x112F0, 0x11450, 0x114D0, 0x11650,
   0x116C0, 0x11730, 0x118E0, 0x11950, 0x11C50, 0x11D50, 0x11DA0, 0x16A60,
   0x16AC0, 0x16B50, 0x1D7CE, 0x1D7D8, 0x1D7E2, 0x1D7EC, 0x1D7F6, 0x1E140,
   0x1E2F0, 0x1E950, 0x1FBF0]

/-- The value of a decimal digit of any script. -/
def digitValue? (c : Char) : Option Nat :=
  (zeros.find? fun z => z ≤ c.toNat && c.toNat < z + 10).map (c.toNat - ·)

/-- Reads digits, with single underscores between them, after digits that
make up `value`.  The text must end with a digit. -/
def readDigits (value : Nat) : List Char → Option Nat
  | [] => some value
  | '_' :: c :: rest =>
    match digitValue? c with
    | some d => readDigits (10 * value + d) rest
    | none => none
  | c :: rest =>
    match digitValue? c with
    | some d => readDigits (10 * value + d) rest
    | none => none

/-- Reads a natural number, which has at least one digit. -/
def readNat? : List Char → Option Nat
  | [] => none
  | c :: rest =>
    match digitValue? c with
    | some d => readDigits d rest
    | none => none

/-- Reads an integer with its sign. -/
def readSigned? : List Char → Option Int
  | '+' :: rest => (readNat? rest).map Int.ofNat
  | '-' :: rest => (readNat? rest).map fun n => -Int.ofNat n
  | rest => (readNat? rest).map Int.ofNat

/-- Whether a character may stand around an integer. -/
def padsInt (c : Char) : Bool :=
  isBlank c && !(0x1C ≤ c.toNat && c.toNat ≤ 0x1F)

/-- Reads a text as an integer. -/
def readInt? (s : String) : Option Int :=
  readSigned? (dropEnd padsInt (s.toList.dropWhile padsInt))

end Text

end NaturalDeduction
