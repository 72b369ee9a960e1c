/-
Scalars of settings files.

A scalar is written plainly or between quotes.  Quoted scalars are text.  A
plain scalar is a truth value, null or a number when it is spelled like one,
and text otherwise:

* `yes`, `true` and `on` are true, and `no`, `false` and `off` false, each in
  lower case, in capitals, or with one capital in front;
* `~`, `null` and nothing at all are null;
* an integer has an optional sign and may hold underscores; it is octal after
  `0`, hexadecimal after `0x`, binary after `0b`, and in base sixty when it
  holds colons;
* a fraction has a point and may end with a power of ten whose sign is
  written, or its whole part is in base sixty;
* `.inf` with an optional sign is infinity, and `.nan` is no number, each in
  lower case, in capitals, or as `.Inf` and `.NaN`.
-/
import NaturalDeduction.Text.Blank
import NaturalDeduction.Text.Split
import NaturalDeduction.Value.Basic

namespace NaturalDeduction

namespace Document

/-! ### Words -/

/-- The plain scalars that are true. -/
def trueWords : List String :=
  ["yes", "Yes", "YES", "true", "True", "TRUE", "on", "On", "ON"]

/-- The plain scalars that are false. -/
def falseWords : List String :=
  ["no", "No", "NO", "false", "False", "FALSE", "off", "Off", "OFF"]

/-- The plain scalars that are null. -/
def nullWords : List String :=
  ["", "~", "null", "Null", "NULL"]

/-! ### Numbers -/

/-- The value of a digit up to `f`. -/
def hexValue? (c : Char) : Option Nat :=
  if '0' ≤ c ∧ c ≤ '9' then some (c.toNat - '0'.toNat)
  else if 'a' ≤ c ∧ c ≤ 'f' then some (c.toNat - 'a'.toNat + 10)
  else if 'A' ≤ c ∧ c ≤ 'F' then some (c.toNat - 'A'.toNat + 10)
  else none

/-- Reads the digits of a natural number, of which there is at least one. -/
def readBase (base : Nat) (digits : List Char) : Option Nat :=
  if digits.isEmpty then none
  else digits.foldlM (fun n c => do
    let d ← hexValue? c
    if d < base then some (base * n + d) else none) 0

/-- Reads digits that may hold underscores. -/
def readGrouped (base : Nat) (cs : List Char) : Option Nat :=
  readBase base (cs.filter (· ≠ '_'))

/-- Reads a place below the first in base sixty. -/
def readSixtieth (cs : List Char) : Option Nat := do
  let n ← readBase 10 cs
  if cs.length ≤ 2 ∧ n < 60 then some n else none

/-- Reads a number in base sixty, with colons between its places. -/
def readSixties (cs : List Char) : Option Nat :=
  match Text.pieces ':' cs with
  | first :: places => do
    let n ← readGrouped 10 first
    places.foldlM (fun n place => do return 60 * n + (← readSixtieth place)) n
  | [] => none

/-- Reads an integer without a sign. -/
def unsigned? : List Char → Option Nat
  | ['0'] => some 0
  | '0' :: 'b' :: digits => readGrouped 2 digits
  | '0' :: 'x' :: digits => readGrouped 16 digits
  | '0' :: digits => readGrouped 8 ('0' :: digits)
  | '_' :: _ => none
  | cs => readSixties cs

/-- Whether a text starts with a sign, negative or not, and what follows. -/
def takeSign : List Char → Bool × Bool × List Char
  | '-' :: cs => (true, true, cs)
  | '+' :: cs => (true, false, cs)
  | cs => (false, false, cs)

/-- Reads an integer. -/
def integer? (cs : List Char) : Option Int := do
  let (_, negative, body) := takeSign cs
  let n ← unsigned? body
  return if negative then -(n : Int) else n

/-- Reads a power of ten after a fraction: nothing, or `e`, a sign and
digits. -/
def power? : List Char → Option Int
  | [] => some 0
  | e :: sign :: digits =>
    if (e = 'e' ∨ e = 'E') ∧ (sign = '+' ∨ sign = '-') then do
      let n ← readBase 10 digits
      return if sign = '-' then -(n : Int) else n
    else none
  | _ => none

/-- Whether a character belongs to a group of decimal digits. -/
def isGrouped (c : Char) : Bool :=
  c.isDigit || c = '_'

/-- Reads a fraction.  It needs a digit in front of the point or, if it has
no sign, directly after it. -/
def fraction? (cs : List Char) : Option Decimal := do
  let (signed, negative, body) := takeSign cs
  let whole := body.takeWhile isGrouped
  match body.dropWhile isGrouped with
  | '.' :: rest =>
    let part := rest.takeWhile isGrouped
    let power ← power? (rest.dropWhile isGrouped)
    let leads (cs : List Char) : Bool := cs.head?.any Char.isDigit
    if leads whole || (whole.isEmpty && !signed && leads part) then
      let places := part.filter (· ≠ '_')
      let digits ← readGrouped 10 (whole ++ part)
      some ⟨negative, digits, power - places.length⟩
    else none
  | _ => none

/-- Reads a fraction whose whole part is in base sixty. -/
def sixtyFraction? (cs : List Char) : Option Decimal := do
  let (_, negative, body) := takeSign cs
  let whole := body.takeWhile (· ≠ '.')
  match body.dropWhile (· ≠ '.') with
  | '.' :: part =>
    if part.all isGrouped && whole.contains ':' && whole.head?.any Char.isDigit then
      let places := part.filter (· ≠ '_')
      let n ← readSixties whole
      let part ← readBase 10 ('0' :: places)
      some ⟨negative, n * Nat.pow 10 places.length + part, -(places.length : Int)⟩
    else none
  | _ => none

/-- Reads infinity. -/
def infinity? (cs : List Char) : Option Decimal :=
  let (_, negative, body) := takeSign cs
  if [".inf", ".Inf", ".INF"].contains (String.ofList body) then some (.infinite negative)
  else none

/-- Reads a number with a point. -/
def decimal? (cs : List Char) : Option Decimal :=
  fraction? cs <|> sixtyFraction? cs <|> infinity? cs

/-- The plain scalars that are no number. -/
def nanWords : List String :=
  [".nan", ".NaN", ".NAN"]

/-- The value of a plain scalar. -/
def plainValue (cs : List Char) : Value :=
  let s := String.ofList cs
  if trueWords.contains s then .bool true
  else if falseWords.contains s then .bool false
  else if nullWords.contains s then .null
  else if nanWords.contains s then .nan
  else match integer? cs with
    | some n => .int n
    | none =>
      match decimal? cs with
      | some d => .float d
      | none => .text s

/-! ### Quoted text -/

/-- Reads text up to a single quote; a quote written twice is part of the
text. -/
def singleQuoted : List Char → Option (List Char × List Char)
  | [] => none
  | '\'' :: '\'' :: rest => do
    let (text, rest) ← singleQuoted rest
    return ('\'' :: text, rest)
  | '\'' :: rest => some ([], rest)
  | c :: rest => do
    let (text, rest) ← singleQuoted rest
    return (c :: text, rest)

/-- The characters that a backslash and a letter stand for. -/
def escapes : List (Char × Nat) :=
  [('0', 0x00), ('a', 0x07), ('b', 0x08), ('t', 0x09), ('n', 0x0A), ('v', 0x0B),
   ('f', 0x0C), ('r', 0x0D), ('e', 0x1B), (' ', 0x20), ('"', 0x22), ('\\', 0x5C),
   ('/', 0x2F), ('N', 0x85), ('_', 0xA0), ('L', 0x2028), ('P', 0x2029)]

/-- The number of hexadecimal digits after a backslash and a letter. -/
def escapeWidth : Char → Nat
  | 'x' => 2
  | 'u' => 4
  | 'U' => 8
  | _ => 0

/-- The character written with a backslash, and how many characters after the
letter belong to it. -/
def escaped? (letter : Char) (rest : List Char) : Option (Char × Nat) :=
  match escapes.lookup letter with
  | some code => some (Char.ofNat code, 0)
  | none =>
    let width := escapeWidth letter
    let digits := rest.take width
    if width = 0 ∨ digits.length < width then none
    else do
      let code ← readBase 16 digits
      if code.isValidChar then some (Char.ofNat code, width) else none

/-- Reads text up to a double quote; the first `skip` characters belong to an
escape that was read already. -/
def doubleQuoted : (skip : Nat) → List Char → Option (List Char × List Char)
  | _, [] => none
  | skip + 1, _ :: rest => doubleQuoted skip rest
  | 0, '"' :: rest => some ([], rest)
  | 0, '\\' :: letter :: rest => do
    let (c, skip) ← escaped? letter rest
    let (text, rest) ← doubleQuoted skip rest
    return (c :: text, rest)
  | 0, c :: rest => do
    let (text, rest) ← doubleQuoted 0 rest
    return (c :: text, rest)

/-- Reads quoted text after its opening quote. -/
def quoted? (quote : Char) (rest : List Char) : Option (Value × List Char) := do
  let (text, rest) ← if quote = '"' then doubleQuoted 0 rest else singleQuoted rest
  return (.text (String.ofList text), rest)

/-! ### Plain text -/

/-- Whether a character ends a word: a blank, a tab or the end of the
line. -/
def endsWord : Option Char → Bool
  | none => true
  | some c => c = ' ' || c = '\t'

/-- The characters with a meaning of their own inside brackets. -/
def flowSigns : List Char := [',', '[', ']', '\x7b', '\x7d']

/-- The characters that start something other than a plain scalar. -/
def startSigns : List Char :=
  ['-', '?', ':', ',', '[', ']', '\x7b', '\x7d', '#', '&', '*', '!', '|', '>', '\'', '"',
   '%', '@', '\x60']

/-- Whether a plain scalar starts here.  A dash may start one when more of
the word follows, and outside brackets so may a question mark or a colon. -/
def startsPlain (inFlow : Bool) : List Char → Bool
  | [] => false
  | c :: rest =>
    if c = ' ' ∨ c = '\t' then false
    else if startSigns.contains c then
      !endsWord rest.head? && (c = '-' || (!inFlow && (c = '?' || c = ':')))
    else true

/-- Reads a plain scalar, which ends before a colon that ends a word, before a
number sign after a blank, at a tab, and inside brackets at their signs. -/
def plainText (inFlow : Bool) (previous : Char) : List Char → List Char × List Char
  | [] => ([], [])
  | c :: rest =>
    let colonEnds := endsWord rest.head? || (inFlow && rest.head?.any flowSigns.contains)
    if (c = ':' && colonEnds) || (c = '#' && previous = ' ') || c = '\t'
        || (inFlow && (c = '?' || flowSigns.contains c)) then
      ([], c :: rest)
    else
      let (text, rest) := plainText inFlow c rest
      (c :: text, rest)

/-- Reads a plain scalar without the blanks after it. -/
def plain? (inFlow : Bool) (cs : List Char) : Option (List Char × List Char) :=
  if startsPlain inFlow cs then
    let (text, rest) := plainText inFlow 'a' cs
    some (Text.dropEnd (· = ' ') text, rest)
  else none

end Document

end NaturalDeduction
