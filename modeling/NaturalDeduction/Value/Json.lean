/-
Values as JSON text.

Members of a list or a mapping stand on lines of their own, two blanks
further in than the brackets around them; an empty list or mapping is written
without a line break.  Outside the printable ASCII characters, text is escaped
by UTF-16 code units.  A value of a kind that JSON does not know is written as
the text of its printed form.
-/
import NaturalDeduction.Value.Basic

namespace NaturalDeduction

namespace Value

/-! ### Text -/

/-- One UTF-16 code unit as an escape. -/
def jsonUnit (n : Nat) : List Char :=
  '\\' :: 'u' :: Text.hexDigits 4 n

/-- A character inside JSON text. -/
def jsonChar (c : Char) : List Char :=
  let n := c.toNat
  if c = '"' ∨ c = '\\' then ['\\', c]
  else if c = '\n' then ['\\', 'n']
  else if c = '\r' then ['\\', 'r']
  else if c = '\t' then ['\\', 't']
  else if n = 0x08 then ['\\', 'b']
  else if n = 0x0C then ['\\', 'f']
  else if 0x20 ≤ n ∧ n < 0x7F then [c]
  else if n < 0x10000 then jsonUnit n
  else jsonUnit (0xD800 + (n - 0x10000) / 0x400) ++ jsonUnit (0xDC00 + (n - 0x10000) % 0x400)

/-- Text in JSON. -/
def jsonText (s : String) : String :=
  "\"" ++ String.ofList (s.toList.flatMap jsonChar) ++ "\""

/-- A float in JSON. -/
def jsonFloat (d : Decimal) : String :=
  if d.isInfinite then (if d.negative then "-Infinity" else "Infinity") else d.render

/-- A key of a mapping in JSON, which is always text. -/
def jsonKey : Value → String
  | null => jsonText "null"
  | bool true => jsonText "true"
  | bool false => jsonText "false"
  | float d => jsonText (jsonFloat d)
  | nan => jsonText "NaN"
  | text s => jsonText s
  | v => jsonText v.render

/-! ### Values -/

/-- A line break followed by the blanks of a level. -/
def jsonBreak (level : Nat) : String :=
  "\n" ++ String.ofList (List.replicate (2 * level) ' ')

/-- The members of a list or mapping at a level, between brackets. -/
def jsonBlock (level : Nat) (opening closing : String) (members : List String) : String :=
  if members.isEmpty then opening ++ closing
  else
    opening ++ jsonBreak (level + 1)
      ++ ("," ++ jsonBreak (level + 1)).intercalate members
      ++ jsonBreak level ++ closing

mutual

/-- A value at a level, as JSON. -/
def jsonAt (level : Nat) : Value → String
  | null => "null"
  | bool true => "true"
  | bool false => "false"
  | int n => toString n
  | float d => jsonFloat d
  | nan => "NaN"
  | text s => jsonText s
  | list items => jsonBlock level "[" "]" (jsonItems (level + 1) items)
  | mapping entries => jsonBlock level "\x7b" "\x7d" (jsonEntries (level + 1) entries)
  | other printed _ => jsonText printed

/-- The items of a list at a level, as JSON. -/
def jsonItems (level : Nat) : List Value → List String
  | [] => []
  | v :: rest => v.jsonAt level :: jsonItems level rest

/-- The entries of a mapping at a level, as JSON. -/
def jsonEntries (level : Nat) : List (Value × Value) → List String
  | [] => []
  | (k, v) :: rest => (k.jsonKey ++ ": " ++ v.jsonAt level) :: jsonEntries level rest

end

/-- A value as JSON text. -/
def toJson (v : Value) : String :=
  v.jsonAt 0

end Value

end NaturalDeduction
