/-
Bracketed lists and mappings of settings files.

Between square brackets stands a list, and between braces a mapping, on one
line and with commas between the members; one comma may follow the last.  A
member of a list that has a colon after it is a mapping with one entry, and a
key without a colon has the value null.  A colon belongs to a key only within
`keyWidth` characters of its start.

Every function takes the number of nested calls it may make, for which the
length of the text is always enough.
-/
import NaturalDeduction.Document.Scalar

namespace NaturalDeduction

namespace Document

/-- The text after its blanks. -/
def skipBlanks (cs : List Char) : List Char :=
  cs.dropWhile (· = ' ')

/-- Whether a value may be the key of a mapping. -/
def isKey : Value → Bool
  | .list _ | .mapping _ => false
  | _ => true

/-- How far from the start of a key its colon may stand. -/
def keyWidth : Nat := 1024

/-- Whether a key that starts at `start` is short enough for a colon at
`colon`, further on in the same text. -/
def reaches (start colon : List Char) : Bool :=
  start.length ≤ colon.length + keyWidth

mutual

/-- Reads a value inside brackets. -/
def flowNode : (depth : Nat) → List Char → Option (Value × List Char)
  | 0, _ => none
  | depth + 1, cs =>
    match skipBlanks cs with
    | '[' :: rest => flowItems depth [] rest
    | '\x7b' :: rest => flowEntries depth [] rest
    | '"' :: rest => quoted? '"' rest
    | '\'' :: rest => quoted? '\'' rest
    | cs => do
      let (text, rest) ← plain? true cs
      return (plainValue text, rest)

/-- Reads the value after a colon, which is null where none is written. -/
def flowValue : (depth : Nat) → List Char → Option (Value × List Char)
  | 0, _ => none
  | depth + 1, cs =>
    match skipBlanks cs with
    | ',' :: rest => some (.null, ',' :: rest)
    | ']' :: rest => some (.null, ']' :: rest)
    | '\x7d' :: rest => some (.null, '\x7d' :: rest)
    | cs => flowNode depth cs

/-- Reads the rest of a list, after the items read so far in reverse. -/
def flowItems : (depth : Nat) → List Value → List Char → Option (Value × List Char)
  | 0, _, _ => none
  | depth + 1, items, cs =>
    match skipBlanks cs with
    | ']' :: rest => some (.list items.reverse, rest)
    | cs => do
      let (item, rest) ← flowNode depth cs
      let (item, rest) ← match skipBlanks rest with
        | ':' :: rest =>
          if isKey item && reaches cs (':' :: rest) then do
            let (value, rest) ← flowValue depth rest
            some (.mapping [(item, value)], skipBlanks rest)
          else none
        | rest => some (item, rest)
      match rest with
      | ',' :: rest => flowItems depth (item :: items) rest
      | ']' :: rest => some (.list (item :: items).reverse, rest)
      | _ => none

/-- Reads the rest of a mapping, after the entries read so far. -/
def flowEntries : (depth : Nat) → List (Value × Value) → List Char →
    Option (Value × List Char)
  | 0, _, _ => none
  | depth + 1, entries, cs =>
    match skipBlanks cs with
    | '\x7d' :: rest => some (.mapping entries, rest)
    | cs => do
      let (key, rest) ← flowNode depth cs
      let (value, rest) ← match skipBlanks rest with
        | ':' :: rest =>
          if reaches cs (':' :: rest) then do
            let (value, rest) ← flowValue depth rest
            some (value, skipBlanks rest)
          else none
        | rest => some (.null, rest)
      if !isKey key then none
      else
        let entries := Value.setEntry entries key value
        match rest with
        | ',' :: rest => flowEntries depth entries rest
        | '\x7d' :: rest => some (.mapping entries, rest)
        | _ => none

end

/-- Reads a bracketed list or mapping. -/
def flow? (cs : List Char) : Option (Value × List Char) :=
  flowNode (4 * cs.length + 4) cs

end Document

end NaturalDeduction
