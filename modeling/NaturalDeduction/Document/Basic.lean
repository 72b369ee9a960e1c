/-
Settings files.

This is the reader of documents that the command works with.  Settings are made
in the same way from what any other reader gives.

A settings file is a document of one value.  Indentation by blanks gives its
structure: lines of the form `key: value` with one indentation make a mapping,
lines that start with a dash and a blank make a list, and the value of a key
or of a dash may stand below it, further in.  A list may also stand below its
key with the same indentation.  Empty lines count for nothing, nor does a
number sign at the start of a line or after a blank and what follows it.  The
first line may be three dashes, and the last ones three points.

A plain scalar goes on over the next lines as long as they are further in than
what it belongs to and no comment comes between.  A line break inside it
counts as a blank, and empty lines as line breaks.

A document is refused when a bracket or a quote is not closed, when a tab
stands outside quotes, when a line goes back to an indentation that no line
before it opened, when a key follows another key on its line, when a key is
too long, or when it holds control characters.
-/
import NaturalDeduction.Document.Flow

namespace NaturalDeduction

namespace Document

/-! ### Lines -/

/-- A line with something on it. -/
structure SourceLine where
  /-- What stands for the break before the line where a scalar goes on over
  it; no scalar goes on over a comment. -/
  joint : Option (List Char)
  indent : Nat
  /-- What stands after the indentation. -/
  text : List Char
deriving Repr

/-- Whether a character may stand in a document. -/
def isAllowed (c : Char) : Bool :=
  let n := c.toNat
  n = 0x09 || n = 0x0A || n = 0x0D || (0x20 ≤ n && n ≤ 0x7E) || n = 0x85
    || (0xA0 ≤ n && n ≠ 0xFFFE && n ≠ 0xFFFF)

/-- Writes every line break as a newline, but keeps the separators U+2028 and
U+2029. -/
def newlines : List Char → List Char
  | '\r' :: '\n' :: rest => '\n' :: newlines rest
  | c :: rest => (if c = '\r' ∨ c.toNat = 0x85 then '\n' else c) :: newlines rest
  | [] => []

/-- Whether a character is a line break. -/
def isBreak (c : Char) : Bool :=
  c = '\n' || c.toNat = 0x2028 || c.toNat = 0x2029

/-- The lines of a text, each with the break before it. -/
def brokenLines (cs : List Char) : List (Char × List Char) :=
  cs.foldr (fun c lines =>
    match lines with
    | (before, line) :: rest =>
      if isBreak c then ('\n', []) :: (c, line) :: rest else (before, c :: line) :: rest
    | [] => []) [('\n', [])]

/-- What stands for line breaks inside a scalar. -/
def folded : List Char → List Char
  | [] => []
  | ['\n'] => [' ']
  | '\n' :: breaks => breaks
  | breaks => breaks

/-- The lines with something on them.  `breaks` are the line breaks since the
last such line, in reverse, unless a comment came between. -/
def sourceLinesAfter (breaks : Option (List Char)) : List (Char × List Char) →
    List SourceLine
  | [] => []
  | (before, line) :: rest =>
    let breaks := breaks.map (before :: ·)
    match skipBlanks line with
    | [] => sourceLinesAfter breaks rest
    | '#' :: _ => sourceLinesAfter none rest
    | text =>
      ⟨breaks.map (folded ·.reverse), line.length - text.length, text⟩
        :: sourceLinesAfter (some []) rest

/-- The lines of a document with something on them. -/
def sourceLines (cs : List Char) : List SourceLine :=
  sourceLinesAfter none (brokenLines (newlines cs))

/-- What follows three dashes or points at the start of a line, if they make
up a word. -/
def afterMark? (sign : Char) (l : SourceLine) : Option (List Char) :=
  if l.indent = 0 ∧ l.text.take 3 = [sign, sign, sign] ∧ endsWord (l.text.drop 3).head? then
    some (l.text.drop 3)
  else none

/-- Whether a line starts with a mark between documents. -/
def isMark (l : SourceLine) : Bool :=
  (afterMark? '-' l).isSome || (afterMark? '.' l).isSome

/-- Whether nothing but blanks and a comment is left of a line. -/
def isLineEnd (cs : List Char) : Bool :=
  match skipBlanks cs with
  | [] => true
  | c :: _ => c = '#'

/-- What follows a dash that makes a list item. -/
def afterDash? : List Char → Option (List Char)
  | '-' :: rest => if endsWord rest.head? then some rest else none
  | _ => none

/-- The key that a line starts with, and what follows its colon. -/
def key? (cs : List Char) : Option (Value × List Char) := do
  let (key, rest) ← match cs with
    | '"' :: rest => quoted? '"' rest
    | '\'' :: rest => quoted? '\'' rest
    | cs => do
      let (text, rest) ← plain? false cs
      some (plainValue text, rest)
  match skipBlanks rest with
  | ':' :: rest =>
    if endsWord rest.head? && reaches cs (':' :: rest) then some (key, rest) else none
  | _ => none

/-! ### Values -/

/-- The text of a plain scalar over the next lines, after `text`: those that
are joined to it and indented at least `least`.  It ends with a comment. -/
def continued (least : Nat) : (text : List Char) → List SourceLine →
    Option (List Char × List SourceLine)
  | text, [] => some (text, [])
  | text, l :: rest =>
    match l.joint with
    | some joint =>
      if least ≤ l.indent then
        let (more, after) := plainText false 'a' l.text
        let text := text ++ joint ++ Text.dropEnd (· = ' ') more
        if after.isEmpty then continued least text rest
        else if isLineEnd after then some (text, rest)
        else none
      else some (text, l :: rest)
    | none => some (text, l :: rest)

/-- Reads a value that starts on a line with the text `cs`, before the lines
`rest`. -/
def inline? (least : Nat) (cs : List Char) (rest : List SourceLine) :
    Option (Value × List SourceLine) :=
  let onLine (v : Value × List Char) : Option (Value × List SourceLine) :=
    if isLineEnd v.2 then some (v.1, rest) else none
  match cs with
  | '[' :: _ | '\x7b' :: _ => (flow? cs).bind onLine
  | '"' :: after => (quoted? '"' after).bind onLine
  | '\'' :: after => (quoted? '\'' after).bind onLine
  | cs => do
    let (text, after) ← plain? false cs
    if after.isEmpty then
      let (text, rest) ← continued least text rest
      some (plainValue text, rest)
    else onLine (plainValue text, after)

mutual

/-- Reads the value on lines indented at least `least`; no such line is
null. -/
def block : (depth : Nat) → (least : Nat) → List SourceLine → Option (Value × List SourceLine)
  | 0, _, _ => none
  | _, _, [] => some (.null, [])
  | depth + 1, least, l :: rest =>
    if l.indent < least then some (.null, l :: rest)
    else if (afterDash? l.text).isSome then blockItems depth l.indent [] (l :: rest)
    else if (key? l.text).isSome then blockEntries depth l.indent [] (l :: rest)
    else inline? least l.text rest

/-- Reads the value after a key at `indent`: on the same line, or below
it. -/
def entryValue : (depth : Nat) → (indent : Nat) → List Char → List SourceLine →
    Option (Value × List SourceLine)
  | 0, _, _, _ => none
  | depth + 1, indent, cs, rest =>
    if !isLineEnd cs then inline? (indent + 1) (skipBlanks cs) rest
    else match rest with
      | l :: _ =>
        if l.indent = indent && (afterDash? l.text).isSome then blockItems depth indent [] rest
        else block depth (indent + 1) rest
      | [] => some (.null, [])

/-- Reads the entries of a mapping at `indent`, after those read so far. -/
def blockEntries : (depth : Nat) → (indent : Nat) → List (Value × Value) → List SourceLine →
    Option (Value × List SourceLine)
  | 0, _, _, _ => none
  | _, _, entries, [] => some (.mapping entries, [])
  | depth + 1, indent, entries, l :: rest =>
    if l.indent < indent then some (.mapping entries, l :: rest)
    else if indent < l.indent then none
    else do
      let (key, after) ← key? l.text
      let (value, rest) ← entryValue depth indent after rest
      blockEntries depth indent (Value.setEntry entries key value) rest

/-- Reads the items of a list at `indent`, after those read so far in
reverse. -/
def blockItems : (depth : Nat) → (indent : Nat) → List Value → List SourceLine →
    Option (Value × List SourceLine)
  | 0, _, _, _ => none
  | _, _, items, [] => some (.list items.reverse, [])
  | depth + 1, indent, items, l :: rest =>
    if l.indent < indent then some (.list items.reverse, l :: rest)
    else if indent < l.indent then none
    else match afterDash? l.text with
      | none => some (.list items.reverse, l :: rest)
      | some after => do
        let lines := if isLineEnd after then rest
          else ⟨l.joint, indent + (l.text.length - (skipBlanks after).length), skipBlanks after⟩
            :: rest
        let (item, rest) ← block depth (indent + 1) lines
        blockItems depth indent (item :: items) rest

end

/-! ### Documents -/

/-- Reads the lines of a document up to the marks at its end, where `opening`
is what follows the mark at its start. -/
def readBody (depth : Nat) (opening : Option (List Char)) (body : List SourceLine) :
    Option (Value × List SourceLine) :=
  match opening with
  | some after => if isLineEnd after then block depth 0 body else inline? 0 (skipBlanks after) body
  | none => block depth 0 body

/-- Reads the lines of a document.  Without a mark at its start, none at its
end may come first. -/
def readLines (depth : Nat) (lines : List SourceLine) : Option Value := do
  let opening := lines.head?.bind (afterMark? '-')
  let lines := if opening.isSome then lines.tail else lines
  let body := lines.takeWhile (!isMark ·)
  let marks := lines.dropWhile (!isMark ·)
  let (value, rest) ← readBody depth opening body
  if rest.isEmpty && marks.all (fun l => (afterMark? '.' l).any isLineEnd)
      && (marks.isEmpty || opening.isSome || !body.isEmpty) then some value
  else none

/-- The value of a document, unless it is refused. -/
def read? (text : String) : Option Value := do
  let cs := text.toList
  let cs := if cs.head?.any (·.toNat = 0xFEFF) then cs.tail else cs
  if !cs.all isAllowed then none
  else readLines (4 * cs.length + 4) (sourceLines cs)

end Document

end NaturalDeduction
