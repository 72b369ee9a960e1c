/-
Arguments of the command `prove`.

The command takes one statement and some options.  An option is written in
full or, if it is a long one, by enough of its start to tell it from the
others.  Its value follows as the next argument or after an equals sign, where
`--` counts for no value.
Short options may share one dash, and whatever follows the last of them there
counts as a value for it.

An argument that starts with a dash is an option, unless it is the dash alone,
looks like a negative number, or holds a blank and no option starts like it.
After an argument `--` nothing is an option any more.

First every argument is told apart (`Word.ofArguments`), and then they are
taken in order (`take`).  So an ambiguous option is reported before any other
fault, and arguments that nothing takes are reported last, all together.
-/
import NaturalDeduction.Text.Integer
import NaturalDeduction.Text.Quoted
import NaturalDeduction.Text.Split

namespace NaturalDeduction

namespace CommandLine

/-! ### Options -/

/-- An option of the command. -/
inductive Flag where
  | help
  | config
  | maxLines
  | iterations
  | subMaxLines
  | subIterations
  | dedupe
  | json
  | verbose
deriving DecidableEq, Repr

namespace Flag

/-- Every way to write an option, in the order in which options are
listed. -/
def spellings : List (String × Flag) :=
  [("-h", help), ("--help", help), ("--config", config), ("--max-lines", maxLines),
   ("--iterations", iterations), ("--sub-max-lines", subMaxLines),
   ("--sub-iterations", subIterations), ("--dedupe-states", dedupe), ("--json", json),
   ("-v", verbose), ("--verbose", verbose)]

/-- The option that is written like this. -/
def ofSpelling? (text : String) : Option Flag :=
  spellings.lookup text

/-- An option as faults name it. -/
def label (f : Flag) : String :=
  "/".intercalate ((spellings.filter fun s => s.2 = f).map (·.1))

/-- Whether an option has a value. -/
def takesValue : Flag → Bool
  | config | maxLines | iterations | subMaxLines | subIterations => true
  | help | dedupe | json | verbose => false

end Flag

/-- What is wrong with the arguments. -/
inductive UsageError where
  | ambiguous (written : String) (options : List String)
  | missingValue (option : Flag)
  | unwantedValue (option : Flag) (value : String)
  | notInteger (option : Flag) (value : String)
  | unrecognized (arguments : List String)
deriving DecidableEq, Repr

/-- The wording of a fault. -/
def UsageError.message : UsageError → String
  | ambiguous written options =>
    "ambiguous option: " ++ written ++ " could match " ++ ", ".intercalate options
  | missingValue option => "argument " ++ option.label ++ ": expected one argument"
  | unwantedValue option value =>
    "argument " ++ option.label ++ ": ignored explicit argument " ++ Text.quote value
  | notInteger option value =>
    "argument " ++ option.label ++ ": invalid int value: " ++ Text.quote value
  | unrecognized arguments => "unrecognized arguments: " ++ " ".intercalate arguments

/-! ### Telling arguments apart -/

/-- What an argument is. -/
inductive Word where
  /-- A value or the statement. -/
  | plain (text : String)
  /-- The mark after which nothing is an option. -/
  | mark
  /-- A long option, and the value after its equals sign. -/
  | long (option : Flag) (value : Option String)
  /-- A short option, and what follows it in the same argument. -/
  | short (option : Flag) (tail : Option String)
  /-- An option that does not exist. -/
  | unknown (text : String)
deriving DecidableEq, Repr

namespace Word

/-- The text without the newline that it may end with. -/
def dropNewline (cs : List Char) : List Char :=
  if cs.getLast? = some '\n' then cs.dropLast else cs

/-- Whether a text looks like a negative number.  A newline at its end does
not count. -/
def isNegativeNumber : List Char → Bool
  | '-' :: cs =>
    let isDigit (c : Char) : Bool := (Text.digitValue? c).isSome
    let number := dropNewline cs
    match number.dropWhile isDigit with
    | [] => !number.isEmpty
    | '.' :: rest => !rest.isEmpty && rest.all isDigit
    | _ => false
  | _ => false

/-- An argument that is exactly an option, with or without a value after an
equals sign. -/
def inFull? (cs : List Char) : Option Word :=
  let make (text : List Char) (value : Option (List Char)) : Option Word := do
    let option ← Flag.ofSpelling? (String.ofList text)
    let value := value.map String.ofList
    return if text.take 2 = ['-', '-'] then .long option value else .short option value
  match make cs none with
  | some word => some word
  | none => do
    let (text, value) ← Text.cutAt '=' cs
    make text (some value)

/-- The long options that start like an argument. -/
def abbreviated (cs : List Char) : List (String × Flag) :=
  let start := match Text.cutAt '=' cs with
    | some (text, _) => text
    | none => cs
  Flag.spellings.filter fun (spelling, _) => start.isPrefixOf spelling.toList

/-- An argument that starts with a dash and is no option in full. -/
def ofDashed (cs : List Char) : Except UsageError Word :=
  let text := String.ofList cs
  let other : Word :=
    if isNegativeNumber cs || cs.contains ' ' then .plain text else .unknown text
  match cs with
  | '-' :: '-' :: _ =>
    match abbreviated cs with
    | [] => .ok other
    | [(_, option)] => .ok (.long option ((Text.cutAt '=' cs).map fun p => String.ofList p.2))
    | several => .error (.ambiguous text (several.map (·.1)))
  | dash :: letter :: tail =>
    match Flag.ofSpelling? (String.ofList [dash, letter]) with
    | some option => .ok (.short option (some (String.ofList tail)))
    | none => .ok other
  | _ => .ok other

/-- What an argument is, before any mark. -/
def ofArgument (text : String) : Except UsageError Word :=
  match text.toList with
  | '-' :: rest =>
    match inFull? ('-' :: rest) with
    | some word => .ok word
    | none => if rest.isEmpty then .ok (.plain text) else ofDashed ('-' :: rest)
  | _ => .ok (.plain text)

/-- What the arguments are. -/
def ofArguments : List String → Except UsageError (List Word)
  | [] => .ok []
  | "--" :: rest => .ok (.mark :: rest.map .plain)
  | text :: rest => do
    let word ← ofArgument text
    return word :: (← ofArguments rest)

end Word

/-! ### Taking arguments in order -/

/-- What the arguments give for an option that has a value. -/
inductive Given (α : Type) where
  | absent
  /-- The option stands there, but without a value. -/
  | empty
  | value (a : α)
deriving DecidableEq, Repr, Inhabited

/-- What the arguments ask for. -/
structure Options where
  statement : Option String := none
  config : Given String := .absent
  maxLines : Given Int := .absent
  iterations : Given Int := .absent
  subMaxLines : Given Int := .absent
  subIterations : Given Int := .absent
  dedupe : Bool := false
  json : Bool := false
  verbosity : Nat := 0
  help : Bool := false
deriving DecidableEq, Repr, Inhabited

/-- The options with an integer option set. -/
def Options.setInteger (o : Options) (option : Flag) (n : Given Int) : Options :=
  match option with
  | .maxLines => { o with maxLines := n }
  | .iterations => { o with iterations := n }
  | .subMaxLines => { o with subMaxLines := n }
  | .subIterations => { o with subIterations := n }
  | _ => o

/-- The options read so far. -/
structure Taken where
  options : Options := {}
  /-- Whether the place of the statement is taken. -/
  statementTaken : Bool := false
  /-- The arguments that nothing takes. -/
  extras : List String := []
deriving Repr, Inhabited

namespace Taken

/-- Takes an option without a value. -/
def flag (t : Taken) (option : Flag) : Taken :=
  match option with
  | .help => { t with options := { t.options with help := true } }
  | .dedupe => { t with options := { t.options with dedupe := true } }
  | .json => { t with options := { t.options with json := true } }
  | .verbose => { t with options := { t.options with verbosity := t.options.verbosity + 1 } }
  | _ => t

/-- Takes an option with its value, which is text for the settings file and an
integer for every other option. -/
def value (t : Taken) (option : Flag) (text : String) : Except UsageError Taken :=
  if option = .config then .ok { t with options := { t.options with config := .value text } }
  else match Text.readInt? text with
    | some n => .ok { t with options := t.options.setInteger option (.value n) }
    | none => .error (.notInteger option text)

/-- Takes an option that has a value, but was given none. -/
def noValue (t : Taken) (option : Flag) : Taken :=
  if option = .config then { t with options := { t.options with config := .empty } }
  else { t with options := t.options.setInteger option .empty }

/-- Takes the statement, or notes an argument too many. -/
def plain (t : Taken) (text : String) : Taken :=
  if t.statementTaken then { t with extras := t.extras ++ [text] }
  else { t with options := { t.options with statement := some text }, statementTaken := true }

/-- Notes an argument that nothing takes. -/
def extra (t : Taken) (text : String) : Taken :=
  { t with extras := t.extras ++ [text] }

end Taken

/-- The short options that share an argument, the first of them given.  None
of them has a value, so what is left over is a fault. -/
def cluster (option : Flag) : List Char → Except UsageError (List Flag)
  | [] => .error (.unwantedValue option "")
  | c :: rest =>
    match Flag.ofSpelling? (String.ofList ['-', c]) with
    | none => .error (.unwantedValue option (String.ofList (c :: rest)))
    | some next =>
      if rest.isEmpty then .ok [option, next]
      else do return option :: (← cluster next rest)

/-- Takes words in order, up to a request for help. -/
def take (t : Taken) : List Word → Except UsageError Taken
  | [] => .ok t
  | .plain text :: .mark :: rest =>
    if t.statementTaken then
      .ok ((t.extra text).extra "--" |> fun t => rest.foldl takePlain t)
    else .ok (rest.foldl takePlain (t.plain text))
  | .plain text :: rest => take (t.plain text) rest
  | .mark :: rest =>
    if t.statementTaken then .ok (rest.foldl takePlain (t.extra "--"))
    else match rest with
      | .plain text :: rest => .ok (rest.foldl takePlain (t.plain text))
      | _ => .ok t
  | .unknown text :: rest => take (t.extra text) rest
  | .long option none :: rest =>
    if !option.takesValue then continueAfter (t.flag option) rest
    else match rest with
      | .plain text :: rest => do take (← t.value option text) rest
      | _ => .error (.missingValue option)
  | .long option (some text) :: rest =>
    if !option.takesValue then .error (.unwantedValue option text)
    else if text = "--" then take (t.noValue option) rest
    else do take (← t.value option text) rest
  | .short option none :: rest => continueAfter (t.flag option) rest
  | .short option (some tail) :: rest => do
    let options ← cluster option tail.toList
    continueAfter (options.foldl Taken.flag t) rest
where
  /-- Takes a word after the mark. -/
  takePlain (t : Taken) : Word → Taken
    | .plain text => t.plain text
    | _ => t
  /-- Goes on, unless help was asked for. -/
  continueAfter (t : Taken) (rest : List Word) : Except UsageError Taken :=
    if t.options.help then .ok t else take t rest

/-- What the arguments ask for.  Help is given whatever else is asked. -/
def parse (arguments : List String) : Except UsageError Options := do
  let t ← take {} (← Word.ofArguments arguments)
  if t.options.help || t.extras.isEmpty then return t.options
  else throw (.unrecognized t.extras)

end CommandLine

end NaturalDeduction
