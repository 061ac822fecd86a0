import DocFlatten.Text.Blank
import DocFlatten.Text.Digit

/-! # Reading command lines

A command line is made of options, which start with a hyphen, and of operands. An option can
be shortened as long as it stays unambiguous, its value can be attached to it, and short
options without values can share a hyphen. After two hyphens all words are operands. Words are
acted on from left to right, so what stops the reading is what comes first.
-/

namespace DocFlatten.CommandLine

open DocFlatten.Text

/-- What an option takes. -/
inductive Parameter where
  | nothing
  | any
  | oneOf (choices : List String)
  deriving Repr, DecidableEq

/-- Why a command line is not read to its end. -/
inductive Stop where
  /-- The usage was asked for. -/
  | help
  /-- The version was asked for. -/
  | version
  /-- The command line does not follow its grammar. -/
  | refused
  deriving Repr, DecidableEq

/-- An option of a grammar. -/
structure Spec where
  /-- The name under which the option is recorded. -/
  name : String
  aliases : List String := []
  parameter : Parameter := .nothing
  /-- What the option leads to instead of being recorded. -/
  stops : Option Stop := none
  deriving Repr, DecidableEq

namespace Spec

/-- All names of an option. -/
def names (s : Spec) : List String :=
  s.name :: s.aliases

/-- Whether an option takes a value. -/
def takesValue (s : Spec) : Bool :=
  s.parameter != .nothing

/-- Whether an option takes a value as it is. -/
def accepts (s : Spec) (value : String) : Bool :=
  match s.parameter with
  | .nothing | .any => true
  | .oneOf choices => choices.contains value

end Spec

/-- The operands of a grammar. -/
inductive Operands where
  | required
  | optional
  /-- One of some commands; all words after it are left to the command. -/
  | command (names : List String)
  deriving Repr, DecidableEq

/-- The options and operands of a command line. -/
structure Grammar where
  options : List Spec
  operands : Operands
  deriving Repr, DecidableEq

namespace Grammar

/-- The names of all options. -/
def names (g : Grammar) : List (String × Spec) :=
  g.options.flatMap fun s => s.names.map fun name => (name, s)

/-- The option with a name. -/
def find? (g : Grammar) (name : String) : Option Spec :=
  (g.names.find? (·.1 == name)).map (·.2)

end Grammar

/-! ## Words -/

/-- What follows an option in the same word. -/
structure Attached where
  /-- Whether an equals sign stands before it. -/
  equals : Bool
  text : List Char
  deriving Repr, DecidableEq

/-- What a word is. -/
inductive Word where
  | operand
  | separator
  | option (spec : Spec) (name : String) (attached : Option Attached)
  /-- It looks like an option that the grammar does not have. -/
  | unknown
  deriving Repr, DecidableEq

/-- The options that a word of two hyphens may be short for. -/
def longCandidates (g : Grammar) (s : String) : List Word :=
  let (start, value) := cut '=' s
  let attached := value.map fun v => { equals := true, text := v.toList }
  (g.names.filter fun entry => entry.1.startsWith start).map fun entry =>
    .option entry.2 entry.1 attached

/-- The options that a word of one hyphen may stand for. -/
def shortCandidates (g : Grammar) (s : String) : List Word :=
  let short := String.ofList (s.toList.take 2)
  g.names.filterMap fun entry =>
    if entry.1 == short then
      some (.option entry.2 entry.1 (some { equals := false, text := s.toList.drop 2 }))
    else if entry.1.startsWith s then some (.option entry.2 entry.1 none)
    else none

/-- Whether a word is a negative number. -/
def isNegativeNumber (cs : List Char) : Bool :=
  match cs with
  | '-' :: rest =>
    match rest.dropWhile isDecimal with
    | [] => !rest.isEmpty
    | '.' :: fraction => !fraction.isEmpty && fraction.all isDecimal
    | _ => false
  | _ => false

/-- What a word with a hyphen is that is no complete option. -/
def guessWord (g : Grammar) (s : String) : Except Stop Word :=
  match if s.startsWith "--" then longCandidates g s else shortCandidates g s with
  | [word] => .ok word
  | _ :: _ => .error .refused
  | [] => .ok (if isNegativeNumber s.toList || s.toList.contains ' ' then .operand else .unknown)

/-- What a word is. -/
def wordOf (g : Grammar) (s : String) : Except Stop Word :=
  if !s.startsWith "-" || s == "-" then .ok .operand
  else match g.find? s with
    | some spec => .ok (.option spec s none)
    | none =>
      let (start, value) := cut '=' s
      match value, g.find? start with
      | some value, some spec =>
        .ok (.option spec start (some { equals := true, text := value.toList }))
      | _, _ => guessWord g s

/-- What the words of a command line are. -/
def wordsOf (g : Grammar) : List String → Except Stop (List (String × Word))
  | [] => .ok []
  | s :: rest =>
    if s == "--" then .ok ((s, .separator) :: rest.map fun s => (s, .operand))
    else do
      let word ← wordOf g s
      return (s, word) :: (← wordsOf g rest)

/-! ## Options -/

/-- An option with its value. -/
structure Item where
  spec : Spec
  value : String

/-- How the options of one word end. -/
inductive Ending where
  | complete
  /-- The last one takes the next word. -/
  | needsWord (spec : Spec)
  /-- What is left is no option. -/
  | unknown

/-- An option without a value. -/
def flag (spec : Spec) : Item :=
  { spec, value := "" }

/-- The options that start with one that has no text attached. -/
def bare (spec : Spec) : List Item × Ending :=
  if spec.takesValue then ([], .needsWord spec) else ([flag spec], .complete)

/-- The options of a word that starts with a short one, which has a text attached: its value,
or further short options. -/
def cluster (g : Grammar) (spec : Spec) (equals : Bool) :
    List Char → Except Stop (List Item × Ending)
  | [] => if spec.takesValue then .ok ([{ spec, value := "" }], .complete) else .error .refused
  | c :: rest =>
    if spec.takesValue then .ok ([{ spec, value := String.ofList (c :: rest) }], .complete)
    else if equals || c == '-' then .error .refused
    else match g.find? (String.ofList ['-', c]) with
      | none => .ok ([flag spec], .unknown)
      | some next =>
        match rest with
        | [] => .ok (flag spec :: (bare next).1, (bare next).2)
        | d :: rest =>
          (if d == '=' then cluster g next true rest else cluster g next false (d :: rest)).map
            fun (items, ending) => (flag spec :: items, ending)

/-- The options of a word. -/
def optionsOf (g : Grammar) (spec : Spec) (name : String) (attached : Option Attached) :
    Except Stop (List Item × Ending) :=
  match attached with
  | none => .ok (bare spec)
  | some a =>
    if spec.takesValue || !name.startsWith "--" then cluster g spec a.equals a.text
    else .error .refused

/-! ## Reading -/

/-- What has been read of a command line. -/
structure Reading where
  /-- The options in order, by their names. -/
  settings : List (String × String)
  operand : Option String
  /-- Whether an operand may still come. -/
  awaits : Bool
  /-- Whether there was a word that is not in the grammar. -/
  unknown : Bool
  /-- The words that are left to a command. -/
  rest : List String

namespace Reading

/-- Nothing has been read. -/
def start : Reading :=
  { settings := [], operand := none, awaits := true, unknown := false, rest := [] }

/-- Act on an option. -/
def perform (r : Reading) (item : Item) : Except Stop Reading :=
  match item.spec.stops with
  | some stop => .error stop
  | none =>
    if item.spec.accepts item.value then
      .ok { r with settings := r.settings ++ [(item.spec.name, item.value)] }
    else .error .refused

/-- Act on some options in order. -/
def performAll (r : Reading) (items : List Item) : Except Stop Reading :=
  items.foldlM perform r

/-- Take an operand. -/
def take (r : Reading) (s : String) : Reading :=
  { r with operand := some s, awaits := false }

/-- The value that an option was given last. -/
def last? (r : Reading) (name : String) : Option String :=
  (r.settings.reverse.find? (·.1 == name)).map (·.2)

/-- All values that an option was given. -/
def all (r : Reading) (name : String) : List String :=
  (r.settings.filter (·.1 == name)).map (·.2)

/-- Whether an option was given. -/
def has (r : Reading) (name : String) : Bool :=
  (r.last? name).isSome

end Reading

/-- Read the words of a command line. -/
def readWords (g : Grammar) (r : Reading) : List (String × Word) → Except Stop Reading
  | [] => .ok r
  | (_, .unknown) :: rest => readWords g { r with unknown := true } rest
  | (_, .option spec name attached) :: rest =>
    match optionsOf g spec name attached, rest with
    | .error stop, _ => .error stop
    | .ok (items, .complete), rest => do readWords g (← r.performAll items) rest
    | .ok (items, .unknown), rest => do
      let r ← r.performAll items
      readWords g { r with unknown := true } rest
    | .ok (items, .needsWord last), (s, .operand) :: rest => do
      readWords g (← r.performAll (items ++ [{ spec := last, value := s }])) rest
    | .ok (_, .needsWord _), _ => .error .refused
  | (_, .separator) :: rest =>
    match g.operands, r.awaits, rest with
    | .command _, _, [] => .ok { r with unknown := true }
    | .command _, _, _ => .error .refused
    | _, true, (s, _) :: rest => readWords g (r.take s) rest
    | .optional, true, [] => .ok { r with awaits := false }
    | _, _, _ => .ok { r with unknown := true }
  | (s, .operand) :: rest =>
    match g.operands, r.awaits, rest with
    | .command names, _, rest =>
      if names.contains s then .ok { r.take s with rest := rest.map (·.1) } else .error .refused
    | _, true, (_, .separator) :: rest => readWords g (r.take s) rest
    | _, true, rest => readWords g (r.take s) rest
    | _, false, rest => readWords g { r with unknown := true } rest

/-- Read a command line. An operand that is required has to be there. -/
def read (g : Grammar) (args : List String) : Except Stop Reading := do
  let r ← readWords g .start (← wordsOf g args)
  if g.operands == .required && r.awaits then .error .refused else return r

end DocFlatten.CommandLine
