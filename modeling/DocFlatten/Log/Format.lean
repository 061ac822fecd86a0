import DocFlatten.Log.Record
import DocFlatten.Text.Digit
import DocFlatten.Text.Quoted
import DocFlatten.Text.Word

/-! # Formats of log records

A format is a text with fields such as `%(message)s`. A field names what it shows; between
the name and the letter of its kind stand flags, a width and a precision. A doubled percent
sign stands for itself.
-/

namespace DocFlatten.Log

open DocFlatten.Text

/-- A record as it is written: its level by number, the name of its topic and its message. -/
structure Entry where
  level : Int
  name : String
  message : String
  deriving Repr, DecidableEq

/-- A record of the library as it is written. -/
def Record.entry (r : Record) : Entry :=
  { level := r.level.number, name := r.topic.name, message := r.message }

/-- The names of levels, with their numbers. -/
def levelNumbers : List (String × Int) := [
  ("CRITICAL", 50), ("FATAL", 50), ("ERROR", 40), ("WARNING", 30), ("WARN", 30), ("INFO", 20),
  ("DEBUG", 10), ("NOTSET", 0)]

/-- The name of a level by its number: the first one of several, a general one if there is
none. -/
def levelName (level : Int) : String :=
  match levelNumbers.find? (·.2 == level) with
  | some entry => entry.1
  | none => s!"Level {level}"

/-! ## Fields -/

/-- What a field shows. -/
inductive FieldValue where
  | text (s : String)
  | number (n : Int)

/-- What the field with a name shows of a record. -/
def Entry.field? (e : Entry) (name : String) : Option FieldValue :=
  if name == "message" then some (.text e.message)
  else if name == "levelname" then some (.text (levelName e.level))
  else if name == "name" then some (.text e.name)
  else if name == "levelno" then some (.number e.level)
  else none

/-- How a field is laid out. -/
structure Layout where
  flags : List Char
  width : Option (List Char)
  precision : Option (List Char)

/-- A flag of a field. -/
def isFlag (c : Char) : Bool :=
  c == '#' || c == '0' || c == '+' || c == ' ' || c == '-'

/-- A width or precision at the start of a text: a star, or decimal digits. -/
def takeSize (cs : List Char) : Option (List Char) × List Char :=
  match cs with
  | '*' :: rest => (some ['*'], rest)
  | _ =>
    let digits := cs.takeWhile isDecimal
    if digits.isEmpty then (none, cs) else (some digits, cs.drop digits.length)

/-- A layout at the start of a text. A point without a precision is no part of it. -/
def takeLayout (cs : List Char) : Layout × List Char :=
  let flags := cs.takeWhile isFlag
  let (width, rest) := takeSize (cs.drop flags.length)
  match rest with
  | '.' :: after =>
    match takeSize after with
    | (some precision, rest) => ({ flags, width, precision := some precision }, rest)
    | (none, _) => ({ flags, width, precision := none }, rest)
  | _ => ({ flags, width, precision := none }, rest)

/-- The number that a width or precision spells. -/
def sizeOf? (digits : List Char) : Option Nat :=
  if digits.all isDecimal then
    some ((digits.filterMap digitValue?).foldl (fun n d => 10 * n + d) 0)
  else none

/-- The letters of the kinds of fields. -/
def isKind (c : Char) : Bool :=
  "diouxefgcrsa%".toList.contains c.toLower

/-- A field after its percent sign and opening bracket: its name, layout and kind. -/
def takeField? (cs : List Char) : Option (List Char × Layout × Char × List Char) :=
  let name := cs.takeWhile (· != ')')
  match cs.drop name.length with
  | ')' :: rest =>
    match takeLayout rest with
    | (layout, kind :: rest) => some (name, layout, kind, rest)
    | (_, []) => none
  | _ => none

/-- Whether a field starts here that every format needs at least one of. -/
def startsField (cs : List Char) : Bool :=
  match cs with
  | '%' :: '(' :: rest =>
    match takeField? rest with
    | some (name, _, kind, _) => !name.isEmpty && name.all isWord && isKind kind
    | none => false
  | _ => false

/-- Whether a format has a field. -/
def hasField : List Char → Bool
  | [] => false
  | c :: cs => startsField (c :: cs) || hasField cs

/-! ## Writing -/

/-- A text in a column of some width. -/
def pad (width : Nat) (left : Bool) (cs : List Char) : List Char :=
  let blanks := List.replicate (width - cs.length) ' '
  if left then cs ++ blanks else blanks ++ cs

/-- The text of a field of a kind that shows texts. -/
def textField (layout : Layout) (width : Nat) (s : String) : Option (List Char) := do
  let cs ← match layout.precision with
    | some digits => (sizeOf? digits).map fun n => s.toList.take n
    | none => some s.toList
  return pad width (layout.flags.contains '-') cs

/-- The text of a field of a kind that shows whole numbers. -/
def numberField (layout : Layout) (width : Nat) (n : Int) : Option (List Char) := do
  let least ← match layout.precision with
    | some digits => sizeOf? digits
    | none => some 0
  let digits := Nat.toDigits 10 n.natAbs
  let digits := List.replicate (least - digits.length) '0' ++ digits
  let sign := if n < 0 then ['-'] else if layout.flags.contains '+' then ['+']
    else if layout.flags.contains ' ' then [' '] else []
  if layout.flags.contains '0' && !layout.flags.contains '-' then
    return sign ++ List.replicate (width - sign.length - digits.length) '0' ++ digits
  else return pad width (layout.flags.contains '-') (sign ++ digits)

/-- The text of a field. -/
def fieldText (e : Entry) (name : List Char) (layout : Layout) (kind : Char) :
    Option (List Char) := do
  let width ← match layout.width with
    | some digits => sizeOf? digits
    | none => some 0
  let value ← e.field? (String.ofList name)
  match kind, value with
  | 's', .text s => textField layout width s
  | 's', .number n => textField layout width (toString n)
  | 'r', .text s => textField layout width (quoted s)
  | 'r', .number n => textField layout width (toString n)
  | 'd', .number n | 'i', .number n | 'u', .number n => numberField layout width n
  | _, _ => none

theorem takeSize_length (cs : List Char) : (takeSize cs).2.length ≤ cs.length := by
  unfold takeSize
  split
  · simp
  · dsimp only
    split <;> simp

theorem takeLayout_length (cs : List Char) : (takeLayout cs).2.length ≤ cs.length := by
  have hstart : (takeSize (cs.drop (cs.takeWhile isFlag).length)).2.length ≤ cs.length := by
    have := takeSize_length (cs.drop (cs.takeWhile isFlag).length)
    simp only [List.length_drop] at this
    omega
  unfold takeLayout
  simp only
  generalize takeSize (cs.drop (cs.takeWhile isFlag).length) = first at hstart
  obtain ⟨width, rest⟩ := first
  simp only at hstart ⊢
  split
  · next after =>
    have := takeSize_length after
    generalize takeSize after = second at this
    obtain ⟨precision, rest⟩ := second
    cases precision with
    | none => simp_all
    | some _ =>
      simp_all
      omega
  · exact hstart

theorem takeField?_length {cs name rest : List Char} {layout : Layout} {kind : Char}
    (h : takeField? cs = some (name, layout, kind, rest)) : rest.length < cs.length := by
  unfold takeField? at h
  simp only at h
  split at h
  · next after hafter =>
    have hlen := congrArg List.length hafter
    have hlayout := takeLayout_length after
    simp only [List.length_drop, List.length_cons] at hlen
    split at h
    · next _ _ _ heq =>
      simp only [Option.some.injEq, Prod.mk.injEq] at h
      rw [heq] at hlayout
      simp only [List.length_cons] at hlayout
      rw [← h.2.2.2]
      omega
    · simp at h
  · simp at h

/-- A format with its fields filled in; none if a field cannot be shown. -/
def fill? (e : Entry) : List Char → Option (List Char)
  | [] => some []
  | '%' :: '%' :: rest => (fill? e rest).map ('%' :: ·)
  | '%' :: '(' :: rest =>
    match h : takeField? rest with
    | some (name, layout, kind, rest') => do
      have : rest'.length < rest.length := takeField?_length h
      let shown ← fieldText e name layout kind
      return shown ++ (← fill? e rest')
    | none => none
  | '%' :: _ => none
  | c :: rest => (fill? e rest).map (c :: ·)
termination_by cs => cs.length
decreasing_by all_goals simp only [List.length_cons]; omega

/-- The format that is meant by an empty one. -/
def messageFormat : String := "%(message)s"

/-- A format of records: it has at least one field. -/
structure Format where
  text : String
  hasField_text : hasField text.toList = true

/-- A format without a field. -/
structure InvalidFormat where
  text : String
  deriving Repr, DecidableEq

/-- The wording of the error. -/
def InvalidFormat.message (e : InvalidFormat) : String :=
  s!"Invalid format '{e.text}' for '%' style"

/-- The format that a text spells. -/
def Format.ofText (s : String) : Except InvalidFormat Format :=
  let s := if s == "" then messageFormat else s
  if h : hasField s.toList = true then .ok ⟨s, h⟩ else .error ⟨s⟩

/-- A record as a line; none if a field of the format cannot be shown. -/
def Format.line? (f : Format) (e : Entry) : Option String :=
  (fill? e f.text.toList).map fun cs => String.ofList (cs ++ ['\n'])

end DocFlatten.Log
