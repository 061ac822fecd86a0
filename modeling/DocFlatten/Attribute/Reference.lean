import DocFlatten.Attribute.Entry
import DocFlatten.Log.Record
import DocFlatten.Value

/-! # Attribute references

`{name}` in a text stands for the value of an attribute; a backslash in front keeps
the reference as it is. A text is first cut into pieces from left to right, then each piece
is expanded by itself, so inserted values are never scanned again.
-/

namespace DocFlatten.Attribute

open DocFlatten.Text

/-- A part of a text: one plain character, or a reference with or without a backslash. -/
inductive Piece where
  | plain (c : Char)
  | reference (escaped : Bool) (name : List Char)
  deriving Repr, DecidableEq

/-- The characters of a reference. -/
def braced (name : List Char) : List Char :=
  '\x7b' :: name ++ ['\x7d']

/-- The characters of a piece. -/
def Piece.chars : Piece → List Char
  | .plain c => [c]
  | .reference true name => '\\' :: braced name
  | .reference false name => braced name

/-- What follows an opening brace if it starts a reference: its name and the rest. -/
def takeReference? (cs : List Char) : Option (List Char × List Char) :=
  match takeName? cs with
  | some (name, '\x7d' :: rest) => some (name, rest)
  | _ => none

/-- The piece at the start of a text, and the rest. -/
def takePiece (c : Char) (cs : List Char) : Piece × List Char :=
  match c, cs with
  | '\x7b', rest =>
    match takeReference? rest with
    | some (name, rest) => (.reference false name, rest)
    | none => (.plain c, cs)
  | '\\', '\x7b' :: rest =>
    match takeReference? rest with
    | some (name, rest) => (.reference true name, rest)
    | none => (.plain c, cs)
  | _, _ => (.plain c, cs)

theorem takeName?_append {cs name rest : List Char} (h : takeName? cs = some (name, rest)) :
    name ++ rest = cs := by
  unfold takeName? at h
  split at h
  · split at h
    · simp only [Option.some.injEq, Prod.mk.injEq] at h
      rw [← h.1, ← h.2, List.takeWhile_append_dropWhile]
    · simp at h
  · simp at h

theorem takeReference?_append {cs name rest : List Char}
    (h : takeReference? cs = some (name, rest)) : name ++ '\x7d' :: rest = cs := by
  unfold takeReference? at h
  split at h
  · next name' rest' heq =>
    simp only [Option.some.injEq, Prod.mk.injEq] at h
    rw [← h.1, ← h.2]
    exact takeName?_append heq
  · simp at h

/-- A piece and the rest make up the text it was taken from. -/
theorem takePiece_append (c : Char) (cs : List Char) :
    (takePiece c cs).1.chars ++ (takePiece c cs).2 = c :: cs := by
  unfold takePiece
  split
  · split
    · next heq => simp [Piece.chars, braced, ← takeReference?_append heq]
    · rfl
  · split
    · next heq => simp [Piece.chars, braced, ← takeReference?_append heq]
    · rfl
  · rfl

theorem takePiece_length (c : Char) (cs : List Char) :
    (takePiece c cs).2.length < (c :: cs).length := by
  have h := congrArg List.length (takePiece_append c cs)
  have hpos : 0 < (takePiece c cs).1.chars.length := by
    generalize (takePiece c cs).1 = piece
    match piece with
    | .plain _ => simp [Piece.chars]
    | .reference true _ => simp [Piece.chars]
    | .reference false _ => simp [Piece.chars, braced]
  rw [List.length_append] at h
  omega

/-- The pieces of a text, from left to right. -/
def pieces : List Char → List Piece
  | [] => []
  | c :: cs => (takePiece c cs).1 :: pieces (takePiece c cs).2
termination_by cs => cs.length
decreasing_by exact takePiece_length c cs

/-- Nothing is lost in cutting a text into pieces. -/
theorem flatMap_chars_pieces (cs : List Char) : (pieces cs).flatMap Piece.chars = cs := by
  fun_induction pieces cs with
  | case1 => rfl
  | case2 c cs ih => rw [List.flatMap_cons, ih, takePiece_append]

/-! ## Values -/

/-- The attributes that every document defines: replacements for single characters. -/
def intrinsic : Attributes := [
  ("startsb", "["), ("endsb", "]"), ("vbar", "|"), ("caret", "^"), ("asterisk", "*"),
  ("tilde", "~"), ("plus", "&#43;"), ("backslash", "\\"), ("backtick", "\x60"), ("blank", ""),
  ("empty", ""), ("sp", " "), ("two-colons", "::"), ("two-semicolons", ";;"),
  ("nbsp", "&#160;"), ("deg", "&#176;"), ("zwsp", "&#8203;"), ("quot", "&#34;"),
  ("apos", "&#39;"), ("lsquo", "&#8216;"), ("rsquo", "&#8217;"), ("ldquo", "&#8220;"),
  ("rdquo", "&#8221;"), ("wj", "&#8288;"), ("brvbar", "&#166;"), ("pp", "&#43;&#43;"),
  ("cpp", "C++"), ("amp", "&"), ("lt", "<"), ("gt", ">")]

/-- The value of a name: the document's own, otherwise the intrinsic one. -/
def resolve? (attributes : Attributes) (name : String) : Option String :=
  Mapping.get? attributes name <|> Mapping.get? intrinsic name

/-- What becomes of a reference to an attribute that is not defined. -/
inductive Missing where
  /-- The reference stays. -/
  | skip
  /-- The reference stays and is reported. -/
  | warn
  /-- The reference vanishes. -/
  | drop
  /-- The whole line vanishes. -/
  | dropLine
  deriving Repr, DecidableEq

/-- The treatment that a name stands for; any other name means `skip`. -/
def Missing.ofName (name : String) : Missing :=
  if name == "drop-line" then .dropLine
  else if name == "drop" then .drop
  else if name == "warn" then .warn
  else .skip

/-- The name of the treatment that the attributes ask for. -/
def missingName (attributes : Attributes) : String :=
  match Mapping.get? attributes "attribute-missing" with
  | some name => if name == "" then "skip" else name
  | none => "skip"

/-- The treatment that the attributes ask for. -/
def Missing.ofAttributes (attributes : Attributes) : Missing :=
  .ofName (missingName attributes)

/-- The attributes that values of any kind stand for: each is shown as text. -/
def ofValues (values : Mapping Value) : Attributes :=
  values.map fun entry => (entry.1, entry.2.display)

/-! ## Expansion -/

/-- The lower-case name under which a reference looks up its attribute. -/
def lookupName (name : List Char) : String :=
  lower (String.ofList name)

/-- The name that a piece refers to, if no attribute has it. -/
def Piece.missing? (attributes : Attributes) : Piece → Option String
  | .reference false name =>
    if (resolve? attributes (lookupName name)).isSome then none else some (lookupName name)
  | _ => none

/-- What a piece becomes. -/
def Piece.expand (mode : Missing) (attributes : Attributes) : Piece → List Char
  | .plain c => [c]
  | .reference true name => braced name
  | .reference false name =>
    match resolve? attributes (lookupName name) with
    | some value => value.toList
    | none =>
      match mode with
      | .drop | .dropLine => []
      | .skip | .warn => braced name

/-- The names that a text refers to and no attribute has, in order. -/
def missingNames (attributes : Attributes) (text : String) : List String :=
  (pieces text.toList).filterMap (Piece.missing? attributes)

/-- The text with its references replaced; nothing if a missing one drops the line. -/
def substitute? (mode : Missing) (attributes : Attributes) (text : String) : Option String :=
  if mode == .dropLine && !(missingNames attributes text).isEmpty then none
  else some (String.ofList ((pieces text.toList).flatMap (Piece.expand mode attributes)))

/-- What substitution reports about missing attributes. -/
def substituteLog (mode : Missing) (attributes : Attributes) (text : String) : List Log.Record :=
  match mode with
  | .dropLine => (missingNames attributes text).map fun name =>
      Log.debug .attributes ("dropping line containing reference to missing attribute: " ++ name)
  | .warn => (missingNames attributes text).map fun name =>
      Log.warning .attributes ("skipping reference to missing attribute: " ++ name)
  | .skip | .drop => []

end DocFlatten.Attribute
