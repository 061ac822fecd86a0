import DocFlatten.Text.Blank
import DocFlatten.Text.Digit
import DocFlatten.Text.Quoted

/-! # Reading integers

An integer is written with a sign or without one, in decimal digits of any script, single
underscores between digits and padding around it allowed. Texts of more than 4300 digits
are refused.
-/

namespace DocFlatten.Number

open DocFlatten.Text

/-- Why a text is no integer. -/
inductive IntegerError where
  | malformed (text : String)
  | tooLong (digits : Nat)
  deriving Repr, DecidableEq

/-- The number of digits from which on an integer is refused. -/
def digitLimit : Nat := 4300

/-- The wording of a refusal; a long text is cut. -/
def IntegerError.message : IntegerError → String
  | .malformed text =>
    s!"invalid literal for int() with base 10: {String.ofList ((quoted text).toList.take 200)}"
  | .tooLong digits =>
    s!"Exceeds the limit ({digitLimit} digits) for integer string conversion: " ++
      s!"value has {digits} digits; use sys.set_int_max_str_digits() to increase the limit"

/-- The digits at the start of a text, underscores between two of them left out, and what
follows them. -/
def scanDigits : List Char → List Nat × List Char
  | [] => ([], [])
  | c :: rest =>
    match digitValue? c with
    | some d => ((scanDigits rest).1.cons d, (scanDigits rest).2)
    | none =>
      match c, rest with
      | '_', next :: _ => if isDecimal next then scanDigits rest else ([], c :: rest)
      | _, _ => ([], c :: rest)

/-- The number that decimal digits spell. -/
def ofDigits (digits : List Nat) : Nat :=
  digits.foldl (fun n d => 10 * n + d) 0

/-- A sign in front of a text: whether it is a minus, and the text after it. -/
def takeSign : List Char → Bool × List Char
  | '-' :: rest => (true, rest)
  | '+' :: rest => (false, rest)
  | cs => (false, cs)

theorem takeSign_subset (cs : List Char) : (takeSign cs).2 ⊆ cs := by
  unfold takeSign
  split
  · exact List.subset_cons_self _ _
  · exact List.subset_cons_self _ _
  · exact List.Subset.refl _

theorem mem_takeSign {c : Char} {cs : List Char} (h : c ∈ cs) (hminus : c ≠ '-') (hplus : c ≠ '+') :
    c ∈ (takeSign cs).2 := by
  unfold takeSign
  split
  · exact (List.mem_cons.mp h).resolve_left hminus
  · exact (List.mem_cons.mp h).resolve_left hplus
  · exact h

/-- A character that may surround an integer: a blank, but no ASCII separator. -/
def isPadding (c : Char) : Bool :=
  isBlank c && !(28 ≤ c.toNat && c.toNat ≤ 31)

/-- The integer that a text spells. -/
def readInteger (s : String) : Except IntegerError Int :=
  let (negative, body) := takeSign (dropEndWhile isPadding (s.toList.dropWhile isPadding))
  let (digits, rest) := if body.head? == some '_' then ([], body) else scanDigits body
  if digits.length > digitLimit then .error (.tooLong digits.length)
  else if digits.isEmpty || !rest.isEmpty then .error (.malformed s)
  else .ok (if negative then -Int.ofNat (ofDigits digits) else Int.ofNat (ofDigits digits))

/-- Whether a text is an optional sign and decimal digits, nothing else. -/
def isPlainInteger (cs : List Char) : Bool :=
  let body := (takeSign cs).2
  !body.isEmpty && body.all isDecimal

end DocFlatten.Number
