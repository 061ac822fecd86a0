/-! # Reading UTF-8

Bytes are decoded strictly. What cannot be decoded is reported with the bytes concerned
and the reason: a byte that starts no character, a byte that does not continue one, or an
end in the middle of one.
-/

namespace DocFlatten.Text

/-- Why bytes are no UTF-8. -/
inductive Utf8Reason where
  | invalidStart
  | invalidContinuation
  | unexpectedEnd
  deriving Repr, DecidableEq

/-- Bytes that cannot be decoded, from index `first` up to and with `last`. -/
structure Utf8Error where
  first : Nat
  last : Nat
  byte : UInt8
  reason : Utf8Reason
  deriving Repr, DecidableEq

/-- The wording of a reason. -/
def Utf8Reason.message : Utf8Reason → String
  | .invalidStart => "invalid start byte"
  | .invalidContinuation => "invalid continuation byte"
  | .unexpectedEnd => "unexpected end of data"

/-- Two lower-case hexadecimal digits. -/
def hexByte (b : UInt8) : String :=
  let digits := Nat.toDigits 16 b.toNat
  String.ofList (if digits.length < 2 then '0' :: digits else digits)

/-- One byte is named by its value, several by their positions. -/
def Utf8Error.message (e : Utf8Error) : String :=
  if e.first == e.last then
    s!"'utf-8' codec can't decode byte 0x{hexByte e.byte} in position {e.first}: {e.reason.message}"
  else
    s!"'utf-8' codec can't decode bytes in position {e.first}-{e.last}: {e.reason.message}"

/-- The number of bytes that follow a start byte, its payload bits, and the range of the
first byte that follows it. -/
def startByte? (b : UInt8) : Option (Nat × Nat × Nat × Nat) :=
  let n := b.toNat
  if n < 0x80 then some (0, n, 0x80, 0xbf)
  else if n < 0xc2 then none
  else if n < 0xe0 then some (1, n - 0xc0, 0x80, 0xbf)
  else if n == 0xe0 then some (2, 0, 0xa0, 0xbf)
  else if n == 0xed then some (2, 0xd, 0x80, 0x9f)
  else if n < 0xf0 then some (2, n - 0xe0, 0x80, 0xbf)
  else if n == 0xf0 then some (3, 0, 0x90, 0xbf)
  else if n < 0xf4 then some (3, n - 0xf0, 0x80, 0xbf)
  else if n == 0xf4 then some (3, 4, 0x80, 0x8f)
  else none

/-- How far a character has been decoded. -/
structure Utf8Pending where
  /-- Index of the start byte. -/
  start : Nat
  /-- The start byte. -/
  byte : UInt8
  /-- Bytes still to come. -/
  missing : Nat
  /-- Bits read so far. -/
  bits : Nat
  /-- Range of the next byte. -/
  low : Nat
  high : Nat

/-- Decode bytes from index `i` on, in the middle of the pending character if there is one. -/
def decodeFrom (i : Nat) : Option Utf8Pending → List UInt8 → Except Utf8Error (List Char)
  | none, [] => .ok []
  | some p, [] => .error ⟨p.start, i - 1, p.byte, .unexpectedEnd⟩
  | some p, b :: rest =>
    let n := b.toNat
    if p.low ≤ n && n ≤ p.high then
      let bits := p.bits * 64 + (n - 0x80)
      if p.missing ≤ 1 then (decodeFrom (i + 1) none rest).map (Char.ofNat bits :: ·)
      else decodeFrom (i + 1)
        (some { p with missing := p.missing - 1, bits := bits, low := 0x80, high := 0xbf }) rest
    else .error ⟨p.start, i - 1, p.byte, .invalidContinuation⟩
  | none, b :: rest =>
    match startByte? b with
    | none => .error ⟨i, i, b, .invalidStart⟩
    | some (0, bits, _, _) => (decodeFrom (i + 1) none rest).map (Char.ofNat bits :: ·)
    | some (missing, bits, low, high) =>
      decodeFrom (i + 1) (some ⟨i, b, missing, bits, low, high⟩) rest

/-- The text that bytes encode. -/
def decodeUtf8 (bytes : List UInt8) : Except Utf8Error String :=
  (decodeFrom 0 none bytes).map String.ofList

/-- How many bytes a text has when it is encoded. -/
def byteLength (s : String) : Nat :=
  s.toList.foldl (fun n c => n + c.utf8Size) 0

end DocFlatten.Text
