import DocFlatten.Number.Integer

/-! # Decimal text of binary fractions

A finite binary fraction is written with the fewest decimal digits that read back as the
same number, of several candidates the nearest. Numbers from a ten-thousandth up to ten to
the sixteenth are written positionally, others with an exponent of at least two digits.
-/

namespace DocFlatten.Number

open DocFlatten.Text

/-- A binary fraction taken apart: the value is `mantissa * 2 ^ exponent`. -/
inductive Parts where
  | nan
  | infinite (negative : Bool)
  | finite (negative : Bool) (mantissa : Nat) (exponent : Int)
  deriving Repr, DecidableEq

/-- The parts of the double with the given bits. -/
def Parts.ofBits (bits : Nat) : Parts :=
  let negative : Bool := bits / Nat.pow 2 63 % 2 == 1
  let field : Nat := bits / Nat.pow 2 52 % Nat.pow 2 11
  let fraction : Nat := bits % Nat.pow 2 52
  if field == 2047 then (if fraction == 0 then .infinite negative else .nan)
  else if field == 0 then .finite negative fraction (-1074)
  else .finite negative (Nat.pow 2 52 + fraction) ((field : Int) - 1075)

/-- The parts of a double. -/
def Parts.ofFloat (x : Float) : Parts :=
  .ofBits x.toBits.toNat

/-- The whole number `n * 2 ^ e` over a denominator: numerator and denominator of a fraction. -/
def scaled (n : Nat) (e : Int) : Nat × Nat :=
  if e ≥ 0 then (n * Nat.pow 2 e.toNat, 1) else (n, Nat.pow 2 (-e).toNat)

/-- Twice as fine a grid on which the number, and the middles between it and its neighbours,
are whole: the lower middle, the number and the upper middle, all times `2 ^ (exponent - 2)`. -/
def interval (mantissa : Nat) (exponent : Int) : Nat × Nat × Nat :=
  let below := if mantissa == Nat.pow 2 52 && exponent > -1074 then 4 * mantissa - 1 else 4 * mantissa - 2
  (below, 4 * mantissa, 4 * mantissa + 2)

/-- A decimal number: `digits` as a whole number times ten to the `exponent`. -/
structure Decimal where
  digits : Nat
  exponent : Int
  deriving Repr, DecidableEq

/-- A decimal as numerator and denominator. -/
def Decimal.ratio (d : Decimal) : Nat × Nat :=
  if d.exponent ≥ 0 then (d.digits * Nat.pow 10 d.exponent.toNat, 1)
  else (d.digits, Nat.pow 10 (-d.exponent).toNat)

/-- The candidates on the decimal grid of spacing `10 ^ e`: the two neighbours of the number. -/
def neighbours (value : Nat × Nat) (e : Int) : Decimal × Decimal :=
  let quotient := if e ≥ 0 then value.1 / (value.2 * Nat.pow 10 e.toNat)
    else value.1 * Nat.pow 10 (-e).toNat / value.2
  (⟨quotient, e⟩, ⟨quotient + 1, e⟩)

/-- Whether a fraction lies below another one. -/
def ratioLt (a b : Nat × Nat) : Bool :=
  a.1 * b.2 < b.1 * a.2

/-- The distance of two fractions. -/
def ratioDistance (a b : Nat × Nat) : Nat × Nat :=
  let x := a.1 * b.2
  let y := b.1 * a.2
  (if x ≤ y then y - x else x - y, a.2 * b.2)

/-- The nearest decimal on the grid `10 ^ e` that reads back as the number, if there is one. -/
def candidate? (mantissa : Nat) (exponent : Int) (e : Int) : Option Decimal :=
  let (low, mid, high) := interval mantissa exponent
  let value := scaled mid (exponent - 2)
  let lower := scaled low (exponent - 2)
  let upper := scaled high (exponent - 2)
  let closed := mantissa % 2 == 0
  let readsBack (d : Decimal) : Bool :=
    if closed then !ratioLt d.ratio lower && !ratioLt upper d.ratio
    else ratioLt lower d.ratio && ratioLt d.ratio upper
  let (down, up) := neighbours value e
  match readsBack down, readsBack up with
  | true, true =>
    if ratioLt (ratioDistance up.ratio value) (ratioDistance down.ratio value) then some up
    else if ratioLt (ratioDistance down.ratio value) (ratioDistance up.ratio value) then some down
    else if down.digits % 2 == 0 then some down else some up
  | true, false => some down
  | false, true => some up
  | false, false => none

/-- The exponent of the leading decimal digit of a positive fraction. -/
def leadingExponent (value : Nat × Nat) : Int :=
  let quotient := value.1 / value.2
  if quotient > 0 then (Nat.toDigits 10 quotient).length - 1
  else
    -- below one: scale up far enough for the smallest double, and count from there
    ((Nat.toDigits 10 (value.1 * Nat.pow 10 400 / value.2)).length : Int) - 401

/-- The shortest decimal that reads back as `mantissa * 2 ^ exponent`, for a positive mantissa. -/
def shortest (mantissa : Nat) (exponent : Int) : Decimal :=
  let value := scaled mantissa exponent
  let top := leadingExponent value
  ((List.range 18).findSome? fun (n : Nat) => candidate? mantissa exponent (top - n)).getD
    ⟨value.1 / value.2, 0⟩

/-- A decimal without trailing zeros in its digits. -/
def Decimal.normalize (d : Decimal) : Decimal :=
  let digits := Nat.toDigits 10 d.digits
  let kept := dropEndWhile (· == '0') digits
  if kept.isEmpty then ⟨0, 0⟩
  else
    let zeros := digits.length - kept.length
    ⟨d.digits / Nat.pow 10 zeros, d.exponent + (zeros : Nat)⟩

/-- The text of a positive decimal: positional while the exponent of the leading digit is
from -4 to 15, otherwise with an exponent. -/
def Decimal.layout (d : Decimal) : String :=
  let d := d.normalize
  let digits := Nat.toDigits 10 d.digits
  let top : Int := d.exponent + digits.length - 1
  String.ofList <|
    if -4 ≤ top && top < 16 then
      if d.exponent ≥ 0 then digits ++ List.replicate d.exponent.toNat '0' ++ ['.', '0']
      else if top ≥ 0 then digits.take (top.toNat + 1) ++ '.' :: digits.drop (top.toNat + 1)
      else '0' :: '.' :: List.replicate (-top - 1).toNat '0' ++ digits
    else
      let power := Nat.toDigits 10 top.natAbs
      let sign := if top < 0 then '-' else '+'
      let mark := ['e', sign] ++ List.replicate (2 - power.length) '0' ++ power
      match digits with
      | [] => mark
      | [first] => first :: mark
      | first :: rest => first :: '.' :: rest ++ mark

/-- The text of a number that is given by its parts. -/
def Parts.text : Parts → String
  | .nan => "nan"
  | .infinite negative => if negative then "-inf" else "inf"
  | .finite negative mantissa exponent =>
    (if negative then "-" else "") ++
      (if mantissa == 0 then "0.0" else (shortest mantissa exponent).layout)

/-- The text of a double. -/
def floatText (x : Float) : String :=
  (Parts.ofFloat x).text

/-! ## Reading -/

/-- A double from a sign, the digits before the point, those after it and an exponent. An
exponent so large or small that it no longer matters is cut off. -/
def floatOf (negative : Bool) (whole fraction : List Nat) (exponent : Int) : Float :=
  let digits : Int := whole.length + fraction.length
  let e := max (-digits - 400) (min 400 (exponent - fraction.length))
  let x := Float.ofScientific (ofDigits (whole ++ fraction)) (e < 0) e.natAbs
  if negative then -x else x

/-- Read a decimal point with digits on at least one side of it, and a sign before it. -/
def readPointed? (cs : List Char) : Option Float :=
  let (negative, body) := takeSign cs
  let whole := body.takeWhile isDecimal
  match body.dropWhile isDecimal with
  | '.' :: fraction =>
    if fraction.all isDecimal && !(whole.isEmpty && fraction.isEmpty) then
      some (floatOf negative (whole.filterMap digitValue?) (fraction.filterMap digitValue?) 0)
    else none
  | _ => none

/-! ## Comparison -/

/-- The order of a whole number and a finite `mantissa * 2 ^ exponent`, exactly. -/
def compareInt (n : Int) : Parts → Option Ordering
  | .nan => none
  | .infinite negative => some (if negative then .gt else .lt)
  | .finite negative mantissa exponent =>
    let m : Int := if negative then -(mantissa : Int) else mantissa
    some <|
      if exponent ≥ 0 then compare n (m * Nat.pow 2 exponent.toNat)
      else compare (n * Nat.pow 2 (-exponent).toNat) m

end DocFlatten.Number
