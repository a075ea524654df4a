import StorePlan.Number.Binary
import StorePlan.Text.Numeral

/-
Numbers written with a sign, decimal digits, a point and a power of ten, and
the nearest binary number to such a text.
-/

namespace StorePlan.Number

open Text

/-- `± coefficient · 10^exponent`. -/
structure Scientific where
  negative : Bool
  coefficient : Nat
  exponent : Int
deriving DecidableEq

namespace Scientific

/-- The number nearest to `x`. Exponents far outside the format are answered without computing
the power. -/
def toBinary {f : BinaryFormat} (x : Scientific) : BinaryFloat f :=
  let size := (digitCount x.coefficient : Int) + x.exponent
  if x.coefficient = 0 ∨ size < -(f.scale + 1 : Int) then .finite x.negative .zero
  else if (f.maxStep : Int) < size - 1 then .infinite x.negative
  else
    .ofRatio x.negative (x.coefficient * Nat.pow 10 x.exponent.toNat)
      (Nat.pow 10 (-x.exponent).toNat)

/-- Splits off a sign. -/
def readSign : List Char → Bool × List Char
  | '-' :: cs => (true, cs)
  | '+' :: cs => (false, cs)
  | cs => (false, cs)

/-- A power of ten after the letter `e`, which may be missing. -/
def readExponent? : List Char → Option Int
  | [] => some 0
  | c :: cs =>
    if c = 'e' ∨ c = 'E' then
      let (negative, cs) := readSign cs
      (readDigits? cs).map fun n => if negative then -(n : Int) else n
    else none

/-- Digits with at most one point among them, and at least one digit, then a power of ten. -/
def read? (cs : List Char) : Option Scientific := do
  let (negative, cs) := readSign cs
  let whole := cs.takeWhile isDigit
  let (fraction, rest) :=
    match cs.dropWhile isDigit with
    | '.' :: cs => (cs.takeWhile isDigit, cs.dropWhile isDigit)
    | cs => ([], cs)
  let coefficient ← readDigits? (whole ++ fraction)
  let exponent ← readExponent? rest
  return ⟨negative, coefficient, exponent - fraction.length⟩

end Scientific

/-- A number text, or one of the words `nan`, `inf` and `infinity` in any case. -/
def BinaryFloat.read? {f : BinaryFormat} (s : String) : Option (BinaryFloat f) :=
  let cs := s.toList
  let (negative, rest) := Scientific.readSign cs
  match String.ofList (rest.map Char.toLower) with
  | "nan" => some .nan
  | "inf" => some (.infinite negative)
  | "infinity" => some (.infinite negative)
  | _ => (Scientific.read? cs).map (·.toBinary)

end StorePlan.Number
