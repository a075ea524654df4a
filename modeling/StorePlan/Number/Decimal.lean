import StorePlan.Text.Numeral

/-
Exact decimals: a whole number of units of ten to a negative power. The
units fit 96 bits and the power is at most 28. Zeros at the end of the
fraction are kept, so `1.5` and `1.50` are two decimals of one value.
-/

namespace StorePlan.Number

open Text

/-- The first number of units that is too great, which is 2 to the power of 96. -/
def unitLimit : Nat := 79228162514264337593543950336

/-- `unscaled · 10^-scale`. -/
structure Decimal where
  unscaled : Int
  scale : Nat
  fits : unscaled.natAbs < unitLimit ∧ scale ≤ 28
deriving DecidableEq

namespace Decimal

/-- The decimal with these units, if there is one. -/
def make? (unscaled : Int) (scale : Nat) : Option Decimal :=
  if h : unscaled.natAbs < unitLimit ∧ scale ≤ 28 then some ⟨unscaled, scale, h⟩ else none

/-- A 64-bit integer, without a fraction. -/
def ofInt64 (i : Int64) : Decimal :=
  ⟨i.toInt, 0, by
    have := i.le_toInt
    have := i.toInt_lt
    unfold unitLimit
    omega⟩

/-- Numeric equality, whatever the scales. -/
def eqv (x y : Decimal) : Bool := x.unscaled * Nat.pow 10 y.scale == y.unscaled * Nat.pow 10 x.scale

/-- The text, with exactly `scale` digits behind the point. -/
def text (x : Decimal) : String :=
  let ds := paddedDigits (x.scale + 1) x.unscaled.natAbs
  let fraction := if x.scale = 0 then [] else '.' :: ds.drop (ds.length - x.scale)
  String.ofList
    ((if x.unscaled < 0 then ['-'] else []) ++ ds.take (ds.length - x.scale) ++ fraction)

/-- Value of a decimal digit. -/
def digitValue (c : Char) : Nat := c.toNat - 48

/-- One unit more. Where the units no longer fit, the last digit is rounded off. -/
def roundUp (coefficient scale : Nat) : Nat × Nat :=
  if coefficient + 1 < unitLimit ∨ scale = 0 then (coefficient + 1, scale)
  else ((coefficient + 1 + 4) / 10, scale - 1)

/-- Takes in the digits behind the point. The first one that no longer fits rounds the number, a
half away from zero, and those after it are dropped. -/
def readFraction (coefficient scale : Nat) : List Char → Nat × Nat
  | [] => (coefficient, scale)
  | c :: cs =>
    let next := 10 * coefficient + digitValue c
    if scale < 28 ∧ next < unitLimit then readFraction next (scale + 1) cs
    else if 5 ≤ digitValue c then roundUp coefficient scale
    else (coefficient, scale)

/-- Underscores behind the first digit only separate digits. -/
def dropSeparators (cs : List Char) : List Char :=
  cs.takeWhile (!isDigit ·) ++ (cs.dropWhile (!isDigit ·)).filter (· != '_')

/-- Digits with at most one point among them, after an optional sign. -/
def read? (s : String) : Option Decimal := do
  let cs := dropSeparators s.toList
  let (negative, cs) :=
    match cs with
    | '-' :: r => (true, r)
    | '+' :: r => (false, r)
    | r => (false, r)
  let whole := cs.takeWhile isDigit
  let fraction ←
    match cs.dropWhile isDigit with
    | [] => some []
    | '.' :: r => if r.all isDigit then some r else none
    | _ => none
  let _ ← readDigits? (whole ++ fraction)
  let units := if whole = [] then 0 else Nat.ofDigitChars 10 whole 0
  if units < unitLimit then
    let (coefficient, scale) := readFraction units 0 fraction
    make? (if negative then -(coefficient : Int) else coefficient) scale
  else none

end Decimal

end StorePlan.Number
