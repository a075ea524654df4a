import StorePlan.Number.Binary
import StorePlan.Text.Numeral

/-
The fewest decimal digits that read back as a binary number.

For one digit, two digits and so on, the two points next to the number on
that decimal grid are tested against the interval of reals that round to it.
The first grid with a hit wins; of two hits the nearer, and a layout says
which of two equally near ones. A layout also fixes where positional notation
ends and how an exponent is written.
-/

namespace StorePlan.Number

open Text

/-- Which of two equally near decimals is written. -/
inductive Tie where
  | even
  | up
deriving DecidableEq

/-- `digits · 10^exponent`. -/
structure DecimalDigits where
  digits : Nat
  exponent : Int
deriving DecidableEq

/-- Moves zeros at the end of the digits into the exponent. -/
def DecimalDigits.trimZeros : Nat → DecimalDigits → DecimalDigits
  | 0, x => x
  | fuel + 1, x =>
    if x.digits ≠ 0 ∧ x.digits % 10 = 0 then trimZeros fuel ⟨x.digits / 10, x.exponent + 1⟩
    else x

/-- The exponent of the leading decimal digit of `num / den`. -/
def leadingExponent (num den : Nat) : Int :=
  if den ≤ num then (digitCount (num / den) : Int) - 1
  else -(digitCount ((den + num - 1) / num - 1) : Int)

namespace Magnitude

variable {f : BinaryFormat}

/-- Four times the number, and the ends of the interval that rounds to it, in quarter units. -/
structure Interval where
  low : Nat
  middle : Nat
  high : Nat
  closed : Bool

def interval (x : Magnitude f) : Interval :=
  let gap := Nat.pow 2 x.step
  let below := if x.step ≠ 0 ∧ x.significand = Nat.pow 2 (f.precision - 1) then gap else 2 * gap
  { low := 4 * x.units - below
    middle := 4 * x.units
    high := 4 * x.units + 2 * gap
    closed := x.significand % 2 == 0 }

/-- Whether `point · up / den` lies in the interval, both in quarter units. -/
def Interval.covers (i : Interval) (den up point : Nat) : Bool :=
  let p := point * up
  if i.closed then i.low * den ≤ p && p ≤ i.high * den else i.low * den < p && p < i.high * den

/-- The nearer hit among the two grid points next to the number, the grid being the multiples of
`10^exponent`. -/
def onGrid? (tie : Tie) (x : Magnitude f) (exponent : Int) : Option DecimalDigits :=
  let i := x.interval
  -- a grid point `p` stands for `p · up / den` quarter units
  let den := Nat.pow 10 (-exponent).toNat
  let up := 4 * Nat.pow 2 f.scale * Nat.pow 10 exponent.toNat
  let below := i.middle * den / up
  let fromBelow := i.middle * den - below * up
  let fromAbove := (below + 1) * up - i.middle * den
  match i.covers den up below, i.covers den up (below + 1) with
  | true, true =>
    let takesBelow := fromBelow < fromAbove ∨
      fromBelow = fromAbove ∧ tie = .even ∧ below % 2 = 0
    some ⟨if takesBelow then below else below + 1, exponent⟩
  | true, false => some ⟨below, exponent⟩
  | false, true => some ⟨below + 1, exponent⟩
  | false, false => none

/-- The fewest digits that read back as `x`; zero has the digit `0`. Seventeen digits always
suffice for the formats of this library. -/
def shortest (tie : Tie) (x : Magnitude f) : DecimalDigits :=
  if x.significand = 0 then ⟨0, 0⟩ else
  let leading := leadingExponent x.units (Nat.pow 2 f.scale)
  let found := (List.range 17).findSome? fun (n : Nat) => onGrid? tie x (leading - n)
  (found.getD ⟨x.units, 0⟩).trimZeros 18

end Magnitude

/-- How a number is laid out. -/
structure FloatLayout where
  /-- Decimal exponents written positionally: the first, and the first past the last. -/
  positional : Option (Int × Int)
  /-- Whether a number without a fraction ends in `.0`. -/
  keepsPoint : Bool
  /-- Whether a positive exponent has a plus sign. -/
  plusSign : Bool
  tie : Tie

namespace FloatLayout

/-- Positional from a ten-thousandth up to ten quadrillion. -/
def debug : FloatLayout := ⟨some (-4, 16), true, false, .up⟩

/-- Always positional, and without a point where there is no fraction. -/
def plain : FloatLayout := ⟨none, false, false, .up⟩

/-- JSON text of a 64-bit number. -/
def jsonDouble : FloatLayout := ⟨some (-5, 16), true, true, .even⟩

/-- JSON text of a 32-bit number. -/
def jsonSingle : FloatLayout := ⟨some (-6, 13), true, true, .even⟩

end FloatLayout

/-- Digits with the point in place. -/
def positionalText (keepsPoint : Bool) (x : DecimalDigits) : List Char :=
  let ds := digits x.digits
  let behind := (-x.exponent).toNat
  if 0 ≤ x.exponent then
    let zeros := if x.digits = 0 then 0 else x.exponent.toNat
    ds ++ List.replicate zeros '0' ++ (if keepsPoint then ['.', '0'] else [])
  else if behind < ds.length then
    ds.take (ds.length - behind) ++ '.' :: ds.drop (ds.length - behind)
  else
    ['0', '.'] ++ List.replicate (behind - ds.length) '0' ++ ds

/-- One digit, the others behind a point, and the exponent of the first. -/
def scientificText (plusSign : Bool) (x : DecimalDigits) : List Char :=
  let ds := digits x.digits
  let exponent := x.exponent + (ds.length : Int) - 1
  let fraction := if 1 < ds.length then '.' :: ds.drop 1 else []
  let sign := if exponent < 0 then ['-'] else if plusSign then ['+'] else []
  ds.take 1 ++ fraction ++ 'e' :: sign ++ digits exponent.natAbs

/-- The text of a magnitude. -/
def Magnitude.text {f : BinaryFormat} (layout : FloatLayout) (x : Magnitude f) : List Char :=
  let s := x.shortest layout.tie
  let leading := s.exponent + (digitCount s.digits : Int) - 1
  match layout.positional with
  | some (first, past) =>
    if s.digits = 0 ∨ (first ≤ leading ∧ leading < past) then
      positionalText layout.keepsPoint s
    else scientificText layout.plusSign s
  | none => positionalText layout.keepsPoint s

/-- The text of a number. -/
def BinaryFloat.text {f : BinaryFormat} (layout : FloatLayout) : BinaryFloat f → String
  | .nan => "NaN"
  | .infinite negative => if negative then "-inf" else "inf"
  | .finite negative m =>
    String.ofList ((if negative then ['-'] else []) ++ m.text layout)

end StorePlan.Number
