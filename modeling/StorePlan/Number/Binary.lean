/-
Binary floating-point numbers, as data.

A finite number is a sign and a magnitude `significand · 2^step` in units of
the least positive number of its format, in the one representation that the
format stores. Rounding is to nearest with ties to the even significand, in
exact arithmetic on naturals; a magnitude past the largest one becomes
infinite.
-/

namespace StorePlan.Number

/-- Shape of a binary interchange format: the least positive number is `2^-scale`. -/
structure BinaryFormat where
  /-- Bits of a full significand. -/
  precision : Nat
  scale : Nat
  /-- Largest number of doublings above the least exponent. -/
  maxStep : Nat

namespace BinaryFormat

/-- The 32-bit format. -/
def single : BinaryFormat := ⟨24, 149, 253⟩

/-- The 64-bit format. -/
def double : BinaryFormat := ⟨53, 1074, 2045⟩

/-- `significand · 2^step` is the stored representation of that number: the significand has its
full width unless the exponent is the least one. -/
def Canonical (f : BinaryFormat) (significand step : Nat) : Prop :=
  significand < Nat.pow 2 f.precision ∧ step ≤ f.maxStep ∧
    (step = 0 ∨ Nat.pow 2 (f.precision - 1) ≤ significand)

instance (f : BinaryFormat) (m q : Nat) : Decidable (f.Canonical m q) :=
  inferInstanceAs (Decidable (_ ∧ _ ∧ _))

theorem canonical_zero (f : BinaryFormat) : f.Canonical 0 0 :=
  ⟨Nat.two_pow_pos _, Nat.zero_le _, .inl rfl⟩

end BinaryFormat

/-- A finite magnitude of the format. -/
structure Magnitude (f : BinaryFormat) where
  significand : Nat
  step : Nat
  canonical : f.Canonical significand step
deriving DecidableEq

/-- A number of the format. There is one value that is not a number. -/
inductive BinaryFloat (f : BinaryFormat) where
  | nan
  | infinite (negative : Bool)
  | finite (negative : Bool) (magnitude : Magnitude f)
deriving DecidableEq

abbrev Single := BinaryFloat .single
abbrev Double := BinaryFloat .double

/-- The quotient rounded to the nearest natural number, a half to the even one. -/
def divHalfEven (num den : Nat) : Nat :=
  let q := num / den
  let r := num % den
  if 2 * r < den then q
  else if den < 2 * r then q + 1
  else if q % 2 = 0 then q else q + 1

namespace Magnitude

variable {f : BinaryFormat}

def zero : Magnitude f := ⟨0, 0, f.canonical_zero⟩

/-- The magnitude in units of the format's least positive number. -/
def units (x : Magnitude f) : Nat := x.significand * Nat.pow 2 x.step

/-- The magnitude nearest to `num / den`, `none` when that lies past the largest one. -/
def ofRatio? (f : BinaryFormat) (num den : Nat) : Option (Magnitude f) :=
  let scaled := num * Nat.pow 2 f.scale
  let step := (scaled / den).log2 + 1 - f.precision
  let significand := divHalfEven scaled (den * Nat.pow 2 step)
  let (significand, step) :=
    if significand = Nat.pow 2 f.precision then (Nat.pow 2 (f.precision - 1), step + 1)
    else (significand, step)
  if h : f.Canonical significand step then some ⟨significand, step, h⟩ else none

end Magnitude

namespace BinaryFloat

variable {f : BinaryFormat}

/-- The number nearest to a signed ratio. -/
def ofRatio (negative : Bool) (num den : Nat) : BinaryFloat f :=
  match Magnitude.ofRatio? f num den with
  | some m => .finite negative m
  | none => .infinite negative

/-- The number nearest to an integer. -/
def ofInt (i : Int) : BinaryFloat f := ofRatio (decide (i < 0)) i.natAbs 1

/-- The nearest number of another format. -/
def convert : BinaryFloat f → BinaryFloat g
  | .nan => .nan
  | .infinite s => .infinite s
  | .finite s m => ofRatio s m.units (Nat.pow 2 f.scale)

def isFinite : BinaryFloat f → Bool
  | .finite .. => true
  | _ => false

/-- Numeric equality: nothing equals a value that is no number, and the two zeros are equal. -/
def eqv : BinaryFloat f → BinaryFloat f → Bool
  | .infinite s, .infinite t => s == t
  | .finite s m, .finite t n => m == n && (s == t || m.significand == 0)
  | _, _ => false

end BinaryFloat

end StorePlan.Number
