/-
Numbers as text: the decimal digits of a natural number, digits padded to a
width, and the reading of an optionally signed run of digits.

`readNat?_digits` says that reading undoes writing.
-/

namespace StorePlan.Text

/-- Decimal digits without leading zeros. -/
def digits (n : Nat) : List Char := Nat.toDigits 10 n

/-- Number of decimal digits; `0` has one. -/
def digitCount (n : Nat) : Nat := (digits n).length

/-- Decimal digits, with zeros in front up to the width. -/
def paddedDigits (width n : Nat) : List Char :=
  List.replicate (width - digitCount n) '0' ++ digits n

/-- The text of a natural number. -/
def natText (n : Nat) : String := String.ofList (digits n)

/-- The text of an integer, with a sign only in front of a negative one. -/
def intText (i : Int) : String :=
  if i < 0 then "-" ++ natText i.natAbs else natText i.natAbs

def isDigit (c : Char) : Bool := '0' ≤ c && c ≤ '9'

/-- Value of a non-empty run of ASCII digits, leading zeros allowed. -/
def readDigits? (cs : List Char) : Option Nat :=
  if cs ≠ [] ∧ cs.all isDigit then some (Nat.ofDigitChars 10 cs 0) else none

/-- The value of a digit in base sixteen. -/
def hexValue? (c : Char) : Option Nat :=
  if isDigit c then some (c.toNat - '0'.toNat)
  else if 'a' ≤ c ∧ c ≤ 'f' then some (c.toNat - 'a'.toNat + 10)
  else if 'A' ≤ c ∧ c ≤ 'F' then some (c.toNat - 'A'.toNat + 10)
  else none

/-- The number written by digits in a base of at most sixteen. -/
def readBase? (base : Nat) (cs : List Char) : Option Nat :=
  if cs = [] then none
  else (cs.mapM fun c => (hexValue? c).filter (· < base)).map
    (·.foldl (fun n digit => base * n + digit) 0)

/-- A run of digits that may have a plus sign in front. -/
def readNat? : List Char → Option Nat
  | '+' :: cs => readDigits? cs
  | cs => readDigits? cs

/-- A natural number below `bound`. -/
def readBelow? (bound : Nat) (cs : List Char) : Option Nat :=
  (readNat? cs).filter (· < bound)

theorem isDigit_of_mem_digits {n : Nat} {c : Char} (h : c ∈ digits n) : isDigit c = true := by
  have : c.isDigit = true := Nat.isDigit_of_mem_toDigits (by decide) (by decide) h
  simpa [isDigit, Char.isDigit, Char.le_def] using this

theorem digits_ne_nil (n : Nat) : digits n ≠ [] := by
  simp [digits, Nat.toDigits_ne_nil]

theorem readDigits?_digits (n : Nat) : readDigits? (digits n) = some n := by
  have all : (digits n).all isDigit = true := by
    rw [List.all_eq_true]; exact fun c hc => isDigit_of_mem_digits hc
  rw [readDigits?, if_pos ⟨digits_ne_nil n, all⟩, digits,
    Nat.ofDigitChars_toDigits (by decide) (by decide)]

theorem readNat?_digits (n : Nat) : readNat? (digits n) = some n := by
  unfold readNat?
  split
  · rename_i cs h
    have : isDigit '+' = true := isDigit_of_mem_digits (n := n) (by simp [h])
    exact absurd this (by decide)
  · exact readDigits?_digits n

theorem digits_injective {m n : Nat} (h : digits m = digits n) : m = n := by
  have := congrArg readDigits? h
  rwa [readDigits?_digits, readDigits?_digits, Option.some.injEq] at this

end StorePlan.Text
