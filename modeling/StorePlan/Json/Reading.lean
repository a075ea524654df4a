import StorePlan.Json.Fields
import StorePlan.Number.Scientific

/-
Reading JSON text.

A number of 64 bits without a fraction and without a power of ten is an
integer. Any other is a double, in two steps that each round: its digits, as
many as 64 bits hold, then the product with the power of ten or the quotient by
it. Documents nested deeper than `deepest` are refused.
-/

namespace StorePlan.Json

open Number Text

/-! ## Numbers -/

/-- A power of ten as a double. -/
def powerOfTen (n : Nat) : Double := .ofRatio false (Nat.pow 10 n) 1

/-- The greatest power of ten among doubles. -/
def greatestPower : Nat := 308

/-- A double times a power of ten. -/
def scaleUp (x : Double) (n : Nat) : Double :=
  match x, powerOfTen n with
  | .finite negative m, .finite _ p =>
    .ofRatio negative (m.units * p.units) (Nat.pow 2 (2 * BinaryFormat.double.scale))
  | x, _ => x

/-- A double divided by a power of ten. -/
def scaleDown (x : Double) (n : Nat) : Double :=
  match x, powerOfTen n with
  | .finite negative m, .finite _ p => .ofRatio negative m.units p.units
  | x, _ => x

/-- The leading digits of a number as far as 64 bits hold them, and how many digits stand behind
them. -/
def leadingDigits (n : Nat) : Nat × Nat :=
  if n < UInt64.size then (n, 0)
  else
    let (digits, dropped) := leadingDigits (n / 10)
    (digits, dropped + 1)
termination_by n
decreasing_by
  have : 0 < UInt64.size := by decide
  omega

/-- A number in scientific notation as a double; there is none for a number beyond the range. -/
def ofScientific? (x : Scientific) : Option Json :=
  let (coefficient, dropped) := leadingDigits x.coefficient
  let digits : Double := .ofInt coefficient
  let exponent := x.exponent + dropped
  let n := exponent.natAbs
  let scaled :=
    if coefficient = 0 then digits
    else if 0 ≤ exponent then
      if n ≤ greatestPower then scaleUp digits n else .infinite false
    else if n ≤ greatestPower then scaleDown digits n
    else scaleDown (scaleDown digits greatestPower) (min (n - greatestPower) greatestPower)
  match scaled with
  | .finite _ m => some (.double (.finite x.negative m))
  | _ => none

def isNumberPart (c : Char) : Bool := isDigit c || "+-.eE".toList.contains c

/-- A number without a fraction and a power of ten. Negative zero is no integer. -/
def readInteger? (cs : List Char) : Option Int := do
  match cs with
  | '-' :: digits =>
    let n ← readDigits? digits
    if 0 < n ∧ 2 * n ≤ UInt64.size then some (-(n : Int)) else none
  | digits =>
    let n ← readDigits? digits
    if n < UInt64.size then some n else none

def readNumber? (cs : List Char) : Option Json :=
  match readInteger? cs with
  | some i => some (.integer i)
  | none => (Scientific.read? cs).bind ofScientific?

/-! ## Strings -/

/-- Four hexadecimal digits. -/
def readUnit? : List Char → Option (Nat × List Char)
  | a :: b :: c :: d :: rest => do
    return (← readBase? 16 [a, b, c, d], rest)
  | _ => none

/-- A character by its code, of which those beyond 16 bits come in two parts. -/
def readCoded? (cs : List Char) : Option (Char × List Char) := do
  let (unit, rest) ← readUnit? cs
  if 0xd800 ≤ unit ∧ unit < 0xdc00 then
    match rest with
    | '\\' :: 'u' :: rest =>
      let (low, rest) ← readUnit? rest
      if 0xdc00 ≤ low ∧ low < 0xe000 then
        return (Char.ofNat (0x10000 + (unit - 0xd800) * 0x400 + (low - 0xdc00)), rest)
      else none
    | _ => none
  else if 0xdc00 ≤ unit ∧ unit < 0xe000 then none
  else return (Char.ofNat unit, rest)

/-- What stands behind a backslash. -/
def readEscaped? : List Char → Option (Char × List Char)
  | 'u' :: rest => readCoded? rest
  | 'b' :: rest => some ('\x08', rest)
  | 'f' :: rest => some ('\x0c', rest)
  | 'n' :: rest => some ('\n', rest)
  | 'r' :: rest => some ('\r', rest)
  | 't' :: rest => some ('\t', rest)
  | '"' :: rest => some ('"', rest)
  | '\\' :: rest => some ('\\', rest)
  | '/' :: rest => some ('/', rest)
  | _ => none

/-- The rest of a string, up to its closing quote; `read` holds what came before, in reverse. The
string has at most `fuel` characters. -/
def readString? (fuel : Nat) (read : List Char) (cs : List Char) :
    Option (String × List Char) :=
  match fuel, cs with
  | _, '"' :: rest => some (String.ofList read.reverse, rest)
  | fuel + 1, '\\' :: rest => do
    let (c, rest) ← readEscaped? rest
    readString? fuel (c :: read) rest
  | fuel + 1, c :: rest => readString? fuel (c :: read) rest
  | _, _ => none

/-! ## Documents -/

/-- White space between the parts of a document. -/
def isGap (c : Char) : Bool := c == ' ' || c == '\t' || c == '\n' || c == '\r'

def skipGaps (cs : List Char) : List Char := cs.dropWhile isGap

/-- Cuts off a word. -/
def readWord? (word : String) (value : Json) (cs : List Char) : Option (Json × List Char) :=
  if word.toList.isPrefixOf cs then some (value, cs.drop word.length) else none

mutual

/-- A document in front of a text, and what follows it. Twice as much fuel as there are characters
is enough. -/
def readFrom? (fuel : Nat) (cs : List Char) : Option (Json × List Char) :=
  match fuel, skipGaps cs with
  | fuel + 1, '"' :: rest => (readString? fuel [] rest).map fun (s, rest) => (.string s, rest)
  | fuel + 1, '[' :: rest =>
    match skipGaps rest with
    | ']' :: rest => some (.array [], rest)
    | rest => (readItems? fuel rest).map fun (items, rest) => (.array items, rest)
  | fuel + 1, '\x7b' :: rest =>
    match skipGaps rest with
    | '\x7d' :: rest => some (.object [], rest)
    | rest => (readFields? fuel rest).map fun (fields, rest) => (.object fields, rest)
  | _ + 1, 'n' :: rest => readWord? "null" .null ('n' :: rest)
  | _ + 1, 't' :: rest => readWord? "true" (.bool true) ('t' :: rest)
  | _ + 1, 'f' :: rest => readWord? "false" (.bool false) ('f' :: rest)
  | _ + 1, cs => (readNumber? (cs.takeWhile isNumberPart)).map (·, cs.dropWhile isNumberPart)
  | 0, _ => none
termination_by structural fuel

/-- Items up to the closing bracket. -/
def readItems? (fuel : Nat) (cs : List Char) : Option (List Json × List Char) :=
  match fuel with
  | 0 => none
  | fuel + 1 => do
    let (item, rest) ← readFrom? fuel cs
    match skipGaps rest with
    | ',' :: rest =>
      let (items, rest) ← readItems? fuel rest
      return (item :: items, rest)
    | ']' :: rest => return ([item], rest)
    | _ => none
termination_by structural fuel

/-- Fields up to the closing brace. -/
def readFields? (fuel : Nat) (cs : List Char) : Option (List (String × Json) × List Char) :=
  match fuel, skipGaps cs with
  | fuel + 1, '"' :: rest => do
    let (name, rest) ← readString? fuel [] rest
    match skipGaps rest with
    | ':' :: rest =>
      let (value, rest) ← readFrom? fuel rest
      match skipGaps rest with
      | ',' :: rest =>
        let (fields, rest) ← readFields? fuel rest
        return ((name, value) :: fields, rest)
      | '\x7d' :: rest => return ([(name, value)], rest)
      | _ => none
    | _ => none
  | _, _ => none
termination_by structural fuel

end

/-- How deep the arrays and objects of a document may be nested. -/
def deepest : Nat := 127

/-- The document that a text is. -/
def read? (s : String) : Option Json := do
  let (j, rest) ← readFrom? (2 * s.length + 2) s.toList
  if (skipGaps rest).isEmpty ∧ j.depth ≤ deepest then some j else none

end StorePlan.Json
