import StorePlan.Text.Blank
import StorePlan.Text.Numeral

/-
Dates of the proleptic Gregorian calendar, times of day with nanoseconds and
leap seconds, and timestamps, each with the one text it is written as.
-/

namespace StorePlan

open Text

/-- Whether a year has a 29 February. -/
def isLeapYear (year : Int) : Bool :=
  year % 4 == 0 && (year % 100 != 0 || year % 400 == 0)

/-- Number of days of a month. -/
def daysInMonth (year : Int) : Nat → Nat
  | 2 => if isLeapYear year then 29 else 28
  | 4 | 6 | 9 | 11 => 30
  | _ => 31

/-- A day; years before 1 are zero and negative. -/
structure Date where
  year : Int
  month : Nat
  day : Nat
  valid : 1 ≤ month ∧ month ≤ 12 ∧ 1 ≤ day ∧ day ≤ daysInMonth year month
deriving DecidableEq

/-- A time of day. A leap second is the second 60 of its minute. -/
structure TimeOfDay where
  hour : Nat
  minute : Nat
  second : Nat
  nanosecond : Nat
  valid : hour < 24 ∧ minute < 60 ∧ second ≤ 60 ∧ nanosecond < 1000000000
deriving DecidableEq

/-- A day and a time in it. -/
structure Timestamp where
  date : Date
  time : TimeOfDay
deriving DecidableEq

/-- Four digits at least; years outside 0 to 9999 carry a sign. -/
def yearText (year : Int) : String :=
  let sign := if year < 0 then "-" else if 9999 < year then "+" else ""
  sign ++ String.ofList (paddedDigits 4 year.natAbs)

/-- A number of two digits. -/
def twoDigits (n : Nat) : String := String.ofList (paddedDigits 2 n)

/-- `YYYY-MM-DD`. -/
def Date.text (d : Date) : String :=
  yearText d.year ++ "-" ++ twoDigits d.month ++ "-" ++ twoDigits d.day

/-- A fraction of a second in thousandths, millionths or billionths, the fewest that lose
nothing; no text for none. -/
def fractionText (nanosecond : Nat) : String :=
  if nanosecond = 0 then ""
  else if nanosecond % 1000000 = 0 then
    "." ++ String.ofList (paddedDigits 3 (nanosecond / 1000000))
  else if nanosecond % 1000 = 0 then
    "." ++ String.ofList (paddedDigits 6 (nanosecond / 1000))
  else "." ++ String.ofList (paddedDigits 9 nanosecond)

/-- `HH:MM:SS`. -/
def TimeOfDay.clockText (t : TimeOfDay) : String :=
  twoDigits t.hour ++ ":" ++ twoDigits t.minute ++ ":" ++ twoDigits t.second

/-- `HH:MM:SS` and the fraction. -/
def TimeOfDay.text (t : TimeOfDay) : String := t.clockText ++ fractionText t.nanosecond

/-- Date and time with a blank between them. -/
def Timestamp.text (t : Timestamp) : String := t.date.text ++ " " ++ t.time.text

/-- Date and time with a `T` between them. -/
def Timestamp.isoText (t : Timestamp) : String := t.date.text ++ "T" ++ t.time.text

/-- The instant with whole milliseconds in universal time; finer parts are cut off. -/
def Timestamp.instantText (t : Timestamp) : String :=
  t.date.text ++ "T" ++ t.time.clockText ++ "." ++
    String.ofList (paddedDigits 3 (t.time.nanosecond / 1000000)) ++ "Z"

/-- The first instant of a day. -/
def Date.midnight (d : Date) : Timestamp := ⟨d, ⟨0, 0, 0, 0, by decide⟩⟩

/-! ## Reading

Blanks may stand in front of every number and of most marks, and at the end.
-/

/-- Between one and `limit` digits in front of a text, and what follows them. -/
def readRun? (limit : Nat) (cs : List Char) : Option (Nat × List Char) :=
  let ds := (cs.takeWhile isDigit).take limit
  (readDigits? ds).map fun n => (n, cs.drop ds.length)

/-- Such a number behind blanks. -/
def readLeading? (limit : Nat) (cs : List Char) : Option (Nat × List Char) :=
  readRun? limit (skipBlanks cs)

/-- A given character, and what follows it. -/
def readMark? (mark : Char) : List Char → Option (List Char)
  | c :: cs => if c = mark then some cs else none
  | [] => none

/-- The first and the last year of the calendar. -/
def firstYear : Int := -262143

def lastYear : Int := 262142

/-- A year of up to four digits, or of any number of them behind a sign. -/
def readYear? (cs : List Char) : Option (Int × List Char) :=
  match skipBlanks cs with
  | '-' :: r => (readRun? r.length r).map fun (n, r) => (-(n : Int), r)
  | '+' :: r => (readRun? r.length r).map fun (n, r) => ((n : Int), r)
  | r => (readRun? 4 r).map fun (n, r) => ((n : Int), r)

/-- A date in front of a text: year, month, day. -/
def Date.readLeading? (cs : List Char) : Option (Date × List Char) := do
  let (year, cs) ← readYear? cs
  let (month, cs) ← StorePlan.readLeading? 2 (← readMark? '-' (skipBlanks cs))
  let (day, cs) ← StorePlan.readLeading? 2 (← readMark? '-' (skipBlanks cs))
  if h : 1 ≤ month ∧ month ≤ 12 ∧ 1 ≤ day ∧ day ≤ daysInMonth year month then
    if firstYear ≤ year ∧ year ≤ lastYear then some (⟨year, month, day, h⟩, cs) else none
  else none

/-- Nanoseconds behind a point; digits past the ninth are ignored. -/
def readFraction? : List Char → Option (Nat × List Char)
  | '.' :: cs =>
    let ds := cs.takeWhile isDigit
    let kept := ds.take 9
    (readDigits? kept).map fun n => (n * Nat.pow 10 (9 - kept.length), cs.dropWhile isDigit)
  | cs => some (0, cs)

/-- A time in front of a text; whether the seconds may be left out is up to the caller. -/
def TimeOfDay.readLeading? (needsSeconds : Bool) (cs : List Char) :
    Option (TimeOfDay × List Char) := do
  let (hour, cs) ← StorePlan.readLeading? 2 cs
  let (minute, cs) ← StorePlan.readLeading? 2 (← readMark? ':' cs)
  let (second, nanosecond, cs) ←
    match skipBlanks cs with
    | ':' :: r => do
      let (second, r) ← StorePlan.readLeading? 2 r
      let (nanosecond, r) ← readFraction? r
      some (second, nanosecond, r)
    | r => if needsSeconds then none else some (0, 0, r)
  if h : hour < 24 ∧ minute < 60 ∧ second ≤ 60 ∧ nanosecond < 1000000000 then
    some (⟨hour, minute, second, nanosecond, h⟩, cs)
  else none

/-- The whole text as a date. -/
def Date.read? (s : String) : Option Date := do
  let (d, cs) ← Date.readLeading? s.toList
  if cs.all isBlank then some d else none

/-- The whole text as a time of day, with or without seconds. -/
def TimeOfDay.read? (s : String) : Option TimeOfDay := do
  let (t, cs) ← TimeOfDay.readLeading? false s.toList
  if cs.all isBlank then some t else none

/-- The whole text as a date, a `T` and a time with seconds. -/
def Timestamp.read? (s : String) : Option Timestamp := do
  let (d, cs) ← Date.readLeading? s.toList
  let (t, cs) ← TimeOfDay.readLeading? true (← readMark? 'T' (skipBlanks cs))
  if cs.all isBlank then some ⟨d, t⟩ else none

end StorePlan
