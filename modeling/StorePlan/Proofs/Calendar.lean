import StorePlan.Calendar
import StorePlan.Proofs.Number.Text

/-
Texts of dates, times of day and instants, and their reading. Every part of one is
a run of digits that ends at a mark, so the parts are read off from left to right.
An instant is written with whole milliseconds, and what is read is the instant as
far as these (`Timestamp.ofInstant?_instantText`).
-/

namespace StorePlan

open Number (Scientific)
open Text

variable {rest : List Char}

/-! ## Numbers with a width -/

theorem length_paddedDigits_of_lt {width n : Nat} (hwidth : 0 < width) (h : n < 10 ^ width) :
    (paddedDigits width n).length = width :=
  length_paddedDigits ((Nat.length_toDigits_le_iff (by decide) hwidth).2 h)

theorem readDigits?_paddedDigits (width n : Nat) :
    readDigits? (paddedDigits width n) = some n := by
  rw [readDigits?_of_isDigit (paddedDigits_ne_nil _ _) isDigit_of_mem_paddedDigits,
    ofDigitChars_paddedDigits]

theorem readRun?_paddedDigits {limit width n : Nat} (h : (paddedDigits width n).length ≤ limit)
    (hrest : Stops isDigit rest) :
    readRun? limit (paddedDigits width n ++ rest) = some (n, rest) := by
  rw [readRun?, takeWhile_run isDigit_of_mem_paddedDigits hrest, List.take_of_length_le h,
    readDigits?_paddedDigits, Option.map_some, List.drop_left]

theorem readRun?_twoDigits {n : Nat} (h : n < 100) (hrest : Stops isDigit rest) :
    readRun? 2 (paddedDigits 2 n ++ rest) = some (n, rest) :=
  readRun?_paddedDigits (length_paddedDigits_of_lt (by decide) h).le hrest

theorem readMark?_cons (mark : Char) (cs : List Char) : readMark? mark (mark :: cs) = some cs :=
  if_pos rfl

/-! ## Dates -/

/-- A year in front of a text, with or without a sign. -/
def splitYear? (cs : List Char) : Option (Int × List Char) := do
  let (negative, cs) := Scientific.readSign cs
  let (n, cs) ← readRun? cs.length cs
  some (if negative then -(n : Int) else n, cs)

/-- The sign of a year is split off. -/
theorem readSign_yearText (year : Int) (as : List Char) :
    Scientific.readSign ((yearText year).toList ++ as) =
      (decide (year < 0), paddedDigits 4 year.natAbs ++ as) := by
  have hdigit : ∀ c ∈ (paddedDigits 4 year.natAbs ++ as).head?, isDigit c = true := by
    rw [List.head?_append_of_ne_nil _ (paddedDigits_ne_nil 4 year.natAbs)]
    exact isDigit_head isDigit_of_mem_paddedDigits
  unfold yearText
  by_cases hnegative : year < 0
  · simp [hnegative, Scientific.readSign, String.toList_append]
  · by_cases hlarge : 9999 < year
    · simp [hnegative, hlarge, Scientific.readSign, String.toList_append]
    · simpa [hnegative, hlarge] using Scientific.readSign_of_isDigit hdigit

theorem splitYear?_yearText (year : Int) (hrest : Stops isDigit rest) :
    splitYear? ((yearText year).toList ++ rest) = some (year, rest) := by
  have hyear : (if decide (year < 0) then -(year.natAbs : Int) else year.natAbs) = year := by
    split_ifs with h <;> rw [decide_eq_true_eq] at h <;> omega
  have hrun : readRun? (paddedDigits 4 year.natAbs ++ rest).length
      (paddedDigits 4 year.natAbs ++ rest) = some (year.natAbs, rest) :=
    readRun?_paddedDigits (by simp) hrest
  rw [splitYear?, readSign_yearText]
  simp only [Option.bind_eq_bind, hrun, Option.bind_some, hyear]

/-- A date in front of a text. -/
def Date.split? (cs : List Char) : Option (Date × List Char) := do
  let (year, cs) ← splitYear? cs
  let (month, cs) ← readRun? 2 (← readMark? '-' cs)
  let (day, cs) ← readRun? 2 (← readMark? '-' cs)
  if h : 1 ≤ month ∧ month ≤ 12 ∧ 1 ≤ day ∧ day ≤ daysInMonth year month then
    some (⟨year, month, day, h⟩, cs)
  else none

theorem toList_dateText (d : Date) :
    d.text.toList = (yearText d.year).toList ++
      '-' :: (paddedDigits 2 d.month ++ '-' :: paddedDigits 2 d.day) := by
  simp [Date.text, twoDigits, String.toList_append]

theorem daysInMonth_le (year : Int) (month : Nat) : daysInMonth year month ≤ 31 := by
  unfold daysInMonth
  split
  · split_ifs <;> decide
  all_goals decide

theorem Date.split?_text (d : Date) (hrest : Stops isDigit rest) :
    Date.split? (d.text.toList ++ rest) = some (d, rest) := by
  have hvalid := d.valid
  have hlast := daysInMonth_le d.year d.month
  have hmark (cs : List Char) : Stops isDigit ('-' :: cs) := stops_cons rfl
  have hmonth {cs : List Char} := readRun?_twoDigits (n := d.month) (by omega) (hmark cs)
  have hday := readRun?_twoDigits (n := d.day) (by omega) hrest
  rw [toList_dateText, List.append_assoc, List.cons_append, List.append_assoc, List.cons_append,
    Date.split?, splitYear?_yearText d.year (hmark _)]
  simp only [Option.bind_eq_bind, Option.bind_some, readMark?_cons, hmonth, hday]
  rw [dif_pos hvalid]

/-! ## Times of day -/

/-- A time of day in front of a text, with its fraction of a second if it has one. -/
def TimeOfDay.split? (cs : List Char) : Option (TimeOfDay × List Char) := do
  let (hour, cs) ← readRun? 2 cs
  let (minute, cs) ← readRun? 2 (← readMark? ':' cs)
  let (second, cs) ← readRun? 2 (← readMark? ':' cs)
  let (nanosecond, cs) ← readFraction? cs
  if h : hour < 24 ∧ minute < 60 ∧ second ≤ 60 ∧ nanosecond < 1000000000 then
    some (⟨hour, minute, second, nanosecond, h⟩, cs)
  else none

/-- The time of day that a text stands for. -/
def TimeOfDay.ofText? (s : String) : Option TimeOfDay := do
  let (t, cs) ← TimeOfDay.split? s.toList
  if cs = [] then some t else none

theorem toList_clockText (t : TimeOfDay) :
    t.clockText.toList = paddedDigits 2 t.hour ++ ':' :: (paddedDigits 2 t.minute ++
      ':' :: paddedDigits 2 t.second) := by
  simp [TimeOfDay.clockText, twoDigits, String.toList_append]

/-- The clock is read in front of a fraction, which makes the time of day. -/
theorem TimeOfDay.split?_clockText (t : TimeOfDay) {fraction : List Char} {n : Nat}
    (hstops : Stops isDigit fraction) (hfraction : readFraction? fraction = some (n, rest))
    (hn : n < 1000000000) :
    TimeOfDay.split? (t.clockText.toList ++ fraction) =
      some (⟨t.hour, t.minute, t.second, n, t.valid.1, t.valid.2.1, t.valid.2.2.1, hn⟩, rest) := by
  obtain ⟨hhour, hminute, hsecond, -⟩ := t.valid
  have hmark (cs : List Char) : Stops isDigit (':' :: cs) := stops_cons rfl
  have hhours {cs : List Char} := readRun?_twoDigits (n := t.hour) (by omega) (hmark cs)
  have hminutes {cs : List Char} := readRun?_twoDigits (n := t.minute) (by omega) (hmark cs)
  have hseconds := readRun?_twoDigits (n := t.second) (by omega) hstops
  rw [toList_clockText, List.append_assoc, List.cons_append, List.append_assoc, List.cons_append,
    TimeOfDay.split?, hhours]
  simp only [Option.bind_eq_bind, Option.bind_some, readMark?_cons, hminutes, hseconds, hfraction]
  rw [dif_pos ⟨hhour, hminute, hsecond, hn⟩]

/-- Digits behind a point are read as nanoseconds. -/
theorem readFraction?_point {width n : Nat} (hwidth : 0 < width) (hle : width ≤ 9)
    (h : n < 10 ^ width) (hrest : Stops isDigit rest) :
    readFraction? ('.' :: (paddedDigits width n ++ rest)) =
      some (n * Nat.pow 10 (9 - width), rest) := by
  have hlength := length_paddedDigits_of_lt hwidth h
  rw [readFraction?, takeWhile_run isDigit_of_mem_paddedDigits hrest,
    dropWhile_run isDigit_of_mem_paddedDigits hrest, List.take_of_length_le (hlength.trans_le hle),
    readDigits?_paddedDigits, hlength]
  rfl

/-- The fraction is written with the digits that are needed. -/
theorem readFraction?_fractionText {n : Nat} (h : n < 1000000000) :
    readFraction? (fractionText n).toList = some (n, []) := by
  have hpoint (width k : Nat) (hwidth : 0 < width) (hle : width ≤ 9) (hk : k < 10 ^ width)
      (hn : k * Nat.pow 10 (9 - width) = n) :
      readFraction? ("." ++ String.ofList (paddedDigits width k)).toList = some (n, []) := by
    have hdot : ".".toList = ['.'] := rfl
    have hread := readFraction?_point hwidth hle hk stops_nil
    rw [List.append_nil, hn] at hread
    rw [String.toList_append, hdot, String.toList_ofList, List.singleton_append, hread]
  unfold fractionText
  split_ifs with hzero hmilli hmicro
  · subst hzero
    rfl
  · exact hpoint 3 _ (by decide) (by decide) (by omega)
      (Nat.div_mul_cancel (Nat.dvd_of_mod_eq_zero hmilli))
  · exact hpoint 6 _ (by decide) (by decide) (by omega)
      (Nat.div_mul_cancel (Nat.dvd_of_mod_eq_zero hmicro))
  · exact hpoint 9 _ (by decide) (by decide) h (Nat.mul_one n)

theorem stops_fractionText (n : Nat) : Stops isDigit (fractionText n).toList := by
  unfold fractionText
  split_ifs
  · exact stops_nil
  all_goals
    rw [String.toList_append]
    exact stops_cons rfl

theorem TimeOfDay.ofText?_text (t : TimeOfDay) : TimeOfDay.ofText? t.text = some t := by
  have hfraction := readFraction?_fractionText t.valid.2.2.2
  rw [TimeOfDay.ofText?, TimeOfDay.text, String.toList_append,
    t.split?_clockText (stops_fractionText _) hfraction t.valid.2.2.2]
  rfl

theorem TimeOfDay.text_inj {t u : TimeOfDay} (h : t.text = u.text) : t = u := by
  rw [← Option.some_inj, ← TimeOfDay.ofText?_text, h, TimeOfDay.ofText?_text]

/-! ## Instants -/

/-- The instant with what is finer than a millisecond cut off. -/
def Timestamp.toMilliseconds (t : Timestamp) : Timestamp :=
  ⟨t.date, ⟨t.time.hour, t.time.minute, t.time.second, t.time.nanosecond / 1000000 * 1000000, by
    have := t.time.valid
    omega⟩⟩

/-- The instant that a text stands for: a date, a `T`, a time of day and a `Z`. -/
def Timestamp.ofInstant? (s : String) : Option Timestamp := do
  let (date, cs) ← Date.split? s.toList
  let (time, cs) ← TimeOfDay.split? (← readMark? 'T' cs)
  if cs = ['Z'] then some ⟨date, time⟩ else none

theorem toList_instantText (t : Timestamp) :
    t.instantText.toList = t.date.text.toList ++ 'T' :: (t.time.clockText.toList ++
      '.' :: (paddedDigits 3 (t.time.nanosecond / 1000000) ++ ['Z'])) := by
  simp [Timestamp.instantText, String.toList_append]

theorem Timestamp.ofInstant?_instantText (t : Timestamp) :
    Timestamp.ofInstant? t.instantText = some t.toMilliseconds := by
  have hvalid := t.time.valid
  have hfraction : readFraction? ('.' :: (paddedDigits 3 (t.time.nanosecond / 1000000) ++ ['Z'])) =
      some (t.time.nanosecond / 1000000 * 1000000, ['Z']) :=
    readFraction?_point (by decide) (by decide) (by omega) (stops_cons rfl)
  rw [Timestamp.ofInstant?, toList_instantText, Date.split?_text t.date (stops_cons rfl)]
  simp only [Option.bind_eq_bind, Option.bind_some, readMark?_cons,
    t.time.split?_clockText (stops_cons rfl) hfraction (by omega)]
  rfl

/-- The text of an instant is the same for those of one millisecond, and for no others. -/
theorem Timestamp.instantText_eq_iff {t u : Timestamp} :
    t.instantText = u.instantText ↔ t.toMilliseconds = u.toMilliseconds := by
  constructor
  · intro h
    rw [← Option.some_inj, ← ofInstant?_instantText, h, ofInstant?_instantText]
  · intro h
    have hcut (t : Timestamp) : t.instantText = t.toMilliseconds.instantText := by
      simp [instantText, toMilliseconds, TimeOfDay.clockText]
    rw [hcut t, hcut u, h]

theorem Date.midnight_inj {d e : Date} (h : d.midnight.instantText = e.midnight.instantText) :
    d = e := by
  have hcut := Timestamp.instantText_eq_iff.1 h
  exact congrArg Timestamp.date hcut

end StorePlan
