import StorePlan.Proofs.DataType.RoundTrip
import StorePlan.Proofs.Text.Runs
import StorePlan.Sql.Statement

/-
The place that is looked for in the report of a fault. It is the place with
which the report ends, as long as the words for line and column do not begin
before. A report that quotes these words is misread.
-/

namespace StorePlan.Sql

open DataType Text

/-- A text is found behind what does not hold its first character. -/
theorem behind?_append {c : Char} {cs before rest : List Char} (h : c ∉ before) :
    behind? (c :: cs) (before ++ (c :: (cs ++ rest))) = some rest := by
  induction before with
  | nil =>
    have hfound : (c :: cs).isPrefixOf (c :: (cs ++ rest)) = true :=
      List.isPrefixOf_iff_prefix.2 (List.prefix_append (c :: cs) rest)
    simp [behind?, hfound]
  | cons b before ih =>
    rw [List.mem_cons, not_or] at h
    have hother : (c :: cs).isPrefixOf (b :: (before ++ c :: (cs ++ rest))) = false := by
      simp [List.isPrefixOf, h.1]
    rw [List.cons_append, behind?, hother, if_neg Bool.false_ne_true, ih h.2]

theorem readBelow?_digits {n bound : Nat} (h : n < bound) :
    readBelow? bound (digits n) = some n := by
  simp [readBelow?, readNat?_digits, Option.filter, h]

theorem line?_append {before rest : List Char} {line : Nat} (hbefore : 'L' ∉ before)
    (hline : line < UInt64.size) :
    line? (before ++ ("Line: ".toList ++ (digits line ++ ',' :: rest))) = some line := by
  have hdigits : ∀ c ∈ digits line, decide (c ≠ ',') = true :=
    fun c hc => by simpa using comma_not_mem_digits line c hc
  have hrun : (digits line ++ ',' :: rest).takeWhile (· ≠ ',') = digits line :=
    takeWhile_run hdigits (stops_cons (by simp))
  have hbehind : behind? "Line: ".toList
      (before ++ ("Line: ".toList ++ (digits line ++ ',' :: rest))) =
        some (digits line ++ ',' :: rest) := behind?_append hbefore
  rw [line?, hbehind, Option.bind_eq_bind, Option.bind_some, hrun, trim_digits,
    readBelow?_digits hline]
  simp

theorem column?_append {before : List Char} {column : Nat} (hbefore : 'C' ∉ before)
    (hcolumn : column < UInt64.size) :
    column? (before ++ ("Column: ".toList ++ digits column)) = some column := by
  have hrun : (digits column ++ []).takeWhile isDigit = digits column :=
    takeWhile_run (fun _ hc => isDigit_of_mem_digits hc) stops_nil
  have hbehind : behind? "Column: ".toList (before ++ ("Column: ".toList ++ digits column)) =
      some (digits column) := behind?_append hbefore
  rw [List.append_nil] at hrun
  rw [column?, hbehind, Option.bind_eq_bind, Option.bind_some, hrun, readBelow?_digits hcolumn]

/-- The place with which a report ends is the one that is found. -/
theorem reportedPosition_append {before : List Char} {line column : Nat} (hL : 'L' ∉ before)
    (hC : 'C' ∉ before) (hline : line < UInt64.size) (hcolumn : column < UInt64.size) :
    reportedPosition (before ++ ("Line: ".toList ++ (digits line ++
      ',' :: ' ' :: ("Column: ".toList ++ digits column)))) = ⟨line, column⟩ := by
  have hdigits : 'C' ∉ digits line := fun h => absurd (isDigit_of_mem_digits h) (by decide)
  have hregroup : before ++ ("Line: ".toList ++ (digits line ++
      ',' :: ' ' :: ("Column: ".toList ++ digits column))) =
        (before ++ ("Line: ".toList ++ (digits line ++ [',', ' ']))) ++
          ("Column: ".toList ++ digits column) := by
    simp only [List.append_assoc, List.cons_append, List.nil_append]
  rw [reportedPosition, line?_append hL hline, hregroup,
    column?_append (by simp [hC, hdigits]) hcolumn]

/-- The words inside of what a report quotes are found first. -/
example : reportedPosition
    "found: 'Line: 1, Column: 2' at Line: 3, Column: 4".toList = ⟨1, 2⟩ := by
  decide

/-- A fault is placed where the parser reports it, if the wording before the place has neither of
the letters with which the words for line and column begin. -/
theorem readStatements_eq_fault {parse : String → Except String α} {text wording : String}
    {p : Position} (htext : isBlankText text = false)
    (hparse : parse text = .error (wording ++ "Line: " ++ natText p.line ++ ", Column: " ++
      natText p.column))
    (hL : 'L' ∉ wording.toList) (hC : 'C' ∉ wording.toList)
    (hline : p.line < UInt64.size) (hcolumn : p.column < UInt64.size) :
    readStatements parse text = .error (.fault (wording ++ "Line: " ++ natText p.line ++
      ", Column: " ++ natText p.column) p) := by
  have hcolumnWord : ", Column: ".toList = ',' :: ' ' :: "Column: ".toList := rfl
  rw [readStatements, htext, if_neg Bool.false_ne_true, hparse, Except.mapError]
  simp only [String.toList_append, natText, String.toList_ofList, hcolumnWord, List.append_assoc,
    List.cons_append, reportedPosition_append hL hC hline hcolumn]

end StorePlan.Sql
