import StorePlan.Sql.Lexeme

/-
Reading SQL text back. The parser is not part of the library: it is a
parameter that answers with what it reads or with the report of a fault. A
report tells the place of the fault in its wording only, and there it is
looked for.
-/

namespace StorePlan.Sql

open Text

/-- Why SQL text cannot be read. -/
inductive ReadError where
  | empty
  /-- The fault as it is reported, and the place that the report names. -/
  | fault (report : String) (position : Position)
deriving DecidableEq

/-- The message of an error. -/
def ReadError.message : ReadError → String
  | empty => "[S002] SQL is empty"
  | fault report p =>
    "[S001] SQL parse error at line " ++ natText p.line ++ ", column " ++ natText p.column ++
      ": " ++ report

/-- What follows the first occurrence of a text. -/
def behind? (searched : List Char) : List Char → Option (List Char)
  | [] => if searched.isEmpty then some [] else none
  | c :: cs =>
    if searched.isPrefixOf (c :: cs) then some ((c :: cs).drop searched.length)
    else behind? searched cs

/-- The line that a report names: the number up to the first comma behind `Line: `. -/
def line? (report : List Char) : Option Nat := do
  let rest ← behind? "Line: ".toList report
  if rest.contains ',' then readBelow? UInt64.size (trim (rest.takeWhile (· ≠ ','))) else none

/-- The column that a report names: the digits behind `Column: `. -/
def column? (report : List Char) : Option Nat := do
  let rest ← behind? "Column: ".toList report
  readBelow? UInt64.size (rest.takeWhile isDigit)

/-- The place that a report names first, or zeros if it names none. -/
def reportedPosition (report : List Char) : Position :=
  match line? report, column? report with
  | some line, some column => ⟨line, column⟩
  | _, _ => ⟨0, 0⟩

/-- What a parser reads in a text. Blank text is not shown to it. -/
def readStatements (parse : String → Except String α) (text : String) : Except ReadError α :=
  if isBlankText text then .error .empty
  else (parse text).mapError fun report => .fault report (reportedPosition report.toList)

end StorePlan.Sql
