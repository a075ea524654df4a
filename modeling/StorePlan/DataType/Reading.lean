import StorePlan.DataType.Basic
import StorePlan.Text.Blank
import StorePlan.Text.UpperCase

/-
Reading the text of a data type: names and their synonyms in any case,
parameters in parentheses, interval qualifiers, and array marks behind any
of them.

Text after the closing parenthesis, a second parameter that is no number and
parameters past the last one are ignored. A text whose last `)` stands before
its first `(` is faulty; every other text either names a type or does not.
-/

namespace StorePlan

open Text

/-- What makes a text unreadable as a type text. -/
inductive TypeTextFault where
  | parenthesesReversed
deriving DecidableEq

namespace DataType

/-- Types named by a bare word, synonyms included. -/
def ofName? : String → Option DataType
  | "BOOL" | "BOOLEAN" => some boolean
  | "TINYINT" | "INT1" => some (integer .bits8)
  | "SMALLINT" | "INT2" => some (integer .bits16)
  | "INT" | "INTEGER" | "INT4" => some (integer .bits32)
  | "BIGINT" | "INT8" => some (integer .bits64)
  | "REAL" | "FLOAT4" => some (float .bits32)
  | "FLOAT" | "DOUBLE" | "DOUBLE PRECISION" | "FLOAT8" => some (float .bits64)
  | "DECIMAL" | "NUMERIC" => some (decimal none none)
  | "CHAR" | "CHARACTER" => some (char none)
  | "VARCHAR" | "TEXT" | "STRING" | "CHARACTER VARYING" => some (string none)
  | "DATE" => some date
  | "TIME" => some time
  | "TIMESTAMP" => some timestamp
  | "VARBINARY" | "BINARY" | "BLOB" | "BYTEA" => some binary
  | "FILE" => some (multimedia .file)
  | "IMAGE" => some (multimedia .image)
  | "VIDEO" => some (multimedia .video)
  | "SOUND" | "AUDIO" => some (multimedia .sound)
  | "JSON" => some json
  | _ => none

end DataType

/-- The qualifier named by a list of words. -/
def IntervalQualifier.ofWords? : List String → Option IntervalQualifier
  | ["YEAR"] => some .year
  | ["YEAR", "TO", "MONTH"] => some .yearMonth
  | ["MONTH"] => some .month
  | ["DAY"] => some .day
  | ["DAY", "TO", "HOUR"] => some .dayHour
  | ["DAY", "TO", "MINUTE"] => some .dayMinute
  | ["DAY", "TO", "SECOND"] => some .daySecond
  | ["HOUR"] => some .hour
  | ["HOUR", "TO", "MINUTE"] => some .hourMinute
  | ["HOUR", "TO", "SECOND"] => some .hourSecond
  | ["MINUTE"] => some .minute
  | ["MINUTE", "TO", "SECOND"] => some .minuteSecond
  | ["SECOND"] => some .second
  | _ => none

namespace DataType

/-- What stands in front of an ending. -/
def dropEnding? (ending cs : List Char) : Option (List Char) :=
  if ending.isSuffixOf cs then some (cs.take (cs.length - ending.length)) else none

/-- The item type's text in front of `[]` or ` ARRAY`. -/
def arrayItem? (cs : List Char) : Option (List Char) :=
  match dropEnding? ['[', ']'] cs with
  | some item => some item
  | none => dropEnding? " ARRAY".toList cs

theorem length_lt_of_dropEnding? {ending cs item : List Char} (nonempty : ending ≠ [])
    (h : dropEnding? ending cs = some item) : item.length < cs.length := by
  unfold dropEnding? at h
  split at h
  · rename_i suffix
    have := (List.isSuffixOf_iff_suffix.1 suffix).length_le
    have := List.length_pos_iff.2 nonempty
    cases h
    simp only [List.length_take]
    omega
  · simp at h

theorem length_lt_of_arrayItem? {cs item : List Char} (h : arrayItem? cs = some item) :
    item.length < cs.length := by
  unfold arrayItem? at h
  split at h
  · rename_i item' h'
    cases h
    exact length_lt_of_dropEnding? (by simp) h'
  · exact length_lt_of_dropEnding? (by decide) h

/-- The number in a parameter, when it fits 32 bits. -/
def lengthParameter? (cs : List Char) : Option UInt32 :=
  (readBelow? UInt32.size (trim cs)).map .ofNat

/-- The number in a parameter, when it fits 16 bits. -/
def digitsParameter? (cs : List Char) : Option UInt16 :=
  (readBelow? UInt16.size (trim cs)).map .ofNat

/-- The type with this base name and this text between its parentheses. -/
def ofParameters? (base : String) (parameters : List Char) : Option DataType :=
  match base with
  | "VARCHAR" | "CHARACTER VARYING" => (lengthParameter? parameters).map fun n => string (some n)
  | "CHAR" | "CHARACTER" => (lengthParameter? parameters).map fun n => char (some n)
  | "DECIMAL" | "NUMERIC" =>
    match pieces ',' parameters with
    | [] => none
    | precision :: rest =>
      (digitsParameter? precision).map fun p =>
        decimal (some p) (rest.head?.bind digitsParameter?)
  | _ => none

/-- A base name, the first opening parenthesis, and all up to the last closing one. -/
def readParameterized (cs : List Char) : Except TypeTextFault (Option DataType) :=
  match cs.idxOf? '(', cs.reverse.idxOf? ')' with
  | some opening, some fromEnd =>
    let closing := cs.length - 1 - fromEnd
    if closing < opening then .error .parenthesesReversed
    else
      let base := String.ofList (trim (cs.take opening))
      .ok (ofParameters? base ((cs.drop (opening + 1)).take (closing - opening - 1)))
  | _, _ => .ok none

/-- A type text that is no array and no bare word. -/
def readScalar (cs : List Char) : Except TypeTextFault (Option DataType) :=
  match "INTERVAL ".toList.isPrefixOf? cs with
  | some qualifier =>
    .ok ((IntervalQualifier.ofWords? ((words qualifier).map String.ofList)).map interval)
  | none => readParameterized cs

/-- The type that an upper-case text names, blanks around it and around item types aside. -/
def readUpper (text : List Char) : Except TypeTextFault (Option DataType) :=
  match ofName? (String.ofList (trim text)) with
  | some t => .ok (some t)
  | none =>
    match _h : arrayItem? (trim text) with
    | some item => (readUpper item).map (·.map array)
    | none => readScalar (trim text)
termination_by text.length
decreasing_by
  have := length_lt_of_arrayItem? _h
  have := length_trim_le text
  omega

/-- The type that a text names, if it names one. -/
def read (s : String) : Except TypeTextFault (Option DataType) :=
  readUpper (upper (trim s.toList))

end DataType

end StorePlan
