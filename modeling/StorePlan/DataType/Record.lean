import StorePlan.DataType.Basic
import StorePlan.Json.Fields

/-
Records of data types: the JSON form that plans are exchanged in. A case
without parts is its tag, a case with parts an object whose one field is the
tag. A part that may be absent may be left out of a record that is read.
-/

namespace StorePlan

def IntWidth.tag : IntWidth → String
  | bits8 => "I8"
  | bits16 => "I16"
  | bits32 => "I32"
  | bits64 => "I64"

def FloatWidth.tag : FloatWidth → String
  | bits32 => "F32"
  | bits64 => "F64"

def TimeUnit.tag : TimeUnit → String
  | millennium => "Millennium"
  | century => "Century"
  | decade => "Decade"
  | year => "Year"
  | quarter => "Quarter"
  | month => "Month"
  | week => "Week"
  | day => "Day"
  | hour => "Hour"
  | minute => "Minute"
  | second => "Second"
  | millisecond => "Millisecond"
  | microsecond => "Microsecond"

def IntervalQualifier.tag : IntervalQualifier → String
  | yearMonth => "YearMonth"
  | year => "Year"
  | month => "Month"
  | day => "Day"
  | dayHour => "DayHour"
  | dayMinute => "DayMinute"
  | daySecond => "DaySecond"
  | hour => "Hour"
  | hourMinute => "HourMinute"
  | hourSecond => "HourSecond"
  | minute => "Minute"
  | minuteSecond => "MinuteSecond"
  | second => "Second"

def MediaKind.tag : MediaKind → String
  | file => "File"
  | image => "Image"
  | video => "Video"
  | sound => "Sound"

/-- The record of a data type. -/
def DataType.record : DataType → Json
  | boolean => .string "Boolean"
  | integer w => .field "Integer" (.field "bits" (.string w.tag))
  | decimal p s =>
    .field "Decimal" (.object
      [("precision", .optional (fun n => .nat n.toNat) p),
       ("scale", .optional (fun n => .nat n.toNat) s)])
  | float w => .field "Float" (.field "bits" (.string w.tag))
  | char n => .field "Char" (.field "length" (.optional (fun n => .nat n.toNat) n))
  | string n => .field "String" (.field "max_length" (.optional (fun n => .nat n.toNat) n))
  | date => .string "Date"
  | time => .string "Time"
  | timestamp => .string "Timestamp"
  | interval q => .field "Interval" (.string q.tag)
  | binary => .string "Binary"
  | multimedia k => .field "Multimedia" (.string k.tag)
  | json => .string "Json"
  | array t => .field "Array" t.record
  | null => .string "Null"

/-! ## Reading -/

def IntWidth.ofRecord? : Json → Option IntWidth :=
  Json.choice? IntWidth.tag [bits8, bits16, bits32, bits64]

def FloatWidth.ofRecord? : Json → Option FloatWidth :=
  Json.choice? FloatWidth.tag [bits32, bits64]

def TimeUnit.ofRecord? : Json → Option TimeUnit :=
  Json.choice? TimeUnit.tag
    [millennium, century, decade, year, quarter, month, week, day, hour, minute, second,
     millisecond, microsecond]

def IntervalQualifier.ofRecord? : Json → Option IntervalQualifier :=
  Json.choice? IntervalQualifier.tag
    [yearMonth, year, month, day, dayHour, dayMinute, daySecond, hour, hourMinute, hourSecond,
     minute, minuteSecond, second]

def MediaKind.ofRecord? : Json → Option MediaKind :=
  Json.choice? MediaKind.tag [file, image, video, sound]

namespace DataType

/-- The data types without parts. -/
def plain : List DataType := [boolean, date, time, timestamp, binary, json, null]

/-- A data type with parts that is no array. -/
def ofParts? (tag : String) (parts : Json) : Option DataType :=
  match tag with
  | "Integer" => do return integer (← parts.get? "bits" IntWidth.ofRecord?)
  | "Decimal" => do
    return decimal (← parts.getNullable? "precision" Json.uint16?)
      (← parts.getNullable? "scale" Json.uint16?)
  | "Float" => do return float (← parts.get? "bits" FloatWidth.ofRecord?)
  | "Char" => do return char (← parts.getNullable? "length" Json.uint32?)
  | "String" => do return string (← parts.getNullable? "max_length" Json.uint32?)
  | "Interval" => (IntervalQualifier.ofRecord? parts).map interval
  | "Multimedia" => (MediaKind.ofRecord? parts).map multimedia
  | _ => none

/-- The data type of a record. -/
def ofRecord? : Json → Option DataType
  | .object [(tag, .null)] => Json.plain? record plain (.string tag)
  | .object [(tag, parts)] =>
    if tag = "Array" then (ofRecord? parts).map array else ofParts? tag parts
  | j => Json.plain? record plain j
termination_by structural j => j

end DataType

end StorePlan
