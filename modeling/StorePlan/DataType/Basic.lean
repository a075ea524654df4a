import StorePlan.Text.Numeral

/-
The data types every store has to understand, and their names.
-/

namespace StorePlan

/-- Widths of signed integers, narrowest first. -/
inductive IntWidth where
  | bits8
  | bits16
  | bits32
  | bits64
deriving DecidableEq

/-- Number of bits. -/
def IntWidth.bits : IntWidth → Nat
  | bits8 => 8
  | bits16 => 16
  | bits32 => 32
  | bits64 => 64

/-- The wider of two widths. -/
def IntWidth.max (a b : IntWidth) : IntWidth := if a.bits ≤ b.bits then b else a

/-- Widths of binary floating-point numbers. -/
inductive FloatWidth where
  | bits32
  | bits64
deriving DecidableEq

/-- Number of bits. -/
def FloatWidth.bits : FloatWidth → Nat
  | bits32 => 32
  | bits64 => 64

/-- The wider of two widths. -/
def FloatWidth.max (a b : FloatWidth) : FloatWidth := if a.bits ≤ b.bits then b else a

/-- Units of time, coarsest first. -/
inductive TimeUnit where
  | millennium
  | century
  | decade
  | year
  | quarter
  | month
  | week
  | day
  | hour
  | minute
  | second
  | millisecond
  | microsecond
deriving DecidableEq

/-- The keyword of a unit. -/
def TimeUnit.name : TimeUnit → String
  | millennium => "MILLENNIUM"
  | century => "CENTURY"
  | decade => "DECADE"
  | year => "YEAR"
  | quarter => "QUARTER"
  | month => "MONTH"
  | week => "WEEK"
  | day => "DAY"
  | hour => "HOUR"
  | minute => "MINUTE"
  | second => "SECOND"
  | millisecond => "MILLISECOND"
  | microsecond => "MICROSECOND"

/-- The fields an interval is made of: one unit, or all from one unit down to another. -/
inductive IntervalQualifier where
  | yearMonth
  | year
  | month
  | day
  | dayHour
  | dayMinute
  | daySecond
  | hour
  | hourMinute
  | hourSecond
  | minute
  | minuteSecond
  | second
deriving DecidableEq

namespace IntervalQualifier

/-- The coarsest unit. -/
def start : IntervalQualifier → TimeUnit
  | yearMonth | year => .year
  | month => .month
  | day | dayHour | dayMinute | daySecond => .day
  | hour | hourMinute | hourSecond => .hour
  | minute | minuteSecond => .minute
  | second => .second

/-- The finest unit of a range. -/
def stop? : IntervalQualifier → Option TimeUnit
  | yearMonth => some .month
  | dayHour => some .hour
  | dayMinute | hourMinute => some .minute
  | daySecond | hourSecond | minuteSecond => some .second
  | _ => none

/-- `DAY` or `DAY TO SECOND`. -/
def text (q : IntervalQualifier) : String :=
  match q.stop? with
  | some unit => q.start.name ++ " TO " ++ unit.name
  | none => q.start.name

end IntervalQualifier

/-- Kinds of content that stores hold as opaque bytes. -/
inductive MediaKind where
  | file
  | image
  | video
  | sound
deriving DecidableEq

/-- A data type. -/
inductive DataType where
  | boolean
  | integer (width : IntWidth)
  /-- An exact number, with a number of digits and a number of those behind the point. -/
  | decimal (precision scale : Option UInt16)
  | float (width : FloatWidth)
  /-- Character strings of one fixed length. -/
  | char (length : Option UInt32)
  /-- Character strings of any length up to a maximum. -/
  | string (maxLength : Option UInt32)
  | date
  | time
  | timestamp
  | interval (qualifier : IntervalQualifier)
  | binary
  | multimedia (kind : MediaKind)
  | json
  | array (component : DataType)
  /-- The type of a bare `NULL`. -/
  | null
deriving DecidableEq, Inhabited

namespace DataType

def isNumeric : DataType → Bool
  | integer _ | float _ | decimal .. => true
  | _ => false

def isInteger : DataType → Bool
  | integer _ => true
  | _ => false

/-- Character types, of fixed or varying length. -/
def isString : DataType → Bool
  | string _ | char _ => true
  | _ => false

def isInterval : DataType → Bool
  | interval _ => true
  | _ => false

def isMultimedia : DataType → Bool
  | multimedia _ => true
  | _ => false

def isTemporal : DataType → Bool
  | date | time | timestamp => true
  | _ => false

def component? : DataType → Option DataType
  | array t => some t
  | _ => none

/-- Number of array levels. -/
def depth : DataType → Nat
  | array t => t.depth + 1
  | _ => 0

/-- The type below all array levels. -/
def innermost : DataType → DataType
  | array t => t.innermost
  | t => t

/-- The name without parameters. -/
def name : DataType → String
  | boolean => "BOOLEAN"
  | integer .bits8 => "TINYINT"
  | integer .bits16 => "SMALLINT"
  | integer .bits32 => "INTEGER"
  | integer .bits64 => "BIGINT"
  | decimal .. => "DECIMAL"
  | float .bits32 => "REAL"
  | float .bits64 => "DOUBLE"
  | char _ => "CHAR"
  | string _ => "VARCHAR"
  | date => "DATE"
  | time => "TIME"
  | timestamp => "TIMESTAMP"
  | interval _ => "INTERVAL"
  | binary => "VARBINARY"
  | multimedia .file => "FILE"
  | multimedia .image => "IMAGE"
  | multimedia .video => "VIDEO"
  | multimedia .sound => "SOUND"
  | json => "JSON"
  | array _ => "ARRAY"
  | null => "NULL"

/-- The name with its parameters. A scale is written only behind a precision. -/
def text : DataType → String
  | decimal (some p) (some s) =>
    "DECIMAL(" ++ Text.natText p.toNat ++ "," ++ Text.natText s.toNat ++ ")"
  | decimal (some p) none => "DECIMAL(" ++ Text.natText p.toNat ++ ")"
  | char (some n) => "CHAR(" ++ Text.natText n.toNat ++ ")"
  | string (some n) => "VARCHAR(" ++ Text.natText n.toNat ++ ")"
  | interval q => "INTERVAL " ++ q.text
  | array t => t.text ++ " ARRAY"
  | t => t.name

end DataType

end StorePlan
