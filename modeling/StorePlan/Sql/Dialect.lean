import StorePlan.Text.Structural
import StorePlan.DataType.Basic

/-
The dialects of SQL: what each can express, and how it writes what they all
can.
-/

namespace StorePlan.Sql

open Text

/-- A dialect. -/
inductive Dialect where
  | ansi
  | postgresql
  | hsqldb
deriving DecidableEq

/-- How a parameter that is an interval is written. -/
inductive IntervalParameters where
  /-- As any other. -/
  | plain
  /-- As a cast to the type of the interval. -/
  | cast
  /-- As a multiple of one unit. -/
  | multiple
deriving DecidableEq

/-- How bounds on the rows of a query are written. -/
inductive Pagination where
  /-- `OFFSET n ROWS FETCH NEXT m ROWS ONLY`. -/
  | offsetFetch
  /-- `LIMIT m OFFSET n`. -/
  | limitOffset
deriving DecidableEq

/-- How rounding down to a unit of time is called. -/
structure Truncation where
  function : String
  /-- Whether the unit is the first argument or the second. -/
  unitFirst : Bool
  /-- The word for a unit. -/
  unitWord? : TimeUnit → Option String

/-- What a dialect can express, and how. -/
structure Features where
  characterSets : Bool
  windows : Bool
  nestedAggregates : Bool
  nestedArrays : Bool
  /-- Whether every item of a `FROM` clause needs a name. -/
  namedSources : Bool
  intervalParameters : IntervalParameters
  pagination : Pagination
deriving DecidableEq

namespace Dialect

def name : Dialect → String
  | ansi => "ansi"
  | postgresql => "postgresql"
  | hsqldb => "hsqldb"

def all : List Dialect := [ansi, postgresql, hsqldb]

def features : Dialect → Features
  | ansi =>
    { characterSets := true
      windows := true
      nestedAggregates := true
      nestedArrays := false
      namedSources := false
      intervalParameters := .multiple
      pagination := .offsetFetch }
  | postgresql =>
    { characterSets := false
      windows := true
      nestedAggregates := false
      nestedArrays := true
      namedSources := true
      intervalParameters := .cast
      pagination := .offsetFetch }
  | hsqldb =>
    { characterSets := false
      windows := false
      nestedAggregates := true
      nestedArrays := false
      namedSources := false
      intervalParameters := .plain
      pagination := .limitOffset }

/-- The largest precision or length that a type can be declared with, if there is a limit. -/
def maxPrecision? (d : Dialect) : DataType → Option Nat
  | .decimal .. => some 19
  | .string _ => some (if d = postgresql then 10 * 1024 * 1024 else 65536)
  | .char _ | .binary => some 65536
  | _ => none

/-- The words of a format for a unit of time. -/
def formatWord? : TimeUnit → Option String
  | .year => some "YYYY"
  | .month => some "MM"
  | .day => some "DD"
  | .week => some "WW"
  | .hour => some "HH24"
  | .minute => some "MI"
  | .second => some "SS"
  | _ => none

def truncation? : Dialect → Option Truncation
  | ansi => none
  | postgresql => some ⟨"DATE_TRUNC", true, fun unit => some unit.name⟩
  | hsqldb => some ⟨"TRUNC", false, formatWord?⟩

/-- Whether a single-value aggregate is written as a case distinction on the number of rows. -/
def countsSingleValues : Dialect → Bool
  | hsqldb => true
  | ansi | postgresql => false

end Dialect

/-! ## Descriptions -/

def Dialect.tag : Dialect → String
  | ansi => "Ansi"
  | postgresql => "PostgreSql"
  | hsqldb => "Hsqldb"

def IntervalParameters.tag : IntervalParameters → String
  | plain => "None"
  | cast => "Cast"
  | multiple => "Multiplication"

def Pagination.tag : Pagination → String
  | offsetFetch => "OffsetFetch"
  | limitOffset => "LimitOffset"

/-- A dialect with the settings that tell it from others. -/
def Dialect.description (d : Dialect) : String :=
  "SqlDialect \x7b product: " ++ d.tag ++ ", identifier_quote: " ++ quoted "\"" ++
    ", interval_parameter_strategy: " ++ d.features.intervalParameters.tag ++
    ", pagination: " ++ d.features.pagination.tag ++ ", .. \x7d"

end StorePlan.Sql
