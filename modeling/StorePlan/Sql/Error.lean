import StorePlan.Sql.Dialect
import StorePlan.Sql.Op

/-
Why a syntax tree cannot be written in a dialect.
-/

namespace StorePlan.Sql

open Text

/-- What a dialect may lack. -/
inductive Feature where
  | windows
  | nestedArrays
  | nestedAggregates (op : Op)
deriving DecidableEq

def Feature.text : Feature → String
  | windows => "window functions"
  | nestedArrays => "nested arrays"
  | nestedAggregates op => "nested aggregation in " ++ op.name

/-- What is wrong with a tree in every dialect. -/
inductive MalformedNode where
  | noRows
  | noBranches
  | joinOutsideFrom
  | operandCount (op : Op) (actual : Nat)
deriving DecidableEq

def MalformedNode.text : MalformedNode → String
  | noRows => "VALUES without rows"
  | noBranches => "CASE without WHEN"
  | joinOutsideFrom => "JOIN outside a FROM clause"
  | operandCount op actual =>
    op.name ++ " expects " ++ op.operandsText ++ " operand(s), got " ++ natText actual

/-- Causes of failure. -/
inductive WriteError where
  /-- The dialect has no word for the unit. -/
  | timeUnit (dialect : Dialect) (unit : TimeUnit)
  | castTarget (dialect : Dialect) (type : DataType)
  | feature (dialect : Dialect) (lacking : Feature)
  | node (cause : MalformedNode)
deriving DecidableEq

/-- The message of an error. -/
def WriteError.message : WriteError → String
  | timeUnit dialect unit =>
    "[S003] Time unit " ++ unit.name ++ " cannot be truncated in " ++ dialect.name
  | castTarget dialect type =>
    "[S004] Cannot cast to " ++ type.text ++ " in " ++ dialect.name
  | feature dialect lacking =>
    "[S005] " ++ lacking.text ++ " not supported by " ++ dialect.name
  | node cause => "[S006] Invalid SQL node: " ++ cause.text

end StorePlan.Sql
