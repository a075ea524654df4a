import StorePlan.Json
import StorePlan.Value.Coercion

/-
Values as document values. Most are plain JSON; decimals, dates and
timestamps are wrapped in an object that names their type. A number that is
not finite has no encoding.
-/

namespace StorePlan.Document

open Number

/-- A literal that the document store cannot hold. -/
structure UnencodableLiteral where
  value : Value

/-- A floating-point number; `original` is what it is reported as. -/
def encodeDouble (x : Double) (original : Value) : Except UnencodableLiteral Json :=
  if x.isFinite then .ok (.double x) else .error ⟨original⟩

/-- An instant, wrapped. -/
def dateWrapper (t : Timestamp) : Json := .field "$date" (.string t.instantText)

mutual

/-- The document value of a value. -/
def encode : Value → Except UnencodableLiteral Json
  | .null => .ok .null
  | .boolean b => .ok (.bool b)
  | .tinyInt i => .ok (.integer i.toInt)
  | .smallInt i => .ok (.integer i.toInt)
  | .integer i => .ok (.integer i.toInt)
  | .bigInt i => .ok (.integer i.toInt)
  | .decimal d => .ok (.field "$numberDecimal" (.string d.text))
  | .real x => encodeDouble x.convert (.real x)
  | .double x => encodeDouble x (.double x)
  | .string s => .ok (.string s)
  | .date d => .ok (dateWrapper d.midnight)
  | .time t => .ok (.string t.text)
  | .timestamp t => .ok (dateWrapper t)
  | .array items => (encodeAll items).map .array
termination_by structural v => v

def encodeAll : List Value → Except UnencodableLiteral (List Json)
  | [] => .ok []
  | v :: rest => do
    let j ← encode v
    return j :: (← encodeAll rest)
termination_by structural vs => vs

end

/-! ## Patterns -/

/-- Characters that mean something in a regular expression. -/
def isRegexMark (c : Char) : Bool := "\\^$.|?*+()[]\x7b\x7d".toList.contains c

/-- One character of a `LIKE` pattern as a part of a regular expression. -/
def regexPart (c : Char) : List Char :=
  if c = '%' then ['.', '*']
  else if c = '_' then ['.']
  else if isRegexMark c then ['\\', c]
  else [c]

/-- The regular expression for a `LIKE` pattern, anchored at both ends. -/
def regexOfLike (pattern : String) : String :=
  String.ofList ('^' :: pattern.toList.flatMap regexPart ++ ['$'])

end StorePlan.Document
