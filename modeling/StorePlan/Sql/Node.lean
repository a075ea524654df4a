import StorePlan.Sql.Op
import StorePlan.Value.Basic

/-
SQL syntax trees, the same for every dialect: expressions, query blocks, set
operations, joins and rows of values.
-/

namespace StorePlan.Sql

open Text

/-- A literal. Numbers, dates and times are kept as they were written. -/
inductive Literal where
  | null
  | boolean (b : Bool)
  | exact (text : String)
  | approximate (text : String)
  | string (s : String)
  | date (text : String)
  | time (text : String)
  | timestamp (text : String)
  | interval (text : String) (qualifier : IntervalQualifier)
  /-- The keyword of a unit of time. -/
  | unit (unit : TimeUnit)
deriving DecidableEq

/-- How the rows of two queries are put together. -/
inductive SetOperator where
  | union
  | unionAll
  | intersect
  | except
deriving DecidableEq

def SetOperator.name : SetOperator → String
  | union => "UNION"
  | unionAll => "UNION ALL"
  | intersect => "INTERSECT"
  | except => "EXCEPT"

/-- How the items of a `FROM` clause are joined. -/
inductive JoinKind where
  | inner
  | left
  | right
  | full
  | cross
deriving DecidableEq

def JoinKind.name : JoinKind → String
  | inner => "INNER JOIN"
  | left => "LEFT JOIN"
  | right => "RIGHT JOIN"
  | full => "FULL JOIN"
  | cross => "CROSS JOIN"

/-- A query block over nodes of a kind. -/
structure Select (α : Type) where
  distinct : Bool := false
  /-- What is selected; no items select everything. -/
  items : List α
  source : Option α := none
  condition : Option α := none
  groupBy : List α := []
  having : Option α := none
  orderBy : List α := []
  offset : Option α := none
  fetch : Option α := none

/-- Whether the block skips rows or bounds their number. -/
def Select.isPaged (s : Select α) : Bool := s.offset.isSome || s.fetch.isSome

/-- A syntax tree. -/
inductive Node where
  /-- A name of one or more parts. -/
  | name (parts : List String)
  | star
  | literal (literal : Literal)
  | call (op : Op) (operands : List Node) (distinct : Bool)
  | cast (operand : Node) (target : DataType)
  | caseOf (subject : Option Node) (branches : List (Node × Node)) (otherwise : Option Node)
  /-- A parameter, by its number, with its type if that is known. -/
  | parameter (index : Nat) (type : Option DataType)
  | array (items : List Node)
  /-- A call over a window of rows. -/
  | window (call : Node) (partitionBy orderBy : List Node)
  /-- An expression with a name given to it. -/
  | aliased (operand : Node) (name : String)
  /-- A sort key. -/
  | sortKey (operand : Node) (descending : Bool) (nullsFirst : Option Bool)
  | join (left right : Node) (kind : JoinKind) (condition : Option Node)
  | select (block : Select Node)
  | setOperation (op : SetOperator) (left right : Node)
  | values (rows : List (List Node))
deriving Inhabited

namespace Node

/-- Whether a node stands for rows. -/
def isQuery : Node → Bool
  | select _ | setOperation .. | values _ => true
  | _ => false

def isArray : Node → Bool
  | array _ => true
  | _ => false

def null : Node := literal .null

/-- A natural number. -/
def number (n : Nat) : Node := literal (.exact (natText n))

def string (s : String) : Node := literal (.string s)

/-- A call without `DISTINCT`. -/
def apply (op : Op) (operands : List Node) : Node := call op operands false

/-- The block with bounds on its rows. -/
def paged (s : Select Node) (offset fetch : Option UInt64) : Select Node :=
  { s with offset := offset.map fun n => number n.toNat, fetch := fetch.map fun n => number n.toNat }

mutual

/-- Whether an aggregate is called in the expression. Windows and queries are not looked into. -/
def hasAggregate : Node → Bool
  | call op operands _ => op.isAggregate || anyHasAggregate operands
  | cast operand _ => operand.hasAggregate
  | aliased operand _ => operand.hasAggregate
  | sortKey operand _ _ => operand.hasAggregate
  | caseOf subject branches otherwise =>
    optionHasAggregate subject || branchHasAggregate branches || optionHasAggregate otherwise
  | array items => anyHasAggregate items
  | _ => false
termination_by structural n => n

def anyHasAggregate : List Node → Bool
  | [] => false
  | n :: rest => n.hasAggregate || anyHasAggregate rest
termination_by structural ns => ns

def optionHasAggregate : Option Node → Bool
  | none => false
  | some n => n.hasAggregate
termination_by structural n => n

def branchHasAggregate : List (Node × Node) → Bool
  | [] => false
  | (w, t) :: rest => w.hasAggregate || t.hasAggregate || branchHasAggregate rest
termination_by structural bs => bs

end

mutual

/-- The tree for a value: a literal, or an array of such trees. -/
def ofValue : Value → Node
  | .null => null
  | .boolean b => literal (.boolean b)
  | .tinyInt i => literal (.exact (intText i.toInt))
  | .smallInt i => literal (.exact (intText i.toInt))
  | .integer i => literal (.exact (intText i.toInt))
  | .bigInt i => literal (.exact (intText i.toInt))
  | .decimal d => literal (.exact d.text)
  | .real x => literal (.approximate (x.text .plain))
  | .double x => literal (.approximate (x.text .plain))
  | .string s => string s
  | .date d => literal (.date d.text)
  | .time t => literal (.time t.text)
  | .timestamp t => literal (.timestamp t.text)
  | .array items => array (ofValues items)
termination_by structural v => v

def ofValues : List Value → List Node
  | [] => []
  | v :: rest => ofValue v :: ofValues rest
termination_by structural vs => vs

end

/-- One row with the number zero. -/
def zeroRow : Node := values [[literal (.approximate "0")]]

/-- The value of the only row, by counting: `NULL` for no row, and two rows where one is expected
for more than one. -/
def singleValueCase (operand : Node) : Node :=
  caseOf (some (apply .count [star]))
    [(number 0, null), (number 1, apply .min [operand])]
    (some (setOperation .unionAll zeroRow zeroRow))

/-- The first operand of a call, or a star if there is none; a node that is no call is its own
operand. -/
def firstOperand : Node → Node
  | call _ [] _ => star
  | call _ (operand :: _) _ => operand
  | n => n

end Node

end StorePlan.Sql
