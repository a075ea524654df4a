import StorePlan.Plan.Error

/-
Building nodes. `Plan.build` checks an operator against its inputs, brings
grouped fields into ascending order without repetition, and derives the row
type; every other way to a node goes through it.

The checks come in a fixed order, and the first that fails decides.
-/

namespace StorePlan

/-- Stops with an error unless a test holds. -/
def require (holds : Bool) (otherwise : PlanError) : Except PlanError Unit :=
  if holds then .ok () else .error otherwise

/-- Stops with an error for the first item that is one of the bad ones. -/
def refuse (item : Option α) (because : α → PlanError) : Except PlanError Unit :=
  match item with
  | some a => .error (because a)
  | none => .ok ()

/-- Puts a number into its place in an ascending list, unless it is there. -/
def insertAscending (n : Nat) : List Nat → List Nat
  | [] => [n]
  | m :: rest =>
    if n < m then n :: m :: rest
    else if n = m then m :: rest
    else m :: insertAscending n rest

/-- The numbers of a list, each once, in ascending order. -/
def ascending (ns : List Nat) : List Nat := ns.foldr insertAscending []

namespace Operator

/-- The operator with its grouped fields in ascending order. -/
def normalize : Operator → Operator
  | aggregate fields sets calls =>
    aggregate (ascending fields) (sets.map (·.map ascending)) calls
  | op => op

end Operator

/-- Checks the number of a call's arguments, and that each is a field of the input. -/
def AggregateCall.validate (c : AggregateCall) (input : Schema) : Except PlanError Unit := do
  require (c.function.arity.allows c.arguments.length)
    (.argumentCount c.function c.arguments.length)
  refuse (c.arguments.find? (input.width ≤ ·)) (.fieldOutOfRange .aggregate · input.width)

namespace Operator

/-- A condition refers to fields of the row only and is of type Boolean. -/
def checkCondition (kind : OperatorKind) (condition : RowExpr) (width : Nat) :
    Except PlanError Unit := do
  refuse (condition.fieldBeyond? width) (.fieldOutOfRange kind · width)
  require (condition.type == .boolean) (.conditionType kind condition.type)

/-- One row of values has the row type's width, and each value may stand in its column. -/
def checkRow (schema : Schema) (index : Nat) (row : List Value) : Except PlanError Unit := do
  require (row.length == schema.width) (.rowWidth index row.length schema.width)
  refuse ((row.zip schema.columns).find? fun (v, c) => !v.conformsTo c.type)
    fun (v, c) => .rowValue index v c

def checkRows (schema : Schema) : Nat → List (List Value) → Except PlanError Unit
  | _, [] => .ok ()
  | index, row :: rest => do
    checkRow schema index row
    checkRows schema (index + 1) rest

/-- Whether the column of an expression may hold `NULL`: as the field does, if the literal is
`NULL`, and for every call. -/
def isNullable (input : Schema) : RowExpr → Bool
  | .field i _ => ((input.column? i).map (·.nullable)).getD true
  | .literal v _ => v.isNull
  | .call .. => true

/-- The column of a named expression. -/
def projectColumn (input : Schema) (item : String × RowExpr) : Except PlanError Column := do
  let (name, expr) := item
  refuse (expr.fieldBeyond? input.width) (.fieldOutOfRange .project · input.width)
  return ⟨name, expr.type, isNullable input expr⟩

/-- Grouping sets, if given, are not none at all, and each holds grouped fields only. -/
def checkSets (fields : List Nat) : Option (List (List Nat)) → Except PlanError Unit
  | none => .ok ()
  | some sets => do
    require (!sets.isEmpty) .noGroupingSets
    refuse (sets.find? fun set => set.any fun f => !fields.contains f)
      (.groupingSetOutside · fields)

def checkCalls (input : Schema) : List AggregateCall → Except PlanError Unit
  | [] => .ok ()
  | c :: rest => do
    c.validate input
    checkCalls input rest

/-- What the store can compute: distinct arguments and several groupings at once only where the
convention allows them. -/
def checkSupport (convention : Convention) (grouping : Grouping) (calls : List AggregateCall) :
    Except PlanError Unit := do
  if !convention.allowsDistinct then
    refuse (calls.find? (·.distinct)) (.distinctAggregate convention ·)
  require (grouping == .simple || convention.allowsGroupingSets)
    (.unsupportedGrouping convention grouping)

/-- The columns of grouped fields; rows of a coarser grouping hold `NULL` in the others. -/
def keyColumns (input : Schema) (grouping : Grouping) (fields : List Nat) : List Column :=
  (fields.filterMap input.column?).map fun c =>
    if grouping = .simple then c else { c with nullable := true }

/-- The name of a call's column when none is given: by its position in the row. -/
def generatedName (position : Nat) : String := "$f" ++ Text.natText position

/-- The columns of calls, the first of them at a position. -/
def callColumns (input : Schema) : Nat → List AggregateCall → List Column
  | _, [] => []
  | position, c :: rest =>
    ⟨c.name.getD (generatedName position), c.resultType input, c.isNullable⟩ ::
      callColumns input (position + 1) rest

def aggregateSchema (input : Schema) (convention : Convention) (fields : List Nat)
    (sets : Option (List (List Nat))) (calls : List AggregateCall) : Except PlanError Schema := do
  refuse (fields.find? (input.width ≤ ·)) (.fieldOutOfRange .aggregate · input.width)
  checkSets fields sets
  checkCalls input calls
  let grouping := Grouping.classify fields sets
  checkSupport convention grouping calls
  -- Positions of calls count the grouped fields, so that generated names differ from each other.
  let keys := keyColumns input grouping fields
  return ⟨keys ++ callColumns input keys.length calls⟩

/-- The row type of a join: columns that may be missing for want of a partner may be `NULL`. -/
def joinSchema (type : JoinType) (left right : Schema) : Schema :=
  -- Rows that are kept on one side find no partner on the other.
  let left := if type.keepsRight then left.asNullable else left
  let right := if type.keepsLeft then right.asNullable else right
  left.append right

/-- Columns of a union after one more input: of the same type names, and nullable if either is. -/
def unionColumns (input : Nat) : List Column → List Column → Except PlanError (List Column)
  | c :: cs, d :: ds => do
    require (c.type.name == d.type.name) (.unionType input c d.type)
    return { c with nullable := c.nullable || d.nullable } :: (← unionColumns input cs ds)
  | cs, _ => .ok cs

/-- The row type of a union: that of the first input, widened by the others in turn. -/
def unionSchema (first : Schema) : Nat → List Schema → Except PlanError Schema
  | _, [] => .ok first
  | input, other :: rest => do
    require (other.width == first.width) (.unionWidth input other.width first.width)
    let columns ← unionColumns input first.columns other.columns
    unionSchema ⟨columns⟩ (input + 1) rest

/-- The row type over inputs of these row types. -/
def outputSchema (op : Operator) (convention : Convention) (inputs : List Schema) :
    Except PlanError Schema :=
  let input := inputs.headD .empty
  match op with
  | scan _ schema => .ok schema
  | values schema rows => do
    checkRows schema 0 rows
    return schema
  | filter condition => do
    checkCondition .filter condition input.width
    return input
  | project exprs => do
    return ⟨← exprs.mapM (projectColumn input)⟩
  | aggregate fields sets calls => aggregateSchema input convention fields sets calls
  | join type condition =>
    match inputs with
    | [left, right] => do
      checkCondition .join condition (left.width + right.width)
      return joinSchema type left right
    -- `Plan.build` counts the inputs before it asks for the row type.
    | _ => .error (.inputCount .join inputs.length)
  | sort keys _ _ => do
    refuse (keys.find? (input.width ≤ ·.field)) (.fieldOutOfRange .sort ·.field input.width)
    return input
  | union _ => unionSchema input 1 inputs.tail

end Operator

namespace Plan

/-- A node over inputs of its own convention. -/
def build (op : Operator) (inputs : List Plan) (convention : Convention) :
    Except PlanError Plan := do
  require (op.kind.takes inputs.length) (.inputCount op.kind inputs.length)
  refuse (inputs.find? (·.convention != convention))
    fun input => .foreignInput op.kind convention input.convention
  let op := op.normalize
  let schema ← op.outputSchema convention (inputs.map (·.schema))
  return ⟨op, inputs, schema, convention⟩

/-- A node that takes over the convention of its first input. -/
def buildOver (op : Operator) (inputs : List Plan) : Except PlanError Plan :=
  match inputs with
  | [] => .error (.inputCount op.kind 0)
  | first :: _ => build op inputs first.convention

def scan (table : String) (schema : Schema) (convention : Convention) : Except PlanError Plan :=
  build (.scan table schema) [] convention

def values (schema : Schema) (rows : List (List Value)) (convention : Convention) :
    Except PlanError Plan :=
  build (.values schema rows) [] convention

def filter (input : Plan) (condition : RowExpr) : Except PlanError Plan :=
  buildOver (.filter condition) [input]

def project (input : Plan) (exprs : List (String × RowExpr)) : Except PlanError Plan :=
  buildOver (.project exprs) [input]

/-- An aggregate that groups once, by all grouped fields. -/
def aggregate (input : Plan) (fields : List Nat) (calls : List AggregateCall) :
    Except PlanError Plan :=
  buildOver (.aggregate fields none calls) [input]

def join (left right : Plan) (type : JoinType) (condition : RowExpr) : Except PlanError Plan :=
  buildOver (.join type condition) [left, right]

def sort (input : Plan) (keys : List Collation) (offset fetch : Option UInt64) :
    Except PlanError Plan :=
  buildOver (.sort keys offset fetch) [input]

def union (inputs : List Plan) (all : Bool) : Except PlanError Plan :=
  buildOver (.union all) inputs

end Plan

end StorePlan
