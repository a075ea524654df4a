import StorePlan.Sql.CastTarget
import StorePlan.Sql.Node
import StorePlan.Sql.Token

/-
Syntax trees as SQL text. One traversal serves every dialect.

What is written around a node depends on its place. An expression is put in
brackets where it binds less strongly than its place demands, a query wherever
it is not the statement itself or the operand of a set operation, and an
operand of a set operation where it bounds its own rows.
-/

namespace StorePlan.Sql

open Text

/-- Where a node stands. -/
inductive Place where
  /-- By itself. -/
  | statement
  /-- On one side of a set operation. -/
  | setOperand
  /-- In a `FROM` clause. -/
  | source
  /-- In an expression, where no brackets are needed around what binds at least this strongly. -/
  | operand (precedence : Nat)
deriving DecidableEq

/-- Where any expression stands without brackets. -/
def Place.free : Place := .operand 0

/-- How strongly an expression has to bind in a place. -/
def Place.precedence : Place → Nat
  | operand p => p
  | statement | setOperand | source => 0

/-- What computes tokens. -/
abbrev Write := Except WriteError (List Token)

namespace Dialect

/-! ## Leaves -/

def namePart (part : String) : Token := if part = "*" then .word "*" else .name part

/-- A name of one or more parts, separated by points. -/
def nameTokens : List String → List Token
  | [] => []
  | [part] => [namePart part]
  | part :: rest => [namePart part, .word "."] ++ nameTokens rest

def literalTokens : Literal → List Token
  | .null => [.word "NULL"]
  | .boolean b => [.word (if b then "TRUE" else "FALSE")]
  | .exact t => [.number t]
  | .approximate t => [.number t]
  | .string s => [.string s]
  | .date t => [.word "DATE", .blank, .string t]
  | .time t => [.word "TIME", .blank, .string t]
  | .timestamp t => [.word "TIMESTAMP", .blank, .string t]
  | .interval t q => [.word "INTERVAL", .blank, .string t, .blank, .word q.text]
  | .unit u => [.word u.name]

/-- A cast of written tokens. -/
def castTokens (operand : List Token) (target : CastTarget) : List Token :=
  .word "CAST" :: bracketed (operand ++ spaced "AS" ++ [.word target.text])

/-- A parameter; one that is an interval is written as the dialect demands. -/
def parameterTokens (d : Dialect) (index : Nat) (type : Option DataType) : Write :=
  match type with
  | some (.interval q) =>
    match d.features.intervalParameters with
    | .plain => .ok [.parameter index]
    | .cast => do return castTokens [.parameter index] (← d.castTarget (.interval q))
    | .multiple =>
      .ok ([.parameter index] ++ spaced "*" ++
        [.word "INTERVAL", .blank, .string "1", .blank, .word q.start.name])
  | _ => .ok [.parameter index]

/-- A name given to what stands before. -/
def aliasTokens (name : Token) : List Token := spaced "AS" ++ [name]

/-! ## Calls -/

/-- Refuses an aggregate inside of an aggregate where the dialect has no such calls. -/
def checkNesting (d : Dialect) (op : Op) (operands : List Node) : Except WriteError Unit :=
  if op.isAggregate && !d.features.nestedAggregates && Node.anyHasAggregate operands then
    .error (.feature d (.nestedAggregates op))
  else .ok ()

/-- Refuses an operator with too few or too many operands. -/
def checkOperands (op : Op) (operands : List Node) : Except WriteError Unit :=
  if op.takes operands.length then .ok () else .error (.node (.operandCount op operands.length))

/-- Rounding to a unit of time. -/
inductive Rounding where
  /-- `FLOOR(x TO unit)` -/
  | toUnit (unit : TimeUnit)
  /-- A call of the dialect's function with a word for the unit. -/
  | truncation (function : String) (unitFirst : Bool) (word : String)

/-- The unit that a call rounds its operand to. -/
def roundingUnit? (op : Op) (operands : List Node) : Option TimeUnit :=
  match operands with
  | [_, .literal (.unit u)] => if op = .floor ∨ op = .ceil then some u else none
  | _ => none

/-- How a call that rounds to a unit is written; other calls do not round. -/
def rounding? (d : Dialect) (op : Op) (operands : List Node) :
    Except WriteError (Option Rounding) :=
  match roundingUnit? op operands with
  | none => .ok none
  | some u =>
    match d.truncation? with
    | some t =>
      if op = .floor then
        match t.unitWord? u with
        | some word => .ok (some (.truncation t.function t.unitFirst word))
        | none => .error (.timeUnit d u)
      else .ok (some (.toUnit u))
    | none => .ok (some (.toUnit u))

/-- A call that rounds written tokens. -/
def roundingTokens (op : Op) (operand : List Token) : Rounding → List Token
  | .toUnit u => .function op.name :: bracketed (operand ++ spaced "TO" ++ [.word u.name])
  | .truncation function unitFirst word =>
    let arguments := if unitFirst then [[.string word], operand] else [operand, [.string word]]
    .function function :: bracketed (commaSeparated arguments)

/-- The operands of a function in brackets. -/
def argumentTokens (distinct : Bool) (operands : List (List Token)) : List Token :=
  bracketed ((if distinct then [.word "DISTINCT", .blank] else []) ++ commaSeparated operands)

/-- A function call. A sum that is zero over no rows is a sum with a default. -/
def functionTokens (op : Op) (distinct : Bool) (operands : List (List Token)) : List Token :=
  if op = .sumOrZero then
    .function "COALESCE" :: bracketed
      ((.function "SUM" :: argumentTokens distinct operands) ++ [.word ",", .blank, .number "0"])
  else .function op.name :: argumentTokens distinct operands

/-- What a leading operator writes between itself and its operand. A sign in front of a sign would
start a comment. -/
def leadingGap (op : Op) (operand : List Token) : List Token :=
  if op = .not ∨ startsWithMinus operand then [.blank] else []

/-- An operator around its written operands, which are as many as it takes. -/
def operatorTokens (op : Op) (distinct : Bool) (operands : List Node)
    (written : List (List Token)) : List Token :=
  match op.layout, written with
  | .binary, [left, right] => left ++ spaced op.name ++ right
  | .leading, [operand] => .word op.name :: leadingGap op operand ++ operand
  | .trailing, [operand] => operand ++ [.blank, .word op.name]
  -- `IN` has as many operands as `BETWEEN` if its list has two items.
  | .special, [value, low, high] =>
    if op = .between then value ++ spaced op.name ++ low ++ spaced "AND" ++ high
    else value ++ spaced op.name ++ bracketed (commaSeparated [low, high])
  | .special, value :: list =>
    value ++ spaced op.name ++
      if (operands.drop 1).any Node.isQuery && list.length == 1 then commaSeparated list
      else bracketed (commaSeparated list)
  | _, written => functionTokens op distinct written

/-- What stands for the value of the only row where the rows are counted. -/
def singleValueTokens (operand : List Token) : List Token :=
  let zeroRow : List Token := [.word "VALUES", .blank] ++ bracketed [.number "0"]
  [.word "CASE", .blank, .function "COUNT"] ++ bracketed [.word "*"] ++
    spaced "WHEN" ++ [.number "0"] ++ spaced "THEN" ++ [.word "NULL"] ++
    spaced "WHEN" ++ [.number "1"] ++ spaced "THEN" ++ (.function "MIN" :: bracketed operand) ++
    spaced "ELSE" ++ bracketed (zeroRow ++ spaced "UNION ALL" ++ zeroRow) ++
    [.blank, .word "END"]

/-! ## Windows and queries -/

/-- A clause that is left out when its list is empty. -/
def listClause (keyword : String) (items : List (List Token)) : List Token :=
  if items.isEmpty then [] else [.word keyword, .blank] ++ commaSeparated items

/-- A window: how rows are parted, and how they are ordered within a part. -/
def windowTokens (call : List Token) (partitionBy orderBy : List (List Token)) : List Token :=
  let gap := if partitionBy.isEmpty || orderBy.isEmpty then [] else [.blank]
  call ++ spaced "OVER" ++
    bracketed (listClause "PARTITION BY" partitionBy ++ gap ++ listClause "ORDER BY" orderBy)

/-- What follows a sort key. -/
def sortKeyTokens (descending : Bool) (nullsFirst : Option Bool) : List Token :=
  (if descending then [.blank, .word "DESC"] else []) ++
    match nullsFirst with
    | some true => [.blank, .word "NULLS FIRST"]
    | some false => [.blank, .word "NULLS LAST"]
    | none => []

/-- A clause of a query block that is left out when it has no content. -/
def clause (keyword : String) : Option (List Token) → List Token
  | some content => spaced keyword ++ content
  | none => []

/-- Bounds on the rows of a block, behind its other clauses. -/
def boundTokens (style : Pagination) (offset fetch : Option (List Token)) : List Token :=
  match style with
  | .offsetFetch =>
    (clause "OFFSET" (offset.map (· ++ [.blank, .word "ROWS"]))) ++
      clause "FETCH NEXT" (fetch.map (· ++ [.blank, .word "ROWS ONLY"]))
  | .limitOffset => clause "LIMIT" fetch ++ clause "OFFSET" offset

/-- A query block around its written parts. -/
def selectTokens (style : Pagination) (s : Select (List Token)) : List Token :=
  let nonEmpty (items : List (List Token)) : Option (List Token) :=
    if items.isEmpty then none else some (commaSeparated items)
  [.word "SELECT", .blank] ++ (if s.distinct then [.word "DISTINCT", .blank] else []) ++
    (if s.items.isEmpty then [.word "*"] else commaSeparated s.items) ++
    clause "FROM" s.source ++ clause "WHERE" s.condition ++
    clause "GROUP BY" (nonEmpty s.groupBy) ++ clause "HAVING" s.having ++
    clause "ORDER BY" (nonEmpty s.orderBy) ++ boundTokens style s.offset s.fetch

/-- A written query in its place. -/
def placeQuery (d : Dialect) (isPaged : Bool) (query : List Token) : Place → List Token
  | .statement => query
  | .setOperand => if isPaged then bracketed query else query
  | .source =>
    bracketed query ++ if d.features.namedSources then aliasTokens .madeUpName else []
  | .operand _ => bracketed query

/-- A written expression in its place, by how strongly it binds. -/
def placeExpression (precedence : Nat) (expression : List Token) (place : Place) : List Token :=
  if precedence < place.precedence then bracketed expression else expression

/-! ## Trees -/

mutual

/-- The tokens of a tree in a place. -/
def write (d : Dialect) : Place → Node → Write
  | _, .name parts => .ok (nameTokens parts)
  | _, .star => .ok [.word "*"]
  | _, .literal l => .ok (literalTokens l)
  | place, .call op operands distinct => do
    -- Which of several faults is reported depends on the order of these checks.
    checkNesting d op operands
    if op = .singleValue ∧ d.countsSingleValues then
      return singleValueTokens (← d.writeFirst operands)
    else
      let rounding ← d.rounding? op operands
      checkOperands op operands
      let written ← d.writeOperands op 0 operands
      match rounding with
      | some rounding => return roundingTokens op (written.headD []) rounding
      | none =>
        return placeExpression op.precedence (operatorTokens op distinct operands written) place
  | _, .cast operand target => do
    let operand ← d.write .free operand
    return castTokens operand (← d.castTarget target)
  | _, .caseOf subject branches otherwise =>
    if branches.isEmpty then .error (.node .noBranches)
    else do
      let subject ← d.writeOption .free subject
      let branches ← d.writeBranches branches
      let otherwise ← d.writeOption .free otherwise
      return [.word "CASE"] ++
        (match subject with | some tokens => .blank :: tokens | none => []) ++ branches ++
        clause "ELSE" otherwise ++ [.blank, .word "END"]
  | _, .parameter index type => d.parameterTokens index type
  | _, .array items =>
    if !d.features.nestedArrays && items.any Node.isArray then
      .error (.feature d .nestedArrays)
    else do
      let items ← d.writeAll .free items
      return [.word "ARRAY", .word "["] ++ commaSeparated items ++ [.word "]"]
  | _, .window call partitionBy orderBy =>
    if !d.features.windows then .error (.feature d .windows)
    else do
      let call ← d.write (.operand Op.leafPrecedence) call
      let partitionBy ← d.writeAll .free partitionBy
      return windowTokens call partitionBy (← d.writeAll .free orderBy)
  | _, .aliased operand name => do return (← d.write .free operand) ++ aliasTokens (.name name)
  | _, .sortKey operand descending nullsFirst => do
    return (← d.write .free operand) ++ sortKeyTokens descending nullsFirst
  | place, .join left right kind condition =>
    if place = .source then do
      let left ← d.write .source left
      let right ← d.write .source right
      return left ++ spaced kind.name ++ right ++ clause "ON" (← d.writeOption .free condition)
    else .error (.node .joinOutsideFrom)
  | place, .select block => do
    let query ← d.writeSelect block
    return d.placeQuery block.isPaged query place
  | place, .setOperation op left right => do
    let left ← d.write .setOperand left
    let right ← d.write .setOperand right
    return d.placeQuery false (left ++ spaced op.name ++ right) place
  | place, .values rows =>
    if rows.isEmpty then .error (.node .noRows)
    else do
      let rows ← d.writeRows rows
      return d.placeQuery false ([.word "VALUES", .blank] ++ commaSeparated rows) place
termination_by structural _ n => n

/-- Trees that stand in like places. -/
def writeAll (d : Dialect) (place : Place) : List Node → Except WriteError (List (List Token))
  | [] => .ok []
  | n :: rest => do
    let tokens ← d.write place n
    return tokens :: (← d.writeAll place rest)
termination_by structural ns => ns

/-- The operands of an operator from a position on. -/
def writeOperands (d : Dialect) (op : Op) :
    Nat → List Node → Except WriteError (List (List Token))
  | _, [] => .ok []
  | position, n :: rest => do
    let tokens ← d.write (.operand (op.operandPrecedence position)) n
    return tokens :: (← d.writeOperands op (position + 1) rest)
termination_by structural _ ns => ns

/-- The first of some operands, or a star if there is none. -/
def writeFirst (d : Dialect) : List Node → Write
  | [] => .ok [.word "*"]
  | n :: _ => d.write .free n
termination_by structural ns => ns

def writeOption (d : Dialect) (place : Place) :
    Option Node → Except WriteError (Option (List Token))
  | none => .ok none
  | some n => do return some (← d.write place n)
termination_by structural n => n

/-- The branches of a case distinction. -/
def writeBranches (d : Dialect) : List (Node × Node) → Write
  | [] => .ok []
  | (condition, result) :: rest => do
    let condition ← d.write .free condition
    let result ← d.write .free result
    return spaced "WHEN" ++ condition ++ spaced "THEN" ++ result ++ (← d.writeBranches rest)
termination_by structural bs => bs

/-- Rows of values, each in brackets. -/
def writeRows (d : Dialect) : List (List Node) → Except WriteError (List (List Token))
  | [] => .ok []
  | row :: rest => do
    let row ← d.writeAll .free row
    return bracketed (commaSeparated row) :: (← d.writeRows rest)
termination_by structural rows => rows

/-- A query block. -/
def writeSelect (d : Dialect) : Select Node → Write
  | ⟨distinct, items, source, condition, groupBy, having, orderBy, offset, fetch⟩ => do
    let items ← d.writeAll .free items
    let source ← d.writeOption .source source
    let condition ← d.writeOption .free condition
    let groupBy ← d.writeAll .free groupBy
    let having ← d.writeOption .free having
    let orderBy ← d.writeAll .free orderBy
    let style := d.features.pagination
    let whole (offset fetch : Option (List Token)) : List Token :=
      selectTokens style
        { distinct, items, source, condition, groupBy, having, orderBy, offset, fetch }
    -- Bounds are written in the order of the text, so the first one that cannot be written decides.
    match style with
    | .offsetFetch =>
      let offset ← d.writeOption .free offset
      let fetch ← d.writeOption .free fetch
      return whole offset fetch
    | .limitOffset =>
      let fetch ← d.writeOption .free fetch
      let offset ← d.writeOption .free offset
      return whole offset fetch
termination_by structural block => block

end

/-- The text of a tree as a statement or an expression by itself. -/
def text (d : Dialect) (aliasPrefix : String) (n : Node) : Except WriteError String := do
  return render aliasPrefix (← d.write .statement n)

end Dialect

end StorePlan.Sql
