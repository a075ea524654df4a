import StorePlan.Proofs.Sql.Expression.Basic
import StorePlan.Proofs.Sql.Reading
import StorePlan.DataType.Reading

/-
Reading an expression by the strengths of its operators. Operators between
two operands lean to the left, `NOT` and the minus sign stand in front of
their operand, `IS NULL` and `IS NOT NULL` behind it, and brackets override.

An expression is read with a least strength: the operand first, and then all
operators behind it that are strong enough.
-/

namespace StorePlan.Sql.Reading

open Lexeme

/-! ## Leaves -/

def part? : Lexeme → Option String
  | .sign "*" => some "*"
  | .quoted quote part => if quote = nameQuote then some part else none
  | _ => none

/-- The parts of a name, as far as points connect them. -/
def parts? : List Lexeme → Option (List String × List Lexeme)
  | l :: .sign "." :: rest => do
    let part ← part? l
    let (parts, rest) ← parts? rest
    return (part :: parts, rest)
  | l :: rest => do return ([← part? l], rest)
  | [] => none

/-- One unit of time, or two with `TO` between them. -/
def qualifier? : List Lexeme → Option (IntervalQualifier × List Lexeme)
  | .word start :: .word "TO" :: .word stop :: rest =>
    (IntervalQualifier.ofWords? [start, "TO", stop]).map (·, rest)
  | .word unit :: rest => (IntervalQualifier.ofWords? [unit]).map (·, rest)
  | _ => none

/-! ## Where an operand begins -/

/-- What an operand begins with. -/
inductive Opening where
  | leaf (l : Leaf)
  | bracket
  /-- An operator in front of its operand. -/
  | leading (op : Op)
  | cast
  | caseOf (hasSubject : Bool)
  | call (name : String) (distinct : Bool)

/-- A call, behind its opening bracket. -/
def callOpening (name : String) : List Lexeme → Opening × List Lexeme
  | .word "DISTINCT" :: rest => (.call name true, rest)
  | rest => (.call name false, rest)

/-- What a word begins. A word in front of a bracket is called, unless it means something else. -/
def wordOpening? (w : String) (rest : List Lexeme) : Option (Opening × List Lexeme) :=
  match w, rest with
  | "NOT", rest => some (.leading .not, rest)
  | "CASE", rest => some (.caseOf (rest.head? != some (.word "WHEN")), rest)
  | "CAST", .sign "(" :: rest => some (.cast, rest)
  | "INTERVAL", .quoted '\'' s :: rest =>
    (qualifier? rest).map fun (q, rest) => (.leaf (.interval s q), rest)
  | w, .sign "(" :: rest =>
    if notCalled.contains (Text.upperText w) then none else some (callOpening w rest)
  | w, .quoted '\'' s :: rest =>
    if datedTypes.contains w then some (.leaf (.dated w s), rest) else none
  | w, rest => if constants.contains w then some (.leaf (.constant w), rest) else none

def opening? : List Lexeme → Option (Opening × List Lexeme)
  | .word w :: rest => wordOpening? w rest
  | .quoted '\'' s :: rest => some (.leaf (.string s), rest)
  | .sign "?" :: rest => some (.leaf .parameter, rest)
  | .sign "(" :: rest => some (.bracket, rest)
  | .sign "-" :: rest => some (.leading .negate, rest)
  | .sign "." :: rest =>
    (numeral? (.sign "." :: rest)).map fun (t, rest) => (.leaf (.number t), rest)
  | .number t :: rest =>
    (numeral? (.number t :: rest)).map fun (t, rest) => (.leaf (.number t), rest)
  | ls => (parts? ls).map fun (parts, rest) => (.leaf (.name parts), rest)

/-! ## What connects operands -/

/-- An operator behind an operand. -/
def connector? : List Lexeme → Option (Op × List Lexeme)
  | .sign "=" :: rest => some (.equals, rest)
  | .sign "<>" :: rest => some (.notEquals, rest)
  | .sign "<" :: rest => some (.lessThan, rest)
  | .sign "<=" :: rest => some (.lessThanOrEqual, rest)
  | .sign ">" :: rest => some (.greaterThan, rest)
  | .sign ">=" :: rest => some (.greaterThanOrEqual, rest)
  | .sign "+" :: rest => some (.plus, rest)
  | .sign "-" :: rest => some (.minus, rest)
  | .sign "*" :: rest => some (.times, rest)
  | .sign "/" :: rest => some (.divide, rest)
  | .word "AND" :: rest => some (.and, rest)
  | .word "OR" :: rest => some (.or, rest)
  | .word "LIKE" :: rest => some (.like, rest)
  | .word "BETWEEN" :: rest => some (.between, rest)
  | .word "IN" :: .sign "(" :: rest => some (.isIn, rest)
  | .word "IS" :: .word "NULL" :: rest => some (.isNull, rest)
  | .word "IS" :: .word "NOT" :: .word "NULL" :: rest => some (.isNotNull, rest)
  | _ => none

/-- The lexemes up to the bracket that closes what is open, and what follows it. -/
def behindBracket? : Nat → List Lexeme → Option (List Lexeme × List Lexeme)
  | _, [] => none
  | depth, l :: ls =>
    if l.isOpening then (behindBracket? (depth + 1) ls).map fun (inner, rest) => (l :: inner, rest)
    else if l.isClosing then
      match depth with
      | 0 => some ([], ls)
      | depth + 1 => (behindBracket? depth ls).map fun (inner, rest) => (l :: inner, rest)
    else (behindBracket? depth ls).map fun (inner, rest) => (l :: inner, rest)

/-! ## Expressions -/

mutual

/-- An expression whose operators outside of brackets bind at least this strongly. -/
def readExpression (least : Nat) (ls : List Lexeme) : Option (Expression × List Lexeme) :=
  andThen ls (readOperand least ls) fun operand rest _ => readChain least operand rest
termination_by (ls.length, 1)

/-- An expression up to the first operator between operands. -/
def readOperand (least : Nat) (ls : List Lexeme) : Option (Expression × List Lexeme) :=
  andThen ls (opening? ls) fun opening ls _ =>
    match opening with
    | .leaf l => some (.leaf l, ls)
    | .bracket =>
      andThen ls (readExpression 0 ls) fun e ls _ =>
        andThen ls (expect? (.sign ")") ls) fun _ ls _ => some (e, ls)
    | .leading op =>
      if op.precedence < least then none
      else
        andThen ls (readExpression (op.precedence + 1) ls) fun e ls _ =>
          some (.frame (.operator op) [e], ls)
    | .cast =>
      andThen ls (readExpression 0 ls) fun e ls _ =>
        andThen ls (expect? (.word "AS") ls) fun _ ls _ =>
          andThen ls (behindBracket? 0 ls) fun target ls _ =>
            some (.frame (.cast target) [e], ls)
    | .call name distinct =>
      andThen ls (readArguments ls) fun es ls _ => some (.frame (.call name distinct) es, ls)
    | .caseOf false =>
      andThen ls (readBranches ls) fun es ls _ => some (.frame (.caseOf false) es, ls)
    | .caseOf true =>
      andThen ls (readExpression 0 ls) fun subject ls _ =>
        andThen ls (readBranches ls) fun es ls _ =>
          some (.frame (.caseOf true) (subject :: es), ls)
termination_by (ls.length, 0)

/-- The operators behind an operand, as long as they bind at least this strongly. -/
def readChain (least : Nat) (left : Expression) (ls : List Lexeme) :
    Option (Expression × List Lexeme) :=
  match connector? ls with
  | none => some (left, ls)
  | some (op, rest) =>
    if op.precedence < least then some (left, ls)
    else
      andThen ls (some (op, rest)) fun op rest _ =>
        match op with
        | .isNull | .isNotNull => readChain least (.frame (.operator op) [left]) rest
        | .isIn =>
          andThen rest (readArguments rest) fun list rest _ =>
            readChain least (.frame (.operator .isIn) (left :: list)) rest
        | .between =>
          andThen rest (readExpression (op.precedence + 1) rest) fun low rest _ =>
            andThen rest (expect? (.word "AND") rest) fun _ rest _ =>
              andThen rest (readExpression (op.precedence + 1) rest) fun high rest _ =>
                readChain least (.frame (.operator .between) [left, low, high]) rest
        | op =>
          andThen rest (readExpression (op.precedence + 1) rest) fun right rest _ =>
            readChain least (.binary op left right) rest
termination_by (ls.length, 0)

/-- Expressions up to a closing bracket, which may be none. -/
def readArguments (ls : List Lexeme) : Option (List Expression × List Lexeme) :=
  match ls with
  | .sign ")" :: rest => some ([], rest)
  | ls => readItems ls
termination_by (ls.length, 3)

/-- Expressions with commas between them, up to a closing bracket. -/
def readItems (ls : List Lexeme) : Option (List Expression × List Lexeme) :=
  andThen ls (readExpression 0 ls) fun e ls _ =>
    match expect? (.sign ")") ls with
    | some (_, rest) => some ([e], rest)
    | none =>
      andThen ls (expect? (.sign ",") ls) fun _ ls _ =>
        andThen ls (readItems ls) fun es ls _ => some (e :: es, ls)
termination_by (ls.length, 2)

/-- Conditions and results by turns, and the default if there is one, up to `END`. -/
def readBranches (ls : List Lexeme) : Option (List Expression × List Lexeme) :=
  match ls with
  | .word "WHEN" :: ls =>
    andThen ls (readExpression 0 ls) fun condition ls _ =>
      andThen ls (expect? (.word "THEN") ls) fun _ ls _ =>
        andThen ls (readExpression 0 ls) fun result ls _ =>
          andThen ls (readBranches ls) fun es ls _ => some (condition :: result :: es, ls)
  | .word "ELSE" :: ls =>
    andThen ls (readExpression 0 ls) fun e ls _ =>
      andThen ls (expect? (.word "END") ls) fun _ ls _ => some ([e], ls)
  | .word "END" :: rest => some ([], rest)
  | _ => none
termination_by (ls.length, 0)

end

/-- A text that is an expression as a whole. -/
def readText (s : String) : Option Expression := do
  let (e, rest) ← readExpression 0 (← ofText? s)
  if rest.isEmpty then some e else none

end StorePlan.Sql.Reading
