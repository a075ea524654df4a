import StorePlan.Proofs.Sql.Reading
import StorePlan.Proofs.Sql.SetOperation.Outline
import StorePlan.Proofs.Sql.Wording

/-
Reading queries by the strengths of set operators. Operators of one strength
lean to the left, `INTERSECT` binds before the others, and brackets override.
Clauses that order or bound rows belong to all that stands in front of them
up to the brackets around; no operator may follow them.
-/

namespace StorePlan.Sql.Outline

open Lexeme Reading

/-- The lexemes in front of a word that ends them or of a bracket that is not open, and the rest. -/
def untilEnding : Nat → List Lexeme → List Lexeme × List Lexeme
  | _, [] => ([], [])
  | depth, l :: ls =>
    if l.isOpening then (untilEnding (depth + 1) ls).map (l :: ·) id
    else if l.isClosing then
      match depth with
      | 0 => ([], l :: ls)
      | depth + 1 => (untilEnding depth ls).map (l :: ·) id
    else if depth = 0 ∧ l.isOneOf endingWords then ([], l :: ls)
    else (untilEnding depth ls).map (l :: ·) id

/-- A clause, which may be missing. -/
def readClause (c : Clause) (ls : List Lexeme) : Option (List Lexeme) × List Lexeme :=
  match c.opening.isPrefixOf? ls with
  | none => (none, ls)
  | some rest =>
    let (content, rest) := untilEnding 0 rest
    match c.closing.isPrefixOf? rest with
    | none => (none, ls)
    | some rest => (some content, rest)

/-- The clauses behind a query, in the order in which they are written. -/
def readTail (style : Pagination) (ls : List Lexeme) : Tail × List Lexeme :=
  let (orderBy, ls) := readClause .orderBy ls
  match style with
  | .offsetFetch =>
    let (offset, ls) := readClause (.offset style) ls
    let (fetch, ls) := readClause (.fetch style) ls
    (⟨orderBy, offset, fetch⟩, ls)
  | .limitOffset =>
    let (fetch, ls) := readClause (.fetch style) ls
    let (offset, ls) := readClause (.offset style) ls
    (⟨orderBy, offset, fetch⟩, ls)

/-- A query with clauses behind it. -/
def withTail (q : Outline) (tail : Tail) : Outline :=
  if tail = {} then q
  else
    match q with
    | block body own => if own = {} then block body tail else tailed q tail
    | q => tailed q tail

def setOperator? : List Lexeme → Option (SetOperator × List Lexeme)
  | .word "UNION" :: .word "ALL" :: rest => some (.unionAll, rest)
  | .word "UNION" :: rest => some (.union, rest)
  | .word "INTERSECT" :: rest => some (.intersect, rest)
  | .word "EXCEPT" :: rest => some (.except, rest)
  | _ => none

/-- The words that a query without brackets begins with. -/
def startingWords : List String := ["SELECT", "VALUES"]

mutual

/-- A query with the clauses behind it. -/
def readQuery (style : Pagination) (ls : List Lexeme) : Option (Outline × List Lexeme) :=
  andThen ls (readOperation style 0 ls) fun q rest _ =>
    some (q.withTail (readTail style rest).1, (readTail style rest).2)
termination_by (ls.length, 2)

/-- Operands with operators between them that bind at least this strongly. -/
def readOperation (style : Pagination) (least : Nat) (ls : List Lexeme) :
    Option (Outline × List Lexeme) :=
  andThen ls (readOperand style ls) fun q rest _ => readChain style least q rest
termination_by (ls.length, 1)

/-- A query block, rows of values, or a query in brackets. -/
def readOperand (style : Pagination) (ls : List Lexeme) : Option (Outline × List Lexeme) :=
  match ls with
  | .sign "(" :: ls =>
    andThen ls (readQuery style ls) fun q rest _ =>
      (expect? (.sign ")") rest).map fun found => (q, found.2)
  | .word w :: ls =>
    if startingWords.contains w then
      some (block (untilEnding 0 (.word w :: ls)).1 {}, (untilEnding 0 (.word w :: ls)).2)
    else none
  | _ => none
termination_by (ls.length, 0)

/-- The operators behind an operand, as long as they bind at least this strongly. -/
def readChain (style : Pagination) (least : Nat) (left : Outline) (ls : List Lexeme) :
    Option (Outline × List Lexeme) :=
  match setOperator? ls with
  | none => some (left, ls)
  | some (op, rest) =>
    if op.precedence < least then some (left, ls)
    else
      andThen ls (some (op, rest)) fun op rest _ =>
        andThen rest (readOperation style (op.precedence + 1) rest) fun right rest _ =>
          readChain style least (.setOperation op left right) rest
termination_by (ls.length, 0)

end

/-- A text that is a query as a whole. -/
def ofText? (style : Pagination) (s : String) : Option Outline := do
  let (q, rest) ← readQuery style (← Lexeme.ofText? s)
  if rest.isEmpty then some q else none

end StorePlan.Sql.Outline
