import StorePlan.Proofs.Sql.Phrase

/-
Queries as set operations put them together. What stands in a query block is
a list of lexemes here, apart from the clauses that can stand behind any
query: those that order its rows and bound their number.

Where no brackets stand, operands are grouped by the strengths of the
operators; `regrouped` is the query that is left of a query when the brackets
around its set operations are left out.
-/

namespace StorePlan.Sql

open Lexeme

/-- How strongly an operator binds: `INTERSECT` before the others. -/
def SetOperator.precedence : SetOperator → Nat
  | intersect => 1
  | union | unionAll | except => 0

/-- The clauses that can stand behind any query, each as what stands in it. -/
structure Tail where
  orderBy : Option (List Lexeme) := none
  offset : Option (List Lexeme) := none
  fetch : Option (List Lexeme) := none
deriving DecidableEq

def Tail.isPaged (t : Tail) : Bool := t.offset.isSome || t.fetch.isSome

/-- A query. -/
inductive Outline where
  /-- A query block or rows of values, with the clauses behind it. -/
  | block (body : List Lexeme) (tail : Tail)
  | setOperation (op : SetOperator) (left right : Outline)
  /-- Clauses behind a set operation, or behind a query that has clauses already. -/
  | tailed (query : Outline) (tail : Tail)
deriving DecidableEq

namespace Outline

/-- How strongly a query binds; what is no set operation is not taken apart. -/
def precedence : Outline → Nat
  | setOperation op _ _ => op.precedence
  | block _ _ | tailed _ _ => 2

/-- Whether the set operations are grouped as they are without brackets. -/
def Grouped : Outline → Prop
  | setOperation op left right =>
    (op.precedence ≤ left.precedence ∧ left.Grouped) ∧
      op.precedence < right.precedence ∧ right.Grouped
  | block _ _ | tailed _ _ => True

end Outline

/-! ## Lexemes -/

/-- A clause: what stands in front of its content, and what stands behind it. -/
structure Clause where
  opening : List Lexeme
  closing : List Lexeme

namespace Clause

def orderBy : Clause := ⟨[.word "ORDER", .word "BY"], []⟩

def offset : Pagination → Clause
  | .offsetFetch => ⟨[.word "OFFSET"], [.word "ROWS"]⟩
  | .limitOffset => ⟨[.word "OFFSET"], []⟩

def fetch : Pagination → Clause
  | .offsetFetch => ⟨[.word "FETCH", .word "NEXT"], [.word "ROWS", .word "ONLY"]⟩
  | .limitOffset => ⟨[.word "LIMIT"], []⟩

/-- A clause with its content; without content it is left out. -/
def lexemes (c : Clause) : Option (List Lexeme) → List Lexeme
  | none => []
  | some content => c.opening ++ content ++ c.closing

end Clause

namespace Tail

def boundLexemes (style : Pagination) (t : Tail) : List Lexeme :=
  match style with
  | .offsetFetch =>
    (Clause.offset style).lexemes t.offset ++ (Clause.fetch style).lexemes t.fetch
  | .limitOffset =>
    (Clause.fetch style).lexemes t.fetch ++ (Clause.offset style).lexemes t.offset

def lexemes (style : Pagination) (t : Tail) : List Lexeme :=
  Clause.orderBy.lexemes t.orderBy ++ t.boundLexemes style

@[simp] theorem lexemes_empty (style : Pagination) : ({} : Tail).lexemes style = [] := by
  cases style <;> rfl

end Tail

def SetOperator.lexemes (op : SetOperator) : List Lexeme := ofChars op.name.toList

namespace Outline

/-- Whether a query stands in brackets beside a set operator. -/
def isBracketed : Outline → Bool
  | block _ tail => tail.isPaged
  | setOperation .. | tailed _ _ => false

/-- The lexemes of a query beside a set operator. -/
def beside (q : Outline) (ls : List Lexeme) : List Lexeme :=
  if q.isBracketed then inBrackets ls else ls

/-- A query as it is written: nothing but bounds on the rows of a block brings brackets. -/
def lexemes (style : Pagination) : Outline → List Lexeme
  | block body tail => body ++ tail.lexemes style
  | setOperation op left right =>
    left.beside (left.lexemes style) ++ op.lexemes ++ right.beside (right.lexemes style)
  | tailed query tail => query.lexemes style ++ tail.lexemes style

def operandLexemes (style : Pagination) (q : Outline) : List Lexeme := q.beside (q.lexemes style)

end Outline

/-! ## Without brackets -/

/-- What has been read of operands and operators: an operand of which more may follow, and the
operation that waits for it. -/
structure Pending where
  waiting : Option (Outline × SetOperator)
  last : Outline

namespace Pending

/-- The query, if nothing follows. -/
def query (p : Pending) : Outline :=
  match p.waiting with
  | none => p.last
  | some (left, op) => .setOperation op left p.last

/-- An operator and an operand follow. `INTERSECT` takes the last operand only, the others take all
that stands in front of them. -/
def add (p : Pending) (op : SetOperator) (q : Outline) : Pending :=
  if op = .intersect then ⟨p.waiting, .setOperation .intersect p.last q⟩
  else ⟨some (p.query, op), q⟩

/-- The last operand is no more than an intersection, and everything is grouped. -/
structure Grouped (p : Pending) : Prop where
  last : 1 ≤ p.last.precedence ∧ p.last.Grouped
  waiting : ∀ left op, p.waiting = some (left, op) → op.precedence = 0 ∧ left.Grouped

end Pending

namespace Outline

/-- What has been read behind all operands of a query, by what has been read behind the first. -/
def after (first : Outline → Pending) : Outline → Pending
  | setOperation op left right => right.after ((left.after first).add op)
  | q => first q

/-- The query without the brackets around set operations. -/
def regrouped (q : Outline) : Outline := (q.after (Pending.mk none)).query

end Outline

theorem SetOperator.precedence_le (op : SetOperator) : op.precedence ≤ 1 := by
  cases op <;> decide

theorem SetOperator.precedence_of_ne {op : SetOperator} (h : op ≠ .intersect) :
    op.precedence = 0 := by
  cases op with
  | intersect => contradiction
  | _ => rfl

namespace Pending

variable {p : Pending} {op : SetOperator} {q : Outline}

theorem add_of_ne (h : op ≠ .intersect) : p.add op = Pending.mk (some (p.query, op)) :=
  funext fun _ => if_neg h

theorem Grouped.query (h : p.Grouped) : p.query.Grouped := by
  obtain ⟨waiting, last⟩ := p
  cases waiting with
  | none => exact h.last.2
  | some found =>
    obtain ⟨left, op⟩ := found
    obtain ⟨hop, hleft⟩ := h.waiting left op rfl
    have hlast : 1 ≤ last.precedence := h.last.1
    have hlt : op.precedence < last.precedence := by omega
    exact ⟨⟨by omega, hleft⟩, hlt, h.last.2⟩

theorem Grouped.add (h : p.Grouped) (hprec : 1 < q.precedence) (hq : q.Grouped) :
    (p.add op q).Grouped := by
  unfold Pending.add
  split_ifs with hop
  · exact ⟨⟨Nat.le_refl 1, h.last, hprec, hq⟩, h.waiting⟩
  · refine ⟨⟨Nat.le_of_lt hprec, hq⟩, ?_⟩
    rintro left op' heq
    cases heq
    exact ⟨SetOperator.precedence_of_ne hop, h.query⟩

end Pending

namespace Outline

variable {q : Outline} {first : Outline → Pending}

theorem grouped_after (h : ∀ q : Outline, 1 < q.precedence → q.Grouped → (first q).Grouped) :
    (q.after first).Grouped := by
  induction q generalizing first with
  | setOperation op left right ihl ihr => exact ihr fun q hprec hq => (ihl h).add hprec hq
  | block body tail => exact h _ (Nat.lt_succ_self 1) trivial
  | tailed query tail => exact h _ (Nat.lt_succ_self 1) trivial

/-- Whatever the brackets are, without them everything is grouped. -/
theorem grouped_regrouped (q : Outline) : q.regrouped.Grouped := by
  refine (grouped_after fun q hprec hq => ⟨⟨Nat.le_of_lt hprec, hq⟩, ?_⟩).query
  rintro left op ⟨⟩

/-- What binds more strongly than any set operation is a single operand. -/
theorem after_of_lt (h : 1 < q.precedence) : q.after first = first q := by
  cases q with
  | setOperation op left right =>
    have hop := op.precedence_le
    simp only [precedence] at h
    omega
  | block body tail => rfl
  | tailed query tail => rfl

/-- What is no more than an intersection is taken whole, whatever waits for it. -/
theorem after_of_grouped {waiting : Option (Outline × SetOperator)} (hprec : 1 ≤ q.precedence)
    (h : q.Grouped) : q.after (Pending.mk waiting) = ⟨waiting, q⟩ := by
  induction q with
  | setOperation op left right ihl ihr =>
    obtain ⟨⟨hleft, hl⟩, hright, -⟩ := h
    have hop : op = .intersect := by
      by_contra hne
      have hzero := SetOperator.precedence_of_ne hne
      simp only [precedence] at hprec
      omega
    subst hop
    rw [after, ihl hleft hl, after_of_lt hright]
    rfl
  | block body tail => rfl
  | tailed query tail => rfl

/-- What is grouped needs no brackets. -/
theorem regrouped_of_grouped (h : q.Grouped) : q.regrouped = q := by
  induction q with
  | setOperation op left right ihl ihr =>
    by_cases hop : op = .intersect
    · have hprec : 1 ≤ (setOperation op left right).precedence := by
        subst hop
        exact Nat.le_refl 1
      rw [regrouped, after_of_grouped hprec h]
      rfl
    · obtain ⟨⟨-, hl⟩, hright, hr⟩ := h
      have hleft : (left.after (Pending.mk none)).query = left := ihl hl
      rw [regrouped, after, Pending.add_of_ne hop, hleft, after_of_grouped (by omega) hr]
      rfl
  | block body tail => rfl
  | tailed query tail => rfl

end Outline

end StorePlan.Sql
