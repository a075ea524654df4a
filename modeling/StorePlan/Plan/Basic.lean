import StorePlan.Aggregate.Basic
import StorePlan.Convention
import StorePlan.RowExpr.Basic

/-
Plans: trees of relational operators. A node keeps its operator with the
operator's payload, its inputs, its row type and its convention.

This module has the tree as data; `Plan.build` makes nodes that are
consistent.
-/

namespace StorePlan

/-- Which rows without a partner a join keeps. -/
inductive JoinType where
  | inner
  | left
  | right
  | full
deriving DecidableEq

namespace JoinType

def text : JoinType → String
  | inner => "inner"
  | left => "left"
  | right => "right"
  | full => "full"

/-- Whether rows of the left input are kept without a partner, so that the right columns may be
missing. -/
def keepsLeft : JoinType → Bool
  | left | full => true
  | inner | right => false

/-- Whether rows of the right input are kept without a partner. -/
def keepsRight : JoinType → Bool
  | right | full => true
  | inner | left => false

end JoinType

/-- Where the rows with `NULL` in a sort key go. -/
inductive NullPlacement where
  | first
  | last
  | unspecified
deriving DecidableEq

/-- One key of a sort. -/
structure Collation where
  field : Nat
  descending : Bool
  nulls : NullPlacement
deriving DecidableEq

/-- Kinds of operators. -/
inductive OperatorKind where
  | scan
  | filter
  | project
  | aggregate
  | join
  | sort
  | union
  | values
deriving DecidableEq

namespace OperatorKind

def name : OperatorKind → String
  | scan => "Scan"
  | filter => "Filter"
  | project => "Project"
  | aggregate => "Aggregate"
  | join => "Join"
  | sort => "Sort"
  | union => "Union"
  | values => "Values"

/-- Whether an operator of the kind can stand over this number of inputs. -/
def takes : OperatorKind → Nat → Bool
  | scan, n | values, n => n == 0
  | join, n => n == 2
  | union, n => 2 ≤ n
  | filter, n | project, n | aggregate, n | sort, n => n == 1

/-- The number of inputs in words. -/
def inputsText : OperatorKind → String
  | scan | values => "0"
  | join => "2"
  | union => "2 or more"
  | filter | project | aggregate | sort => "1"

end OperatorKind

/-- An operator with its payload. -/
inductive Operator where
  /-- The rows of a named table. -/
  | scan (table : String) (schema : Schema)
  /-- The rows for which a condition holds. -/
  | filter (condition : RowExpr)
  /-- Rows of named expressions. -/
  | project (exprs : List (String × RowExpr))
  /-- One row for each group: the grouped fields, then the results of the calls. Without grouping
  sets, rows are grouped once, by all grouped fields. -/
  | aggregate (fields : List Nat) (sets : Option (List (List Nat))) (calls : List AggregateCall)
  /-- Pairs of rows for which a condition holds over both, side by side. -/
  | join (type : JoinType) (condition : RowExpr)
  /-- The rows in order, past `offset` and at most `fetch` of them. -/
  | sort (keys : List Collation) (offset fetch : Option UInt64)
  /-- The rows of all inputs, duplicates kept if `all`. -/
  | union (all : Bool)
  /-- The rows given. -/
  | values (schema : Schema) (rows : List (List Value))
deriving Inhabited

def Operator.kind : Operator → OperatorKind
  | scan .. => .scan
  | filter _ => .filter
  | project _ => .project
  | aggregate .. => .aggregate
  | join .. => .join
  | sort .. => .sort
  | union _ => .union
  | values .. => .values

/-- A plan. -/
structure Plan where
  op : Operator
  inputs : List Plan
  schema : Schema
  convention : Convention
deriving Inhabited

namespace Plan

def kind (p : Plan) : OperatorKind := p.op.kind

/-- The grouping of an aggregate. -/
def grouping? (p : Plan) : Option Grouping :=
  match p.op with
  | .aggregate fields sets _ => some (Grouping.classify fields sets)
  | _ => none

end Plan

/-! ## Equality as data -/

/-- Named expressions, with values compared by `Value.eqv`. -/
def exprsEqv : List (String × RowExpr) → List (String × RowExpr) → Bool
  | [], [] => true
  | (n, e) :: es, (m, f) :: fs => n == m && e.eqv f && exprsEqv es fs
  | _, _ => false

def rowsEqv : List (List Value) → List (List Value) → Bool
  | [], [] => true
  | r :: rs, s :: ss => Value.allEqv r s && rowsEqv rs ss
  | _, _ => false

def Operator.eqv : Operator → Operator → Bool
  | scan t s, scan u r => t == u && s == r
  | filter c, filter d => c.eqv d
  | project es, project fs => exprsEqv es fs
  | aggregate g s c, aggregate h t d => g == h && s == t && c == d
  | join t c, join u d => t == u && c.eqv d
  | sort k o f, sort l p g => k == l && o == p && f == g
  | union a, union b => a == b
  | values s r, values t q => s == t && rowsEqv r q
  | _, _ => false

mutual

/-- Whether two plans are equal, with values compared by `Value.eqv`. -/
def Plan.eqv : Plan → Plan → Bool
  | ⟨op, inputs, schema, convention⟩, q =>
    op.eqv q.op && Plan.allEqv inputs q.inputs && schema == q.schema &&
      convention == q.convention
termination_by structural p => p

def Plan.allEqv : List Plan → List Plan → Bool
  | [], [] => true
  | p :: ps, q :: qs => p.eqv q && Plan.allEqv ps qs
  | _, _ => false
termination_by structural ps => ps

end

end StorePlan
