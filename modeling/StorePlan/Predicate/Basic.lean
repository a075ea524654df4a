import StorePlan.Value.Basic

/-
Predicate trees: conditions over named attributes. A leaf compares one
attribute with literals and may be negated; inner nodes are binary
conjunctions and disjunctions.
-/

namespace StorePlan

open Text

/-- What a leaf asks of its attribute. -/
inductive Comparison where
  | equal
  | greater
  | less
  | greaterOrEqual
  | lessOrEqual
  | isIn
  | between
  | isNull
  | isNotNull
  | like
deriving DecidableEq

def Comparison.text : Comparison → String
  | equal => "="
  | greater => ">"
  | less => "<"
  | greaterOrEqual => ">="
  | lessOrEqual => "<="
  | isIn => "IN"
  | between => "BETWEEN"
  | isNull => "IS NULL"
  | isNotNull => "IS NOT NULL"
  | like => "LIKE"

/-- How two predicates are combined. -/
inductive Connective where
  | and
  | or
deriving DecidableEq

namespace Connective

/-- What a negation turns the connective into. -/
def dual : Connective → Connective
  | and => or
  | or => and

def text : Connective → String
  | and => "AND"
  | or => "OR"

@[simp] theorem dual_dual (c : Connective) : c.dual.dual = c := by cases c <;> rfl

end Connective

/-- A leaf. -/
structure Atom where
  attributeName : String
  /-- The type to which the literals are brought. -/
  type : DataType
  comparison : Comparison
  negated : Bool
  /-- One literal for a comparison, two for a range, any number for membership, none for a test
  for `NULL`. -/
  values : List Value

/-- A predicate. -/
inductive Predicate where
  | atomic (atom : Atom)
  | compound (connective : Connective) (left right : Predicate)

def Atom.text (a : Atom) : String :=
  (if a.negated then "NOT " else "") ++ a.attributeName ++ " " ++ a.comparison.text ++
    (if a.values.isEmpty then "" else " " ++ ", ".intercalate (Value.texts a.values))

def Atom.eqv (a b : Atom) : Bool :=
  a.attributeName == b.attributeName && a.type == b.type && a.comparison == b.comparison &&
    a.negated == b.negated && Value.allEqv a.values b.values

namespace Predicate

/-- Number of inner nodes above the deepest leaf. -/
def depth : Predicate → Nat
  | atomic _ => 0
  | compound _ l r => 1 + max l.depth r.depth

/-- The leaves from left to right. -/
def atoms : Predicate → List Atom
  | atomic a => [a]
  | compound _ l r => l.atoms ++ r.atoms

/-- The negation, pushed down to the leaves. -/
def negate : Predicate → Predicate
  | atomic a => atomic { a with negated := !a.negated }
  | compound c l r => compound c.dual l.negate r.negate

def text : Predicate → String
  | atomic a => a.text
  | compound c l r => "(" ++ l.text ++ " " ++ c.text ++ " " ++ r.text ++ ")"

/-- Equality as data, with values compared by `Value.eqv`. -/
def eqv : Predicate → Predicate → Bool
  | atomic a, atomic b => a.eqv b
  | compound c l r, compound d m s => c == d && l.eqv m && r.eqv s
  | _, _ => false

@[simp] theorem negate_negate (p : Predicate) : p.negate.negate = p := by
  induction p with
  | atomic a => simp [negate]
  | compound c l r ihl ihr => simp [negate, ihl, ihr]

@[simp] theorem depth_negate (p : Predicate) : p.negate.depth = p.depth := by
  induction p with
  | atomic a => rfl
  | compound c l r ihl ihr => simp [negate, depth, ihl, ihr]

end Predicate

end StorePlan
