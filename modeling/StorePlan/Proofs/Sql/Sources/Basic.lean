import StorePlan.Proofs.Sql.Weaving

/-
The queries of `FROM` clauses. `Dialect.sources` lists those of a tree, each
with the name that the tree gives it, in the order in which their brackets
close. A text carries them if it has each of them in brackets with its one
alias, and no names that are made up but theirs.
-/

namespace StorePlan.Sql

/-- A query in a `FROM` clause, with the name that it is given there. -/
structure Source where
  query : Node
  name : Option String

namespace Source

/-- The item of the `FROM` clause. -/
def item (x : Source) : Node :=
  match x.name with
  | some given => .aliased x.query given
  | none => x.query

/-- What is written behind the brackets. -/
def nameTokens (d : Dialect) (x : Source) : List Token :=
  match x.name with
  | some given => Dialect.aliasTokens (.name given)
  | none => if d.features.namedSources then Dialect.aliasTokens .madeUpName else []

end Source

def Place.isSource : Place → Bool
  | source => true
  | statement | setOperand | operand _ => false

namespace Node

/-- What a node is to a `FROM` clause that it may stand in. -/
def ownSource (inFrom : Bool) : Node → List Source
  | .aliased operand given => if inFrom && operand.isQuery then [⟨operand, some given⟩] else []
  | n => if inFrom && n.isQuery then [⟨n, none⟩] else []

end Node

namespace Dialect

/-! ## Sources of a tree -/

mutual

/-- The queries in the `FROM` clauses of a tree, which may itself stand in one, in the order in
which a dialect closes their brackets. Where a single value is found by counting, the operands
behind the first are not written. -/
def sources (d : Dialect) : Bool → Node → List Source
  | _, .name _ | _, .star | _, .literal _ | _, .parameter _ _ => []
  | _, .call op operands _ =>
    if op = .singleValue ∧ d.countsSingleValues then d.firstSources operands
    else d.allSources operands
  | _, .cast operand _ => d.sources false operand
  | _, .caseOf subject branches otherwise =>
    d.optionSources false subject ++ d.branchSources branches ++ d.optionSources false otherwise
  | _, .array items => d.allSources items
  | _, .window called partitionBy orderBy =>
    d.sources false called ++ d.allSources partitionBy ++ d.allSources orderBy
  | inFrom, .aliased operand given =>
    d.sources false operand ++ Node.ownSource inFrom (.aliased operand given)
  | _, .sortKey operand _ _ => d.sources false operand
  | _, .join left right _ condition =>
    d.sources true left ++ d.sources true right ++ d.optionSources false condition
  | inFrom, .select block => d.selectSources block ++ Node.ownSource inFrom (.select block)
  | inFrom, .setOperation op left right =>
    d.sources false left ++ d.sources false right ++
      Node.ownSource inFrom (.setOperation op left right)
  | inFrom, .values rows => d.rowSources rows ++ Node.ownSource inFrom (.values rows)
termination_by structural _ n => n

def allSources (d : Dialect) : List Node → List Source
  | [] => []
  | n :: rest => d.sources false n ++ d.allSources rest
termination_by structural ns => ns

def firstSources (d : Dialect) : List Node → List Source
  | [] => []
  | n :: _ => d.sources false n
termination_by structural ns => ns

def optionSources (d : Dialect) (inFrom : Bool) : Option Node → List Source
  | none => []
  | some n => d.sources inFrom n
termination_by structural n => n

def branchSources (d : Dialect) : List (Node × Node) → List Source
  | [] => []
  | (condition, result) :: rest =>
    d.sources false condition ++ d.sources false result ++ d.branchSources rest
termination_by structural bs => bs

def rowSources (d : Dialect) : List (List Node) → List Source
  | [] => []
  | row :: rest => d.allSources row ++ d.rowSources rest
termination_by structural rows => rows

def selectSources (d : Dialect) : Select Node → List Source
  | ⟨_, items, source, condition, groupBy, having, orderBy, offset, fetch⟩ =>
    d.allSources items ++ d.optionSources true source ++ d.optionSources false condition ++
      d.allSources groupBy ++ d.optionSources false having ++ d.allSources orderBy ++
      d.features.pagination.arrange (d.optionSources false offset) (d.optionSources false fetch)
termination_by structural block => block

end

/-- How many names a dialect makes up for such queries. -/
def unnamed (d : Dialect) (xs : List Source) : Nat :=
  if d.features.namedSources then (xs.map Source.name).count none else 0

@[simp] theorem unnamed_nil (d : Dialect) : d.unnamed [] = 0 := by simp [unnamed]

@[simp] theorem unnamed_append (d : Dialect) (xs ys : List Source) :
    d.unnamed (xs ++ ys) = d.unnamed xs + d.unnamed ys := by
  unfold unnamed
  split_ifs <;> simp

/-! ## Sources of a text -/

/-- A dialect writes an item of a `FROM` clause as its query in brackets and one name at most. -/
structure WritesSource (d : Dialect) (x : Source) (inner : List Token) : Prop where
  query : d.write .statement x.query = .ok inner
  item : d.write .source x.item = .ok (bracketed inner ++ x.nameTokens d)

/-- Tokens with queries of `FROM` clauses in them, in the order in which the brackets of the queries
close, each with its alias behind it. There are no made-up names but these aliases. -/
inductive Carries (d : Dialect) : List Token → List Source → Prop where
  | nil : Carries d [] []
  | token {t : Token} {ts : List Token} {xs : List Source} :
    t ≠ .madeUpName → Carries d ts xs → Carries d (t :: ts) xs
  | source {x : Source} {inner rest : List Token} {xs ys : List Source} :
    d.WritesSource x inner → Carries d inner xs → Carries d rest ys →
      Carries d (bracketed inner ++ x.nameTokens d ++ rest) (xs ++ x :: ys)

namespace Carries

variable {d : Dialect} {t : Token} {ts us : List Token} {xs ys : List Source}

theorem append (h : d.Carries ts xs) (h' : d.Carries us ys) : d.Carries (ts ++ us) (xs ++ ys) := by
  induction h with
  | nil => exact h'
  | token ht _ ih => exact .token ht ih
  | source hx hinner _ _ ih => simpa using Carries.source hx hinner ih

/-- A single token carries nothing. -/
theorem eq_nil (h : d.Carries [t] xs) : xs = [] := by
  generalize hts : [t] = ts at h
  cases h with
  | nil => cases hts
  | token _ h =>
    cases hts
    cases h with
    | nil => rfl
  | source _ _ _ => simp [bracketed] at hts

theorem count_eq (h : d.Carries ts xs) : ts.count .madeUpName = d.unnamed xs := by
  induction h with
  | nil => simp
  | token ht _ ih => rw [List.count_cons_of_ne ht, ih]
  | @source x inner rest xs ys _ _ _ ihinner ihrest =>
    have hname : (x.nameTokens d).count .madeUpName = d.unnamed [x] := by
      cases hx : x.name <;> simp [Source.nameTokens, unnamed, hx, aliasTokens, spaced]
      split_ifs <;> simp
    rw [← List.singleton_append, ← List.append_assoc, unnamed_append, unnamed_append, ← ihinner,
      ← ihrest, ← hname]
    simp [bracketed, Nat.add_assoc]

end Carries

end Dialect

end StorePlan.Sql
