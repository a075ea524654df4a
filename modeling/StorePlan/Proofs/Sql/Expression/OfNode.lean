import StorePlan.Proofs.Sql.Expression.Formula
import StorePlan.Proofs.Sql.Wording

/-
The expressions and the formulas that trees stand for.

Queries, arrays and windows are neither, nor are numbers with a sign and the
functions that are not written as calls: sums that are zero over no rows,
single values and rounding to a unit of time. A tree with parameters that are
intervals is a formula, and any other formula is an expression.
-/

namespace StorePlan.Sql

open Lexeme

/-! ## Trees as expressions -/

/-- The leaf that a literal is; a number has no sign, and a unit of time is no expression. -/
def Literal.leaf? : Literal → Option Leaf
  | .null => some (.constant "NULL")
  | .boolean b => some (.constant (if b then "TRUE" else "FALSE"))
  | .exact t | .approximate t => if isNumeral t.toList then some (.number t) else none
  | .string s => some (.string s)
  | .date t => some (.dated "DATE" t)
  | .time t => some (.dated "TIME" t)
  | .timestamp t => some (.dated "TIMESTAMP" t)
  | .interval t q => some (.interval t q)
  | .unit _ => none

/-- A call of an operator or a function; `DISTINCT` is shown of functions only. -/
def Op.expression? (op : Op) (distinct : Bool) (operands : List Expression) : Option Expression :=
  match op.layout, operands with
  | .binary, [left, right] => some (.binary op left right)
  | .binary, _ => none
  | .function, operands =>
    if op ≠ .sumOrZero ∧ op ≠ .singleValue ∧ isFunctionName op.name then
      some (.frame (.call op.name distinct) operands)
    else none
  | _, operands =>
    if (Frame.operator op).takes operands.length then some (.frame (.operator op) operands) else none

namespace Node

mutual

/-- The expression that a tree stands for. -/
def expression? (d : Dialect) : Node → Option Expression
  | .name parts => if parts.isEmpty then none else some (.leaf (.name parts))
  | .star => some (.leaf (.name ["*"]))
  | .literal l => l.leaf?.map .leaf
  | .parameter _ type =>
    match type with
    | some (.interval _) => none
    | _ => some (.leaf .parameter)
  | .call op operands distinct => do op.expression? distinct (← allExpressions? d operands)
  | .cast operand type => do
    let e ← operand.expression? d
    let target ← (d.castTarget type).toOption
    return .frame (.cast (ofChars target.text.toList)) [e]
  | .caseOf subject branches otherwise =>
    if branches.isEmpty then none
    else do
      let subject' ← optionExpressions? d subject
      let branches ← branchExpressions? d branches
      let otherwise ← optionExpressions? d otherwise
      return .frame (.caseOf subject.isSome) (subject' ++ (branches ++ otherwise))
  | _ => none
termination_by structural n => n

def allExpressions? (d : Dialect) : List Node → Option (List Expression)
  | [] => some []
  | n :: rest => do return (← n.expression? d) :: (← allExpressions? d rest)
termination_by structural ns => ns

def optionExpressions? (d : Dialect) : Option Node → Option (List Expression)
  | none => some []
  | some n => do return [← n.expression? d]
termination_by structural n => n

/-- Conditions and results by turns. -/
def branchExpressions? (d : Dialect) : List (Node × Node) → Option (List Expression)
  | [] => some []
  | (condition, result) :: rest => do
    return (← condition.expression? d) :: (← result.expression? d) ::
      (← branchExpressions? d rest)
termination_by structural bs => bs

end

end Node

/-! ## Trees as formulas -/

/-- The coarsest unit by itself. -/
def coarsest (q : IntervalQualifier) : IntervalQualifier :=
  match q with
  | .yearMonth | .year => .year
  | .month => .month
  | .day | .dayHour | .dayMinute | .daySecond => .day
  | .hour | .hourMinute | .hourSecond => .hour
  | .minute | .minuteSecond => .minute
  | .second => .second

/-- How the dialect writes a parameter that is an interval. -/
def Dialect.intervalText? (d : Dialect) (q : IntervalQualifier) : Option IntervalText :=
  match d.features.intervalParameters with
  | .plain => some .plain
  | .cast => (d.castTarget (.interval q)).toOption.map fun t => .cast (ofChars t.text.toList)
  | .multiple => some (.multiple (coarsest q))

/-- A call with formulas as its operands, as `Op.expression?` has it for expressions. -/
def Op.formula? (op : Op) (distinct : Bool) (operands : List Formula) : Option Formula :=
  match op.layout, operands with
  | .binary, [left, right] => some (.binary op left right)
  | .binary, _ => none
  | .function, operands =>
    if op ≠ .sumOrZero ∧ op ≠ .singleValue ∧ isFunctionName op.name then
      some (.frame (.call op.name distinct) operands)
    else none
  | _, operands =>
    if (Frame.operator op).takes operands.length then some (.frame (.operator op) operands)
    else none

namespace Node

mutual

/-- The formula that a tree stands for, in which parameters may be intervals. -/
def formula? (d : Dialect) : Node → Option Formula
  | .name parts => if parts.isEmpty then none else some (.leaf (.name parts))
  | .star => some (.leaf (.name ["*"]))
  | .literal l => l.leaf?.map .leaf
  | .parameter _ type =>
    match type with
    | some (.interval q) => (d.intervalText? q).map .interval
    | _ => some (.leaf .parameter)
  | .call op operands distinct => do op.formula? distinct (← allFormulas? d operands)
  | .cast operand type => do
    let x ← operand.formula? d
    let target ← (d.castTarget type).toOption
    return .frame (.cast (ofChars target.text.toList)) [x]
  | .caseOf subject branches otherwise =>
    if branches.isEmpty then none
    else do
      let subject' ← optionFormulas? d subject
      let branches ← branchFormulas? d branches
      let otherwise ← optionFormulas? d otherwise
      return .frame (.caseOf subject.isSome) (subject' ++ (branches ++ otherwise))
  | _ => none
termination_by structural n => n

def allFormulas? (d : Dialect) : List Node → Option (List Formula)
  | [] => some []
  | n :: rest => do return (← n.formula? d) :: (← allFormulas? d rest)
termination_by structural ns => ns

def optionFormulas? (d : Dialect) : Option Node → Option (List Formula)
  | none => some []
  | some n => do return [← n.formula? d]
termination_by structural n => n

/-- Conditions and results by turns. -/
def branchFormulas? (d : Dialect) : List (Node × Node) → Option (List Formula)
  | [] => some []
  | (condition, result) :: rest => do
    return (← condition.formula? d) :: (← result.formula? d) :: (← branchFormulas? d rest)
termination_by structural bs => bs

end

end Node

/-! ## Expressions are formulas -/

variable {d : Dialect}

theorem Op.formula?_of_expression? {op : Op} {distinct : Bool} {es : List Expression}
    {e : Expression} (h : op.expression? distinct es = some e) :
    op.formula? distinct (Expression.allFormulas es) = some e.formula := by
  have hlength : (Expression.allFormulas es).length = es.length := by
    rw [Expression.allFormulas_eq_map, List.length_map]
  unfold expression? at h
  unfold formula?
  cases hlayout : op.layout with
  | binary =>
    rw [hlayout] at h
    match es, h with
    | [l, r], h =>
      cases h
      rfl
  | function =>
    simp only [hlayout] at h ⊢
    split_ifs at h with hcall
    cases h
    exact if_pos hcall
  | leading | trailing | special =>
    simp only [hlayout] at h ⊢
    split_ifs at h with htakes
    cases h
    exact if_pos (hlength ▸ htakes)

namespace Node

mutual

theorem formula?_of_expression? {e : Expression} :
    ∀ n : Node, n.expression? d = some e → n.formula? d = some e.formula
  | .name parts, h => by
    simp only [expression?] at h
    split_ifs at h with hempty
    cases h
    exact if_neg hempty
  | .star, h => by
    cases h
    rfl
  | .literal l, h => by
    obtain ⟨leaf, hleaf, rfl⟩ := Option.map_eq_some_iff.1 h
    simp only [formula?, hleaf, Option.map_some, Expression.formula]
  | .parameter i type, h => by
    simp only [expression?] at h
    split at h
    · cases h
    · cases h
      simp only [formula?]
      rfl
  | .call op operands distinct, h => by
    simp only [expression?, Option.bind_eq_bind, Option.bind_eq_some_iff] at h
    obtain ⟨es, hes, h⟩ := h
    simp only [formula?, allFormulas?_of_allExpressions? operands hes, Option.bind_eq_bind,
      Option.bind_some, Op.formula?_of_expression? h]
  | .cast operand type, h => by
    simp only [expression?, Option.bind_eq_bind, Option.bind_eq_some_iff] at h
    obtain ⟨e, he, target, htarget, h⟩ := h
    cases h
    simp only [formula?, formula?_of_expression? operand he, htarget, Option.bind_eq_bind,
      Option.bind_some]
    rfl
  | .caseOf subject branches otherwise, h => by
    simp only [expression?] at h
    split_ifs at h with hempty
    simp only [Option.bind_eq_bind, Option.bind_eq_some_iff] at h
    obtain ⟨subject', hsubject, branches', hbranches, otherwise', hotherwise, h⟩ := h
    cases h
    rw [formula?, if_neg hempty, optionFormulas?_of_optionExpressions? subject hsubject,
      branchFormulas?_of_branchExpressions? branches hbranches,
      optionFormulas?_of_optionExpressions? otherwise hotherwise]
    simp [Expression.formula, Expression.allFormulas_eq_map]
  | .array _, h | .window .., h | .aliased .., h | .sortKey .., h | .join .., h | .select _, h
  | .setOperation .., h | .values _, h => by cases h

theorem allFormulas?_of_allExpressions? {es : List Expression} :
    ∀ ns : List Node, allExpressions? d ns = some es →
      allFormulas? d ns = some (Expression.allFormulas es)
  | [], h => by
    cases h
    rfl
  | n :: rest, h => by
    simp only [allExpressions?, Option.bind_eq_bind, Option.bind_eq_some_iff] at h
    obtain ⟨e, he, es', hes, h⟩ := h
    cases h
    simp only [allFormulas?, formula?_of_expression? n he, allFormulas?_of_allExpressions? rest hes]
    rfl

theorem optionFormulas?_of_optionExpressions? {es : List Expression} :
    ∀ n : Option Node, optionExpressions? d n = some es →
      optionFormulas? d n = some (Expression.allFormulas es)
  | none, h => by
    cases h
    rfl
  | some n, h => by
    simp only [optionExpressions?, Option.bind_eq_bind, Option.bind_eq_some_iff] at h
    obtain ⟨e, he, h⟩ := h
    cases h
    simp only [optionFormulas?, formula?_of_expression? n he]
    rfl

theorem branchFormulas?_of_branchExpressions? {es : List Expression} :
    ∀ bs : List (Node × Node), branchExpressions? d bs = some es →
      branchFormulas? d bs = some (Expression.allFormulas es)
  | [], h => by
    cases h
    rfl
  | (condition, result) :: rest, h => by
    simp only [branchExpressions?, Option.bind_eq_bind, Option.bind_eq_some_iff] at h
    obtain ⟨e, he, e', he', es', hes, h⟩ := h
    cases h
    simp only [branchFormulas?, formula?_of_expression? condition he,
      formula?_of_expression? result he', branchFormulas?_of_branchExpressions? rest hes]
    rfl

end

end Node

/-! ## Regularity -/

theorem Literal.isRegular_of_leaf? {l : Literal} {leaf : Leaf} (h : l.leaf? = some leaf) :
    leaf.isRegular = true := by
  cases l with
  | exact t | approximate t =>
    simp only [leaf?] at h
    split_ifs at h with hnumeral
    cases h
    exact hnumeral
  | boolean b =>
    cases h
    cases b <;> rfl
  | unit u => cases h
  | _ =>
    cases h
    rfl

theorem Op.regular_of_formula? {op : Op} {distinct : Bool} {fs : List Formula} {x : Formula}
    (h : op.formula? distinct fs = some x) (hfs : Formula.AllRegular fs) : x.Regular := by
  unfold formula? at h
  split at h
  · rename_i hlayout
    cases h
    exact ⟨hlayout, hfs.1, hfs.2.1⟩
  · cases h
  · split_ifs at h with hcall
    cases h
    exact ⟨hcall.2.2, hfs⟩
  · split_ifs at h with htakes
    cases h
    exact ⟨htakes, hfs⟩

theorem Formula.allRegular_append {fs fs' : List Formula} (h : AllRegular fs)
    (h' : AllRegular fs') : AllRegular (fs ++ fs') := by
  induction fs with
  | nil => exact h'
  | cons x rest ih => exact ⟨h.1, ih h.2⟩

namespace Node

theorem length_optionFormulas? {n : Option Node} {fs : List Formula}
    (h : optionFormulas? d n = some fs) : fs.length = if n.isSome then 1 else 0 := by
  cases n with
  | none =>
    cases h
    rfl
  | some n =>
    obtain ⟨x, -, h⟩ := Option.bind_eq_some_iff.1 h
    cases h
    rfl

theorem le_length_branchFormulas? {bs : List (Node × Node)} {fs : List Formula}
    (h : branchFormulas? d bs = some fs) (hne : bs.isEmpty = false) : 2 ≤ fs.length := by
  match bs, hne with
  | (condition, result) :: rest, _ =>
    simp only [branchFormulas?, Option.bind_eq_bind, Option.bind_eq_some_iff] at h
    obtain ⟨x, -, x', -, fs', -, h⟩ := h
    cases h
    simp

/-- The target of a cast is that of the dialect. -/
theorem castTarget_eq_ok {type : DataType} {target : CastTarget}
    (h : (d.castTarget type).toOption = some target) : d.castTarget type = .ok target := by
  cases htarget : d.castTarget type with
  | error e =>
    rw [htarget] at h
    cases h
  | ok t =>
    rw [htarget] at h
    cases h
    rfl

theorem takes_cast {type : DataType} {target : CastTarget}
    (h : (d.castTarget type).toOption = some target) :
    (Frame.cast (ofChars target.text.toList)).takes 1 = true := by
  have hlevel := (Dialect.sound_castTarget (castTarget_eq_ok h)).level
  simp [Frame.takes, hlevel]

theorem regular_intervalText? {q : IntervalQualifier} {t : IntervalText}
    (h : d.intervalText? q = some t) : t.expression.Regular := by
  unfold Dialect.intervalText? at h
  split at h
  · cases h
    rfl
  · obtain ⟨target, htarget, rfl⟩ := Option.map_eq_some_iff.1 h
    exact ⟨takes_cast htarget, rfl, trivial⟩
  · cases h
    exact ⟨rfl, rfl, rfl⟩

mutual

theorem regular_of_formula? {x : Formula} : ∀ n : Node, n.formula? d = some x → x.Regular
  | .name parts, h => by
    simp only [formula?] at h
    split_ifs at h with hempty
    cases h
    simpa [Formula.Regular, Leaf.isRegular] using hempty
  | .star, h => by
    cases h
    rfl
  | .literal l, h => by
    obtain ⟨leaf, hleaf, rfl⟩ := Option.map_eq_some_iff.1 h
    exact Literal.isRegular_of_leaf? hleaf
  | .parameter i type, h => by
    simp only [formula?] at h
    split at h
    · obtain ⟨t, ht, rfl⟩ := Option.map_eq_some_iff.1 h
      exact regular_intervalText? ht
    · cases h
      rfl
  | .call op operands distinct, h => by
    simp only [formula?, Option.bind_eq_bind, Option.bind_eq_some_iff] at h
    obtain ⟨fs, hfs, h⟩ := h
    exact Op.regular_of_formula? h (allRegular_of_allFormulas? operands hfs)
  | .cast operand type, h => by
    simp only [formula?, Option.bind_eq_bind, Option.bind_eq_some_iff] at h
    obtain ⟨x, hx, target, htarget, h⟩ := h
    cases h
    exact ⟨takes_cast htarget, regular_of_formula? operand hx, trivial⟩
  | .caseOf subject branches otherwise, h => by
    simp only [formula?] at h
    split_ifs at h with hempty
    simp only [Option.bind_eq_bind, Option.bind_eq_some_iff] at h
    obtain ⟨subject', hsubject, branches', hbranches, otherwise', hotherwise, h⟩ := h
    cases h
    -- One branch is there at least, so there are two operands beside the subject and the default.
    have hcount := le_length_branchFormulas? hbranches (by simpa using hempty)
    have hsubjectCount := length_optionFormulas? hsubject
    have htakes : (Frame.caseOf subject.isSome).takes
        (subject' ++ (branches' ++ otherwise')).length = true := by
      cases hsome : subject.isSome with
      | true =>
        rw [hsome, if_pos rfl] at hsubjectCount
        simp only [Frame.takes, List.length_append, hsubjectCount, if_true, decide_eq_true_eq]
        omega
      | false =>
        simp only [Frame.takes, List.length_append, Bool.false_eq_true, if_false, decide_eq_true_eq]
        omega
    exact ⟨htakes, Formula.allRegular_append (allRegular_of_optionFormulas? subject hsubject)
      (Formula.allRegular_append (allRegular_of_branchFormulas? branches hbranches)
        (allRegular_of_optionFormulas? otherwise hotherwise))⟩
  | .array _, h | .window .., h | .aliased .., h | .sortKey .., h | .join .., h | .select _, h
  | .setOperation .., h | .values _, h => by cases h

theorem allRegular_of_allFormulas? {fs : List Formula} :
    ∀ ns : List Node, allFormulas? d ns = some fs → Formula.AllRegular fs
  | [], h => by
    cases h
    trivial
  | n :: rest, h => by
    simp only [allFormulas?, Option.bind_eq_bind, Option.bind_eq_some_iff] at h
    obtain ⟨x, hx, fs', hfs, h⟩ := h
    cases h
    exact ⟨regular_of_formula? n hx, allRegular_of_allFormulas? rest hfs⟩

theorem allRegular_of_optionFormulas? {fs : List Formula} :
    ∀ n : Option Node, optionFormulas? d n = some fs → Formula.AllRegular fs
  | none, h => by
    cases h
    trivial
  | some n, h => by
    simp only [optionFormulas?, Option.bind_eq_bind, Option.bind_eq_some_iff] at h
    obtain ⟨x, hx, h⟩ := h
    cases h
    exact ⟨regular_of_formula? n hx, trivial⟩

theorem allRegular_of_branchFormulas? {fs : List Formula} :
    ∀ bs : List (Node × Node), branchFormulas? d bs = some fs → Formula.AllRegular fs
  | [], h => by
    cases h
    trivial
  | (condition, result) :: rest, h => by
    simp only [branchFormulas?, Option.bind_eq_bind, Option.bind_eq_some_iff] at h
    obtain ⟨x, hx, x', hx', fs', hfs, h⟩ := h
    cases h
    exact ⟨regular_of_formula? condition hx, regular_of_formula? result hx',
      allRegular_of_branchFormulas? rest hfs⟩

end

theorem regular_of_expression? {e : Expression} (n : Node) (h : n.expression? d = some e) :
    e.Regular :=
  e.spelled_formula ▸
    Formula.regular_spelled e.formula (regular_of_formula? n (formula?_of_expression? n h))

end Node

end StorePlan.Sql
