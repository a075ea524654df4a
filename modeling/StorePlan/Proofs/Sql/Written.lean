import StorePlan.Proofs.Outcome
import StorePlan.Sql.Writing

/-
What it takes to write a node, and what is then written: for each kind of node,
its checks, what its parts are written as, and how these are put together.

What holds of everything that is written is shown from these lemmas, by induction
on how `Dialect.write` calls itself.
-/

namespace StorePlan.Sql

/-- Whether a query bounds its own rows, so that it stands in brackets beside a set operator. -/
def Node.isPaged : Node → Bool
  | .select block => block.isPaged
  | _ => false

namespace Dialect

variable {d : Dialect} {place : Place} {ts : List Token}

/-! ## Nodes in a row -/

theorem writeAll_cons_eq_ok {n : Node} {rest : List Node} {tss : List (List Token)} :
    d.writeAll place (n :: rest) = .ok tss ↔
      ∃ us, d.write place n = .ok us ∧
        ∃ rest', d.writeAll place rest = .ok rest' ∧ us :: rest' = tss := by
  simp only [writeAll, bind_eq_ok, pure_eq_ok]

theorem writeOperands_cons_eq_ok {op : Op} {position : Nat} {n : Node} {rest : List Node}
    {tss : List (List Token)} :
    d.writeOperands op position (n :: rest) = .ok tss ↔
      ∃ us, d.write (.operand (op.operandPrecedence position)) n = .ok us ∧
        ∃ rest', d.writeOperands op (position + 1) rest = .ok rest' ∧ us :: rest' = tss := by
  simp only [writeOperands, bind_eq_ok, pure_eq_ok]

theorem writeOption_some_eq_ok {n : Node} {o : Option (List Token)} :
    d.writeOption place (some n) = .ok o ↔ ∃ us, d.write place n = .ok us ∧ some us = o := by
  simp only [writeOption, bind_eq_ok, pure_eq_ok]

theorem writeBranches_cons_eq_ok {condition result : Node} {rest : List (Node × Node)} :
    d.writeBranches ((condition, result) :: rest) = .ok ts ↔
      ∃ condition', d.write .free condition = .ok condition' ∧
        ∃ result', d.write .free result = .ok result' ∧
          ∃ rest', d.writeBranches rest = .ok rest' ∧
            spaced "WHEN" ++ condition' ++ spaced "THEN" ++ result' ++ rest' = ts := by
  simp only [writeBranches, bind_eq_ok, pure_eq_ok]

theorem writeRows_cons_eq_ok {row : List Node} {rest : List (List Node)}
    {tss : List (List Token)} :
    d.writeRows (row :: rest) = .ok tss ↔
      ∃ row', d.writeAll .free row = .ok row' ∧
        ∃ rest', d.writeRows rest = .ok rest' ∧
          bracketed (commaSeparated row') :: rest' = tss := by
  simp only [writeRows, bind_eq_ok, pure_eq_ok]

theorem length_writeOperands {op : Op} {position : Nat} {ns : List Node}
    {tss : List (List Token)} (h : d.writeOperands op position ns = .ok tss) :
    tss.length = ns.length := by
  induction ns generalizing position tss with
  | nil =>
    cases h
    rfl
  | cons n rest ih =>
    obtain ⟨us, -, rest', hrest, rfl⟩ := writeOperands_cons_eq_ok.1 h
    simp [ih hrest]

theorem isSome_writeOption {n : Option Node} {o : Option (List Token)}
    (h : d.writeOption place n = .ok o) : o.isSome = n.isSome := by
  cases n with
  | none =>
    cases h
    rfl
  | some n =>
    obtain ⟨us, -, rfl⟩ := writeOption_some_eq_ok.1 h
    rfl

theorem writeAll_eq_nil {ns : List Node} {tss : List (List Token)}
    (h : d.writeAll place ns = .ok tss) : tss = [] ↔ ns = [] := by
  cases ns with
  | nil =>
    cases h
    simp
  | cons n rest =>
    obtain ⟨us, -, rest', -, rfl⟩ := writeAll_cons_eq_ok.1 h
    simp

/-! ## Calls -/

/-- What is written of a call: only the first operand, the operand and the unit that it is rounded
to, or all operands. -/
inductive WritesCall (d : Dialect) (place : Place) (op : Op) (operands : List Node)
    (distinct : Bool) : List Token → Prop where
  | singleValue {operand : List Token} (hop : op = .singleValue ∧ d.countsSingleValues = true)
      (hoperand : d.writeFirst operands = .ok operand) :
      WritesCall d place op operands distinct (singleValueTokens operand)
  | rounding {r : Rounding} {written : List (List Token)}
      (hop : ¬(op = .singleValue ∧ d.countsSingleValues = true))
      (hrounding : d.rounding? op operands = .ok (some r))
      (htakes : op.takes written.length = true)
      (hwritten : d.writeOperands op 0 operands = .ok written) :
      WritesCall d place op operands distinct (roundingTokens op (written.headD []) r)
  | operator {written : List (List Token)}
      (hop : ¬(op = .singleValue ∧ d.countsSingleValues = true))
      (hrounding : d.rounding? op operands = .ok none)
      (htakes : op.takes written.length = true)
      (hwritten : d.writeOperands op 0 operands = .ok written) :
      WritesCall d place op operands distinct
        (placeExpression op.precedence (operatorTokens op distinct operands written) place)

theorem checkOperands_eq_ok {op : Op} {ns : List Node} :
    checkOperands op ns = .ok () ↔ op.takes ns.length = true := by
  simp [checkOperands]

/-- An operator takes as many operands as are written. -/
theorem takes_length_of_writeOperands {op : Op} {position : Nat} {ns : List Node}
    {tss : List (List Token)} (hcount : checkOperands op ns = .ok ())
    (h : d.writeOperands op position ns = .ok tss) : op.takes tss.length = true := by
  rw [length_writeOperands h]
  exact checkOperands_eq_ok.1 hcount

theorem write_call_eq_ok {op : Op} {operands : List Node} {distinct : Bool} :
    d.write place (.call op operands distinct) = .ok ts ↔
      d.checkNesting op operands = .ok () ∧ d.WritesCall place op operands distinct ts := by
  simp only [write, bind_eq_ok]
  constructor
  · rintro ⟨_, hnesting, h⟩
    refine ⟨hnesting, ?_⟩
    split_ifs at h with hsingle
    · obtain ⟨operand, hoperand, h⟩ := bind_eq_ok.1 h
      cases h
      exact .singleValue hsingle hoperand
    · simp only [bind_eq_ok] at h
      obtain ⟨rounding, hrounding, _, hcount, written, hwritten, h⟩ := h
      have htakes := takes_length_of_writeOperands hcount hwritten
      cases rounding with
      | some r =>
        cases h
        exact .rounding hsingle hrounding htakes hwritten
      | none =>
        cases h
        exact .operator hsingle hrounding htakes hwritten
  · rintro ⟨hnesting, h⟩
    refine ⟨(), hnesting, ?_⟩
    cases h with
    | singleValue hop hoperand =>
      rw [if_pos hop]
      exact bind_eq_ok.2 ⟨_, hoperand, rfl⟩
    | rounding hop hrounding htakes hwritten | operator hop hrounding htakes hwritten =>
      rw [length_writeOperands hwritten] at htakes
      rw [if_neg hop]
      simp only [bind_eq_ok]
      exact ⟨_, hrounding, (), checkOperands_eq_ok.2 htakes, _, hwritten, rfl⟩

/-! ## Other expressions -/

theorem write_cast_eq_ok {operand : Node} {type : DataType} :
    d.write place (.cast operand type) = .ok ts ↔
      ∃ us, d.write .free operand = .ok us ∧
        ∃ target, d.castTarget type = .ok target ∧ castTokens us target = ts := by
  simp only [write, bind_eq_ok, pure_eq_ok]

theorem write_caseOf_eq_ok {subject otherwise : Option Node} {branches : List (Node × Node)} :
    d.write place (.caseOf subject branches otherwise) = .ok ts ↔
      branches.isEmpty = false ∧ ∃ subject', d.writeOption .free subject = .ok subject' ∧
        ∃ branches', d.writeBranches branches = .ok branches' ∧
          ∃ otherwise', d.writeOption .free otherwise = .ok otherwise' ∧
            [.word "CASE"] ++ (match subject' with | some us => .blank :: us | none => []) ++
              branches' ++ clause "ELSE" otherwise' ++ [.blank, .word "END"] = ts := by
  rw [write]
  cases branches.isEmpty with
  | true => simp
  | false =>
    simp only [Bool.false_eq_true, if_false, bind_eq_ok, true_and]
    constructor
    · rintro ⟨subject', hsubject, branches', hbranches, otherwise', hotherwise, h⟩
      exact ⟨subject', hsubject, branches', hbranches, otherwise', hotherwise, pure_eq_ok.1 h⟩
    · rintro ⟨subject', hsubject, branches', hbranches, otherwise', hotherwise, h⟩
      exact ⟨subject', hsubject, branches', hbranches, otherwise', hotherwise, pure_eq_ok.2 h⟩

theorem write_array_eq_ok {items : List Node} :
    d.write place (.array items) = .ok ts ↔
      (!d.features.nestedArrays && items.any Node.isArray) = false ∧
        ∃ items', d.writeAll .free items = .ok items' ∧
          [.word "ARRAY", .word "["] ++ commaSeparated items' ++ [.word "]"] = ts := by
  rw [write]
  cases !d.features.nestedArrays && items.any Node.isArray with
  | true => simp
  | false => simp only [Bool.false_eq_true, if_false, bind_eq_ok, pure_eq_ok, true_and]

theorem write_window_eq_ok {called : Node} {partitionBy orderBy : List Node} :
    d.write place (.window called partitionBy orderBy) = .ok ts ↔
      d.features.windows = true ∧
        ∃ called', d.write (.operand Op.leafPrecedence) called = .ok called' ∧
          ∃ partitionBy', d.writeAll .free partitionBy = .ok partitionBy' ∧
            ∃ orderBy', d.writeAll .free orderBy = .ok orderBy' ∧
              windowTokens called' partitionBy' orderBy' = ts := by
  rw [write]
  cases d.features.windows with
  | true =>
    simp only [Bool.not_true, Bool.false_eq_true, if_false, bind_eq_ok, pure_eq_ok, true_and]
  | false => simp

theorem write_aliased_eq_ok {operand : Node} {name : String} :
    d.write place (.aliased operand name) = .ok ts ↔
      ∃ us, d.write .free operand = .ok us ∧ us ++ aliasTokens (.name name) = ts := by
  simp only [write, bind_eq_ok, pure_eq_ok]

theorem write_sortKey_eq_ok {operand : Node} {descending : Bool} {nullsFirst : Option Bool} :
    d.write place (.sortKey operand descending nullsFirst) = .ok ts ↔
      ∃ us, d.write .free operand = .ok us ∧ us ++ sortKeyTokens descending nullsFirst = ts := by
  simp only [write, bind_eq_ok, pure_eq_ok]

/-! ## Sources and queries -/

theorem write_join_eq_ok {left right : Node} {kind : JoinKind} {condition : Option Node} :
    d.write place (.join left right kind condition) = .ok ts ↔
      place = .source ∧ ∃ left', d.write .source left = .ok left' ∧
        ∃ right', d.write .source right = .ok right' ∧
          ∃ condition', d.writeOption .free condition = .ok condition' ∧
            left' ++ spaced kind.name ++ right' ++ clause "ON" condition' = ts := by
  rw [write]
  split_ifs with hplace
  · simp only [hplace, bind_eq_ok, pure_eq_ok, true_and]
  · simp [hplace]

theorem write_select_eq_ok {block : Select Node} :
    d.write place (.select block) = .ok ts ↔
      ∃ query, d.writeSelect block = .ok query ∧ d.placeQuery block.isPaged query place = ts := by
  simp only [write, bind_eq_ok, pure_eq_ok]

theorem write_setOperation_eq_ok {op : SetOperator} {left right : Node} :
    d.write place (.setOperation op left right) = .ok ts ↔
      ∃ left', d.write .setOperand left = .ok left' ∧
        ∃ right', d.write .setOperand right = .ok right' ∧
          d.placeQuery false (left' ++ spaced op.name ++ right') place = ts := by
  simp only [write, bind_eq_ok, pure_eq_ok]

theorem write_values_eq_ok {rows : List (List Node)} :
    d.write place (.values rows) = .ok ts ↔
      rows.isEmpty = false ∧ ∃ rows', d.writeRows rows = .ok rows' ∧
        d.placeQuery false ([.word "VALUES", .blank] ++ commaSeparated rows') place = ts := by
  rw [write]
  cases rows.isEmpty with
  | true => simp
  | false => simp only [Bool.false_eq_true, if_false, bind_eq_ok, pure_eq_ok, true_and]

/-- A query is written in any place as it is by itself, but for what the place puts around it. -/
theorem write_of_isQuery {q : Node} (hq : q.isQuery = true) (place : Place) :
    d.write place q = do return d.placeQuery q.isPaged (← d.write .statement q) place := by
  cases q with
  | select block =>
    simp only [write]
    cases d.writeSelect block <;> rfl
  | setOperation op left right =>
    simp only [write]
    cases d.write .setOperand left with
    | error e => rfl
    | ok ts => cases d.write .setOperand right <;> rfl
  | values rows =>
    simp only [write]
    cases rows.isEmpty with
    | true => rfl
    | false => cases d.writeRows rows <;> rfl
  | _ => cases hq

/-- The written parts of a query block. -/
structure WritesParts (d : Dialect) (block : Select Node) (s : Select (List Token)) : Prop where
  distinct : s.distinct = block.distinct
  items : d.writeAll .free block.items = .ok s.items
  source : d.writeOption .source block.source = .ok s.source
  condition : d.writeOption .free block.condition = .ok s.condition
  groupBy : d.writeAll .free block.groupBy = .ok s.groupBy
  having : d.writeOption .free block.having = .ok s.having
  orderBy : d.writeAll .free block.orderBy = .ok s.orderBy
  offset : d.writeOption .free block.offset = .ok s.offset
  fetch : d.writeOption .free block.fetch = .ok s.fetch

theorem writesParts_of_writeSelect {block : Select Node} (h : d.writeSelect block = .ok ts) :
    ∃ s, WritesParts d block s ∧ ts = selectTokens d.features.pagination s := by
  obtain ⟨distinct, items, source, condition, groupBy, having, orderBy, offset, fetch⟩ := block
  simp only [writeSelect, bind_eq_ok] at h
  obtain ⟨items', hitems, source', hsource, condition', hcondition, groupBy', hgroupBy, having',
    hhaving, orderBy', horderBy, h⟩ := h
  cases hstyle : d.features.pagination with
  | offsetFetch =>
    simp only [hstyle, bind_eq_ok] at h
    obtain ⟨offset', hoffset, fetch', hfetch, h⟩ := h
    cases h
    exact ⟨_, ⟨rfl, hitems, hsource, hcondition, hgroupBy, hhaving, horderBy, hoffset, hfetch⟩, rfl⟩
  | limitOffset =>
    simp only [hstyle, bind_eq_ok] at h
    obtain ⟨fetch', hfetch, offset', hoffset, h⟩ := h
    cases h
    exact ⟨_, ⟨rfl, hitems, hsource, hcondition, hgroupBy, hhaving, horderBy, hoffset, hfetch⟩, rfl⟩

end Dialect

end StorePlan.Sql
