import Mathlib.Data.List.Pairwise
import StorePlan.Plan.Build
import StorePlan.Proofs.Outcome

/-
What the checks of a node leave true of its operator: `Operator.Fits` says it
without reference to the checks, and `fits_of_outputSchema` that an operator
with a row type fits.
-/

namespace StorePlan

/-! ## Fields of an expression -/

namespace RowExpr

/-- The expression refers to a field, at whatever depth. -/
inductive RefersTo (i : Nat) : RowExpr → Prop where
  | field (t : DataType) : RefersTo i (field i t)
  | operand {op : RowOp} {es : List RowExpr} {t : DataType} {e : RowExpr} :
    e ∈ es → RefersTo i e → RefersTo i (call op es t)

mutual

theorem RefersTo.of_mem_fields {i : Nat} : ∀ {e : RowExpr}, i ∈ e.fields → e.RefersTo i
  | .field j t, h => by
    simp only [fields, List.mem_singleton] at h
    subst h
    exact .field t
  | .literal _ _, h => by simp [fields] at h
  | .call _ es _, h => by
    have h : i ∈ allFields es := by simpa only [fields] using h
    obtain ⟨e, he, hi⟩ := RefersTo.of_mem_allFields h
    exact .operand he hi

theorem RefersTo.of_mem_allFields {i : Nat} :
    ∀ {es : List RowExpr}, i ∈ allFields es → ∃ e ∈ es, e.RefersTo i
  | [], h => by simp [allFields] at h
  | e :: rest, h => by
    simp only [allFields, List.mem_append] at h
    rcases h with h | h
    · exact ⟨e, by simp, RefersTo.of_mem_fields h⟩
    · obtain ⟨d, hd, hi⟩ := RefersTo.of_mem_allFields h
      exact ⟨d, by simp [hd], hi⟩

end

theorem mem_allFields {i : Nat} {e : RowExpr} {es : List RowExpr} (he : e ∈ es)
    (hi : i ∈ e.fields) : i ∈ allFields es := by
  induction es with
  | nil => simp at he
  | cons d rest ih =>
    simp only [allFields, List.mem_append]
    rcases List.mem_cons.1 he with rfl | he
    · exact .inl hi
    · exact .inr (ih he)

theorem refersTo_iff {i : Nat} {e : RowExpr} : e.RefersTo i ↔ i ∈ e.fields := by
  refine ⟨fun h => ?_, RefersTo.of_mem_fields⟩
  induction h with
  | field t => simp [fields]
  | operand he _ ih => simpa only [fields] using mem_allFields he ih

/-- Every field that the expression refers to is one of a row of this width. -/
def Within (e : RowExpr) (width : Nat) : Prop := ∀ i, e.RefersTo i → i < width

theorem within_iff {e : RowExpr} {width : Nat} : e.Within width ↔ e.fieldBeyond? width = none := by
  simp [Within, fieldBeyond?, refersTo_iff]

/-- The expression may stand as a condition over rows of this width. -/
structure IsCondition (e : RowExpr) (width : Nat) : Prop where
  within : e.Within width
  boolean : e.type = .boolean

end RowExpr

/-! ## Single checks -/

@[simp] theorem require_eq_ok {holds : Bool} {e : PlanError} {u : Unit} :
    require holds e = .ok u ↔ holds = true := by
  cases holds <;> simp [require]

@[simp] theorem refuse_eq_ok {item : Option α} {because : α → PlanError} {u : Unit} :
    refuse item because = .ok u ↔ item = none := by
  cases item <;> simp [refuse]

theorem mem_insertAscending {n m : Nat} {ns : List Nat} :
    m ∈ insertAscending n ns ↔ m = n ∨ m ∈ ns := by
  induction ns with
  | nil => simp [insertAscending]
  | cons k rest ih =>
    simp only [insertAscending]
    split
    · simp
    · split
      · rename_i h
        subst h
        simp
      · rw [List.mem_cons, ih, List.mem_cons]
        exact or_left_comm

@[simp] theorem mem_ascending {n : Nat} {ns : List Nat} : n ∈ ascending ns ↔ n ∈ ns := by
  induction ns with
  | nil => simp [ascending]
  | cons k rest ih =>
    rw [ascending, List.foldr_cons, mem_insertAscending, List.mem_cons, ← ih, ascending]

theorem pairwise_insertAscending {n : Nat} {ns : List Nat} (h : ns.Pairwise (· < ·)) :
    (insertAscending n ns).Pairwise (· < ·) := by
  induction ns with
  | nil => simp [insertAscending]
  | cons k rest ih =>
    obtain ⟨hk, hrest⟩ := List.pairwise_cons.1 h
    simp only [insertAscending]
    split
    · rename_i hn
      refine List.pairwise_cons.2 ⟨fun m hm => ?_, h⟩
      rcases List.mem_cons.1 hm with rfl | hm
      · exact hn
      · exact Nat.lt_trans hn (hk m hm)
    · split
      · exact h
      · refine List.pairwise_cons.2 ⟨fun m hm => ?_, ih hrest⟩
        rcases mem_insertAscending.1 hm with rfl | hm
        · omega
        · exact hk m hm

theorem pairwise_ascending (ns : List Nat) : (ascending ns).Pairwise (· < ·) := by
  induction ns with
  | nil => exact .nil
  | cons n rest ih => exact pairwise_insertAscending ih

/-- The fields of grouped rows in order, in the group and in each grouping set. -/
def Operator.Ordered : Operator → Prop
  | aggregate fields sets _ =>
    fields.Pairwise (· < ·) ∧ ∀ given ∈ sets, ∀ set ∈ given, set.Pairwise (· < ·)
  | _ => True

theorem Operator.ordered_normalize (op : Operator) : op.normalize.Ordered := by
  cases op with
  | aggregate fields sets calls =>
    refine ⟨pairwise_ascending fields, fun given hgiven set hset => ?_⟩
    obtain ⟨sets, -, rfl⟩ := Option.map_eq_some_iff.1 hgiven
    obtain ⟨before, -, rfl⟩ := List.mem_map.1 hset
    exact pairwise_ascending before
  | _ => trivial

@[simp] theorem Operator.kind_normalize (op : Operator) : op.normalize.kind = op.kind := by
  cases op <;> rfl

/-! ## What an operator with a row type satisfies -/

/-- Numbers of arguments that a function may have. -/
def AggregateFunction.Takes : AggregateFunction → Nat → Prop
  | count, n => n ≤ 1
  | other .., _ => True
  | _, n => n = 1

theorem AggregateFunction.takes_iff {f : AggregateFunction} {n : Nat} :
    f.Takes n ↔ f.arity.allows n = true := by
  cases f <;> simp [Takes, arity, Arity.allows]

/-- An aggregate over rows of a row type. -/
structure AggregateFits (convention : Convention) (input : Schema) (fields : List Nat)
    (sets : Option (List (List Nat))) (calls : List AggregateCall) : Prop where
  fieldsAscend : fields.Pairwise (· < ·)
  fieldsInRange : ∀ f ∈ fields, f < input.width
  setsGiven : sets ≠ some []
  setsAscend : ∀ given ∈ sets, ∀ set ∈ given, set.Pairwise (· < ·)
  setsGrouped : ∀ given ∈ sets, ∀ set ∈ given, set ⊆ fields
  argumentCount : ∀ call ∈ calls, call.function.Takes call.arguments.length
  argumentsInRange : ∀ call ∈ calls, ∀ a ∈ call.arguments, a < input.width
  /-- Outside of relational stores, arguments are not distinct and rows are grouped once. -/
  plain : convention = .document ∨ convention = .vector →
    (∀ call ∈ calls, call.distinct = false) ∧ (sets = none ∨ sets = some [fields])

namespace Operator

/-- An operator over inputs of these row types is well-formed. -/
def Fits (convention : Convention) (inputs : List Schema) : Operator → Prop
  | scan .. => inputs = []
  | values schema rows =>
    inputs = [] ∧
      ∀ row ∈ rows, List.Forall₂ (fun v c => v.conformsTo c.type = true) row schema.columns
  | filter condition => ∃ input, inputs = [input] ∧ condition.IsCondition input.width
  | project exprs => ∃ input, inputs = [input] ∧ ∀ item ∈ exprs, item.2.Within input.width
  | aggregate fields sets calls =>
    ∃ input, inputs = [input] ∧ AggregateFits convention input fields sets calls
  | join _ condition =>
    ∃ left right, inputs = [left, right] ∧ condition.IsCondition (left.width + right.width)
  | sort keys _ _ => ∃ input, inputs = [input] ∧ ∀ key ∈ keys, key.field < input.width
  | union _ => 2 ≤ inputs.length

theorem checkCondition_eq_ok {kind : OperatorKind} {condition : RowExpr} {width : Nat} {u : Unit} :
    checkCondition kind condition width = .ok u ↔ condition.IsCondition width := by
  have : condition.IsCondition width ↔ condition.Within width ∧ condition.type = .boolean :=
    ⟨fun h => ⟨h.within, h.boolean⟩, fun h => ⟨h.1, h.2⟩⟩
  simp [checkCondition, this, RowExpr.within_iff]

theorem checkRow_eq_ok {schema : Schema} {index : Nat} {row : List Value} {u : Unit} :
    checkRow schema index row = .ok u ↔
      List.Forall₂ (fun v c => v.conformsTo c.type = true) row schema.columns := by
  simp [checkRow, List.forall₂_iff_zip, Schema.width]

theorem checkRows_eq_ok {schema : Schema} {index : Nat} {rows : List (List Value)} {u : Unit} :
    checkRows schema index rows = .ok u ↔
      ∀ row ∈ rows, List.Forall₂ (fun v c => v.conformsTo c.type = true) row schema.columns := by
  induction rows generalizing index with
  | nil => simp [checkRows]
  | cons row rest ih => simp [checkRows, checkRow_eq_ok, ih]

theorem validate_eq_ok {call : AggregateCall} {input : Schema} {u : Unit} :
    call.validate input = .ok u ↔
      call.function.Takes call.arguments.length ∧ ∀ a ∈ call.arguments, a < input.width := by
  simp [AggregateCall.validate, AggregateFunction.takes_iff]

theorem checkCalls_eq_ok {input : Schema} {calls : List AggregateCall} {u : Unit} :
    checkCalls input calls = .ok u ↔
      ∀ call ∈ calls, call.function.Takes call.arguments.length ∧
        ∀ a ∈ call.arguments, a < input.width := by
  induction calls with
  | nil => simp [checkCalls]
  | cons call rest ih => simp [checkCalls, validate_eq_ok, ih]

theorem checkSets_eq_ok {fields : List Nat} {sets : Option (List (List Nat))} {u : Unit} :
    checkSets fields sets = .ok u ↔
      sets ≠ some [] ∧ ∀ given ∈ sets, ∀ set ∈ given, set ⊆ fields := by
  cases sets with
  | none => simp [checkSets]
  | some given => simp [checkSets, List.subset_def]

theorem classify_eq_simple {fields : List Nat} {sets : Option (List (List Nat))} :
    Grouping.classify fields sets = .simple ↔ sets = none ∨ sets = some [fields] := by
  cases sets with
  | none => simp [Grouping.classify]
  | some given =>
    simp only [Grouping.classify]
    split
    · simp_all
    · split
      · simp_all
      · split <;> simp_all

theorem checkSupport_eq_ok {convention : Convention} {grouping : Grouping}
    {calls : List AggregateCall} {u : Unit} :
    checkSupport convention grouping calls = .ok u ↔
      (convention = .document ∨ convention = .vector →
        (∀ call ∈ calls, call.distinct = false) ∧ grouping = .simple) := by
  cases convention <;>
    simp [checkSupport, Convention.allowsDistinct, Convention.allowsGroupingSets]

theorem aggregateSchema_eq_ok {convention : Convention} {input schema : Schema}
    {fields : List Nat} {sets : Option (List (List Nat))} {calls : List AggregateCall} :
    aggregateSchema input convention fields sets calls = .ok schema ↔
      (∀ f ∈ fields, f < input.width) ∧ checkSets fields sets = .ok () ∧
        checkCalls input calls = .ok () ∧
          checkSupport convention (.classify fields sets) calls = .ok () ∧
            ⟨keyColumns input (.classify fields sets) fields ++
              callColumns input (keyColumns input (.classify fields sets) fields).length calls⟩ =
                schema := by
  simp only [aggregateSchema, bind_eq_ok, pure_eq_ok, refuse_eq_ok, List.find?_eq_none,
    decide_eq_true_eq, Nat.not_le]
  constructor
  · rintro ⟨_, hfields, _, hsets, _, hcalls, _, hsupport, h⟩
    exact ⟨hfields, hsets, hcalls, hsupport, h⟩
  · rintro ⟨hfields, hsets, hcalls, hsupport, h⟩
    exact ⟨(), hfields, (), hsets, (), hcalls, (), hsupport, h⟩

/-- With the fields in order, an aggregate has a row type exactly if it is well-formed. -/
theorem exists_aggregateSchema_iff {convention : Convention} {input : Schema} {fields : List Nat}
    {sets : Option (List (List Nat))} {calls : List AggregateCall}
    (ho : (aggregate fields sets calls).Ordered) :
    (∃ schema, aggregateSchema input convention fields sets calls = .ok schema) ↔
      AggregateFits convention input fields sets calls := by
  simp only [aggregateSchema_eq_ok, checkSets_eq_ok, checkCalls_eq_ok, checkSupport_eq_ok,
    classify_eq_simple]
  constructor
  · rintro ⟨_, hfields, ⟨hgiven, hsets⟩, hcalls, hplain, -⟩
    exact
      { fieldsAscend := ho.1
        fieldsInRange := hfields
        setsGiven := hgiven
        setsAscend := ho.2
        setsGrouped := hsets
        argumentCount := fun call hcall => (hcalls call hcall).1
        argumentsInRange := fun call hcall => (hcalls call hcall).2
        plain := hplain }
  · intro h
    have hcalls : ∀ call ∈ calls, call.function.Takes call.arguments.length ∧
        ∀ a ∈ call.arguments, a < input.width :=
      fun call hcall => ⟨h.argumentCount call hcall, h.argumentsInRange call hcall⟩
    exact ⟨_, h.fieldsInRange, ⟨h.setsGiven, h.setsGrouped⟩, hcalls, h.plain, rfl⟩

theorem unionColumns_cons_eq_ok {position : Nat} {c d : Column} {cs ds es : List Column} :
    unionColumns position (c :: cs) (d :: ds) = .ok es ↔
      c.type.name = d.type.name ∧ ∃ rest, unionColumns position cs ds = .ok rest ∧
        { c with nullable := c.nullable || d.nullable } :: rest = es := by
  simp only [unionColumns, bind_eq_ok, pure_eq_ok, require_eq_ok, beq_iff_eq, exists_const]

theorem unionSchema_cons_eq_ok {position : Nat} {first other schema : Schema}
    {others : List Schema} :
    unionSchema first position (other :: others) = .ok schema ↔
      other.width = first.width ∧
        ∃ columns, unionColumns position first.columns other.columns = .ok columns ∧
          unionSchema ⟨columns⟩ (position + 1) others = .ok schema := by
  simp only [unionSchema, bind_eq_ok, require_eq_ok, beq_iff_eq, exists_const]

theorem within_of_projectColumn {input : Schema} {item : String × RowExpr} {c : Column}
    (h : projectColumn input item = .ok c) : item.2.Within input.width := by
  simp only [projectColumn, bind_eq_ok, refuse_eq_ok] at h
  obtain ⟨_, hwithin, -⟩ := h
  exact RowExpr.within_iff.2 hwithin

/-- An operator over the right number of inputs, with a row type and its grouped fields in order,
is well-formed. -/
theorem fits_of_outputSchema {op : Operator} {convention : Convention} {inputs : List Schema}
    {schema : Schema} (ho : op.Ordered) (hn : op.kind.takes inputs.length = true)
    (h : op.outputSchema convention inputs = .ok schema) : op.Fits convention inputs := by
  -- The four operators over one input have its row type at hand once the list is taken apart.
  have single (h : (inputs.length == 1) = true) : ∃ input, inputs = [input] :=
    List.length_eq_one_iff.1 (beq_iff_eq.1 h)
  cases op with
  | scan => simpa [kind, OperatorKind.takes, Fits] using hn
  | values schema rows =>
    simp only [outputSchema, bind_eq_ok, checkRows_eq_ok] at h
    obtain ⟨_, hrows, -⟩ := h
    exact ⟨by simpa [kind, OperatorKind.takes] using hn, hrows⟩
  | filter condition =>
    obtain ⟨input, rfl⟩ := single hn
    simp only [outputSchema, List.headD_cons, bind_eq_ok, checkCondition_eq_ok] at h
    obtain ⟨_, hcondition, -⟩ := h
    exact ⟨input, rfl, hcondition⟩
  | project exprs =>
    obtain ⟨input, rfl⟩ := single hn
    simp only [outputSchema, List.headD_cons, bind_eq_ok] at h
    obtain ⟨columns, hcolumns, -⟩ := h
    refine ⟨input, rfl, fun item hitem => ?_⟩
    obtain ⟨c, -, hc⟩ := exists_ok_of_mem_of_mapM hcolumns hitem
    exact within_of_projectColumn hc
  | aggregate fields sets calls =>
    obtain ⟨input, rfl⟩ := single hn
    exact ⟨input, rfl, (exists_aggregateSchema_iff ho).1 ⟨schema, h⟩⟩
  | join type condition =>
    obtain ⟨left, right, rfl⟩ : ∃ left right, inputs = [left, right] := by
      simpa [kind, OperatorKind.takes, List.length_eq_two] using hn
    simp only [outputSchema, bind_eq_ok, checkCondition_eq_ok] at h
    obtain ⟨_, hcondition, -⟩ := h
    exact ⟨left, right, rfl, hcondition⟩
  | sort keys offset fetch =>
    obtain ⟨input, rfl⟩ := single hn
    simp only [outputSchema, List.headD_cons, bind_eq_ok, refuse_eq_ok, List.find?_eq_none] at h
    obtain ⟨_, hkeys, -⟩ := h
    exact ⟨input, rfl, fun key hkey => Nat.not_le.1 fun hle => hkeys key hkey (decide_eq_true hle)⟩
  | union all => simpa [kind, OperatorKind.takes, Fits] using hn

/-! ## What the row type is like -/

variable {input schema : Schema} {convention : Convention}

/-- Filters and sorts keep the row type. -/
theorem eq_of_outputSchema {op : Operator}
    (hkind : op.kind = .filter ∨ op.kind = .sort)
    (h : op.outputSchema convention [input] = .ok schema) : schema = input := by
  cases op with
  | filter condition | sort keys offset fetch =>
    simp only [outputSchema, List.headD_cons, bind_eq_ok, pure_eq_ok] at h
    obtain ⟨_, -, rfl⟩ := h
    rfl
  | _ => simp [kind] at hkind

/-- A projection has one column for each expression. -/
theorem width_project {exprs : List (String × RowExpr)}
    (h : (project exprs).outputSchema convention [input] = .ok schema) :
    schema.width = exprs.length := by
  simp only [outputSchema, bind_eq_ok, pure_eq_ok, mapM_eq_ok] at h
  obtain ⟨columns, hcolumns, rfl⟩ := h
  exact hcolumns.length_eq.symm

theorem names_project {exprs : List (String × RowExpr)}
    (h : (project exprs).outputSchema convention [input] = .ok schema) :
    schema.names = exprs.map (·.1) := by
  simp only [outputSchema, bind_eq_ok, pure_eq_ok, mapM_eq_ok] at h
  obtain ⟨columns, hcolumns, rfl⟩ := h
  induction hcolumns with
  | nil => rfl
  | cons hcolumn _ ih =>
    simp only [projectColumn, bind_eq_ok, pure_eq_ok] at hcolumn
    obtain ⟨_, -, rfl⟩ := hcolumn
    exact congrArg _ ih

theorem length_keyColumns {grouping : Grouping} {fields : List Nat}
    (h : ∀ f ∈ fields, f < input.width) :
    (keyColumns input grouping fields).length = fields.length := by
  have hcolumn : ∀ f ∈ fields, (input.column? f).isSome := fun f hf =>
    Option.isSome_iff_exists.2 (Schema.exists_column? (h f hf))
  rw [keyColumns, List.length_map, List.length_filterMap_eq_countP, List.countP_eq_length.2 hcolumn]

theorem map_name_keyColumns (input : Schema) (grouping : Grouping) (fields : List Nat) :
    (keyColumns input grouping fields).map (·.name) =
      (fields.filterMap input.column?).map (·.name) := by
  rw [keyColumns, List.map_map]
  refine List.map_congr_left fun c _ => ?_
  simp only [Function.comp_apply]
  split <;> rfl

@[simp] theorem length_callColumns {position : Nat} {calls : List AggregateCall} :
    (callColumns input position calls).length = calls.length := by
  induction calls generalizing position with
  | nil => rfl
  | cons c rest ih => simp [callColumns, ih]

/-- An aggregate has one column for each grouped field and one for each call. -/
theorem width_aggregate {fields : List Nat} {sets : Option (List (List Nat))}
    {calls : List AggregateCall}
    (h : (aggregate fields sets calls).outputSchema convention [input] = .ok schema) :
    schema.width = fields.length + calls.length := by
  have h : aggregateSchema input convention fields sets calls = .ok schema := h
  obtain ⟨hfields, -, -, -, rfl⟩ := aggregateSchema_eq_ok.1 h
  simp [Schema.width, length_keyColumns hfields]

/-- The columns of grouped fields keep their names. -/
theorem names_aggregate {fields : List Nat} {sets : Option (List (List Nat))}
    {calls : List AggregateCall}
    (h : (aggregate fields sets calls).outputSchema convention [input] = .ok schema) :
    schema.names = (fields.filterMap input.column?).map (·.name) ++
      (callColumns input fields.length calls).map (·.name) := by
  have h : aggregateSchema input convention fields sets calls = .ok schema := h
  obtain ⟨hfields, -, -, -, rfl⟩ := aggregateSchema_eq_ok.1 h
  rw [Schema.names, List.map_append, map_name_keyColumns, length_keyColumns hfields]

theorem take_names_aggregate {fields : List Nat} {sets : Option (List (List Nat))}
    {calls : List AggregateCall}
    (h : (aggregate fields sets calls).outputSchema convention [input] = .ok schema) :
    schema.names.take fields.length = (fields.filterMap input.column?).map (·.name) := by
  have hwidth : schema.names.length = fields.length + calls.length := by
    rw [Schema.names, List.length_map]
    exact width_aggregate h
  rw [names_aggregate h] at hwidth ⊢
  refine List.take_left' ?_
  simpa using hwidth

theorem drop_names_aggregate {fields : List Nat} {sets : Option (List (List Nat))}
    {calls : List AggregateCall}
    (h : (aggregate fields sets calls).outputSchema convention [input] = .ok schema) :
    schema.names.drop fields.length = (callColumns input fields.length calls).map (·.name) := by
  have hkeys := take_names_aggregate h
  have hall := names_aggregate h
  rw [← List.take_append_drop fields.length schema.names, hkeys] at hall
  exact List.append_cancel_left hall

end Operator

end StorePlan
