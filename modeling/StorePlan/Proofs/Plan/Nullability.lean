import StorePlan.Proofs.Plan.Invariant

/-
What a row type says about `NULL`: no row that a plan may yield has `NULL` in
a column that is not nullable, provided that none of the rows has that the
plan's leaves deliver (`admits_of_yields`).

`Yields` says which rows a plan may yield at all. It leaves open how often and
in which order it yields them, for which rows a condition holds, and what
calls compute.
-/

namespace StorePlan

/-! ## Rows of a row type -/

/-- A row with one value for each column, `NULL` only where the column may hold it. -/
def Schema.Admits (s : Schema) (row : List Value) : Prop :=
  List.Forall₂ (fun v c => v.isNull = true → c.nullable = true) row s.columns

namespace Schema

variable {s t : Schema} {row : List Value}

theorem Admits.nullable_of_getElem? {i : Nat} {v : Value} {c : Column} (h : s.Admits row)
    (hv : row[i]? = some v) (hc : s.column? i = some c) (hnull : v.isNull = true) :
    c.nullable = true := by
  have hmem : (v, c) ∈ row.zip s.columns :=
    List.mem_of_getElem? (List.getElem?_zip_eq_some.2 ⟨hv, hc⟩)
  exact (List.forall₂_iff_zip.1 h).2 hmem hnull

theorem Admits.append {right : List Value} (h : s.Admits row) (hr : t.Admits right) :
    (s.append t).Admits (row ++ right) :=
  List.rel_append h hr

theorem Admits.asNullable (h : s.Admits row) : s.asNullable.Admits row := by
  rw [Admits, Schema.asNullable, List.forall₂_map_right_iff]
  exact h.imp fun _ _ _ _ => rfl

/-- Where everything may be `NULL`, all of it may. -/
theorem admits_asNullable_replicate (s : Schema) :
    s.asNullable.Admits (List.replicate s.width .null) := by
  rw [Admits, Schema.asNullable, List.forall₂_map_right_iff, width]
  induction s.columns with
  | nil => exact .nil
  | cons c rest ih => exact .cons (fun _ => rfl) ih

end Schema

/-! ## Rows of a plan -/

/-- The rows that scans deliver, by the table and the row type it is scanned with. -/
abbrev Tables := String → Schema → List Value → Prop

/-- A value that an expression may have over a row. -/
inductive RowExpr.Computes (row : List Value) : RowExpr → Value → Prop where
  | field {i : Nat} {t : DataType} {v : Value} : row[i]? = some v → Computes row (.field i t) v
  | literal {v : Value} {t : DataType} : Computes row (.literal v t) v
  | call {op : RowOp} {es : List RowExpr} {t : DataType} {v : Value} :
    Computes row (.call op es t) v

/-- A value that an aggregate call may have: only a count and a sum that is zero over no rows are
never `NULL`. -/
def AggregateCall.Computes (c : AggregateCall) (v : Value) : Prop :=
  v.isNull = true → c.function ≠ .count ∧ c.function ≠ .sumOrZero

/-- The value of a grouped field in a row for a grouping set: as in a row of the group if the field
is in the set, else `NULL`. -/
def KeyValue (row : List Value) (set : List Nat) (field : Nat) (v : Value) : Prop :=
  if field ∈ set then row[field]? = some v else v = .null

/-- No field is in the empty grouping set, so its group has the same keys over every row. -/
theorem keyValue_nil (row : List Value) (fields : List Nat) :
    List.Forall₂ (KeyValue row []) fields (List.replicate fields.length .null) := by
  induction fields with
  | nil => exact .nil
  | cons f rest ih => exact .cons (by simp [KeyValue]) ih

/-- The rows of a leaf. -/
def Operator.Delivers (tables : Tables) : Operator → List Value → Prop
  | scan table schema, row => tables table schema row
  | values _ rows, row => row ∈ rows
  | _, _ => False

namespace Plan

/-- The rows that a plan may yield. -/
inductive Yields (tables : Tables) : Plan → List Value → Prop where
  | leaf {p : Plan} {row : List Value} : p.op.Delivers tables row → Yields tables p row
  | filter {condition : RowExpr} {input : Plan} {schema : Schema} {convention : Convention}
    {row : List Value} :
    Yields tables input row → Yields tables ⟨.filter condition, [input], schema, convention⟩ row
  | sort {keys : List Collation} {offset fetch : Option UInt64} {input : Plan} {schema : Schema}
    {convention : Convention} {row : List Value} :
    Yields tables input row →
      Yields tables ⟨.sort keys offset fetch, [input], schema, convention⟩ row
  | project {exprs : List (String × RowExpr)} {input : Plan} {schema : Schema}
    {convention : Convention} {row result : List Value} :
    Yields tables input row → List.Forall₂ (fun item v => item.2.Computes row v) exprs result →
      Yields tables ⟨.project exprs, [input], schema, convention⟩ result
  | union {all : Bool} {inputs : List Plan} {input : Plan} {schema : Schema}
    {convention : Convention} {row : List Value} :
    input ∈ inputs → Yields tables input row →
      Yields tables ⟨.union all, inputs, schema, convention⟩ row
  /-- Two rows side by side. -/
  | join {type : JoinType} {condition : RowExpr} {left right : Plan} {schema : Schema}
    {convention : Convention} {l r : List Value} :
    Yields tables left l → Yields tables right r →
      Yields tables ⟨.join type condition, [left, right], schema, convention⟩ (l ++ r)
  /-- A row of the left input without a partner. -/
  | joinLeft {type : JoinType} {condition : RowExpr} {left right : Plan} {schema : Schema}
    {convention : Convention} {l : List Value} :
    type = .left ∨ type = .full → Yields tables left l →
      Yields tables ⟨.join type condition, [left, right], schema, convention⟩
        (l ++ List.replicate right.schema.width .null)
  /-- A row of the right input without a partner. -/
  | joinRight {type : JoinType} {condition : RowExpr} {left right : Plan} {schema : Schema}
    {convention : Convention} {r : List Value} :
    type = .right ∨ type = .full → Yields tables right r →
      Yields tables ⟨.join type condition, [left, right], schema, convention⟩
        (List.replicate left.schema.width .null ++ r)
  /-- A group of one of the grouping sets. -/
  | aggregate {fields : List Nat} {sets : Option (List (List Nat))} {calls : List AggregateCall}
    {input : Plan} {schema : Schema} {convention : Convention} {set : List Nat}
    {row keys results : List Value} :
    set ∈ sets.getD [fields] → Yields tables input row →
      List.Forall₂ (KeyValue row set) fields keys →
      List.Forall₂ AggregateCall.Computes calls results →
        Yields tables ⟨.aggregate fields sets calls, [input], schema, convention⟩ (keys ++ results)
  /-- The group of all rows, which there is even if there are no rows. -/
  | aggregateAll {fields : List Nat} {sets : Option (List (List Nat))}
    {calls : List AggregateCall} {input : Plan} {schema : Schema} {convention : Convention}
    {results : List Value} :
    [] ∈ sets.getD [fields] → List.Forall₂ AggregateCall.Computes calls results →
      Yields tables ⟨.aggregate fields sets calls, [input], schema, convention⟩
        (List.replicate fields.length .null ++ results)

end Plan

/-! ## Operator by operator -/

namespace Operator

variable {input schema : Schema} {row : List Value}

theorem nullable_of_projectColumn {item : String × RowExpr} {c : Column} {v : Value}
    (hrow : input.Admits row) (hc : projectColumn input item = .ok c)
    (hv : item.2.Computes row v) (hnull : v.isNull = true) : c.nullable = true := by
  obtain ⟨name, e⟩ := item
  simp only [projectColumn, bind_eq_ok, pure_eq_ok] at hc
  obtain ⟨_, -, rfl⟩ := hc
  cases hv with
  | @field i t _ hi =>
    cases hcolumn : input.column? i with
    | none => simp [isNullable, hcolumn]
    | some c =>
      have := hrow.nullable_of_getElem? hi hcolumn hnull
      simp [isNullable, hcolumn, this]
  | literal => exact hnull
  | call => rfl

theorem admits_project {exprs : List (String × RowExpr)} {columns : List Column}
    {result : List Value} (hrow : input.Admits row)
    (hc : exprs.mapM (projectColumn input) = .ok columns)
    (hv : List.Forall₂ (fun item v => item.2.Computes row v) exprs result) :
    Schema.Admits ⟨columns⟩ result := by
  rw [mapM_eq_ok] at hc
  induction hc generalizing result with
  | nil =>
    cases hv
    exact .nil
  | cons hc _ ih =>
    cases hv with
    | cons hv hrest => exact .cons (nullable_of_projectColumn hrow hc hv) (ih hrest)

/-- On either side of a join stands a row of that side, or `NULL` throughout where the other side is
kept without a partner. -/
theorem admits_joinSchema {type : JoinType} {left right : Schema} {l r : List Value}
    (hl : left.Admits l ∨ type.keepsRight = true ∧ l = List.replicate left.width .null)
    (hr : right.Admits r ∨ type.keepsLeft = true ∧ r = List.replicate right.width .null) :
    (joinSchema type left right).Admits (l ++ r) := by
  refine Schema.Admits.append ?_ ?_
  · split_ifs with hkeeps
    · rcases hl with hl | ⟨-, rfl⟩
      · exact hl.asNullable
      · exact left.admits_asNullable_replicate
    · exact hl.elim id fun h => absurd h.1 hkeeps
  · split_ifs with hkeeps
    · rcases hr with hr | ⟨-, rfl⟩
      · exact hr.asNullable
      · exact right.admits_asNullable_replicate
    · exact hr.elim id fun h => absurd h.1 hkeeps

theorem admits_unionColumns {position : Nat} {cs ds es : List Column}
    (h : unionColumns position cs ds = .ok es) (hwidth : ds.length = cs.length)
    (hrow : Schema.Admits ⟨cs⟩ row ∨ Schema.Admits ⟨ds⟩ row) : Schema.Admits ⟨es⟩ row := by
  induction cs generalizing ds es row with
  | nil =>
    obtain rfl : ds = [] := List.length_eq_zero_iff.1 hwidth
    cases h
    exact hrow.elim id id
  | cons c cs ih =>
    cases ds with
    | nil => cases hwidth
    | cons d ds =>
      obtain ⟨-, rest, hrest, rfl⟩ := unionColumns_cons_eq_ok.1 h
      have hlength : ds.length = cs.length := Nat.succ.inj hwidth
      -- A column of the union is nullable if it is on either side, so each side's rows fit.
      rcases hrow with hrow | hrow <;> cases hrow with
      | cons hv htail =>
        first
          | exact .cons (fun hnull => by simp [hv hnull]) (ih hrest hlength (.inl htail))
          | exact .cons (fun hnull => by simp [hv hnull]) (ih hrest hlength (.inr htail))

/-- The row type of a union admits the rows of every input. -/
theorem admits_unionSchema {position : Nat} {first other : Schema} {others : List Schema}
    (h : unionSchema first position others = .ok schema) (hother : other ∈ first :: others)
    (hrow : other.Admits row) : schema.Admits row := by
  induction others generalizing first position other with
  | nil =>
    cases h
    exact List.mem_singleton.1 hother ▸ hrow
  | cons next rest ih =>
    obtain ⟨hwidth, columns, hcolumns, hrest⟩ := unionSchema_cons_eq_ok.1 h
    have widened (hrow : first.Admits row ∨ next.Admits row) :
        Schema.Admits ⟨columns⟩ row := admits_unionColumns hcolumns hwidth hrow
    simp only [List.mem_cons] at hother
    rcases hother with rfl | rfl | hother
    · exact ih hrest (by simp) (widened (.inl hrow))
    · exact ih hrest (by simp) (widened (.inr hrow))
    · exact ih hrest (List.mem_cons_of_mem _ hother) hrow

theorem admits_callColumns {calls : List AggregateCall} {results : List Value} (position : Nat)
    (h : List.Forall₂ AggregateCall.Computes calls results) :
    Schema.Admits ⟨callColumns input position calls⟩ results := by
  induction h generalizing position with
  | nil => exact .nil
  | @cons c v _ _ hv _ ih =>
    refine .cons (fun hnull => ?_) (ih (position + 1))
    obtain ⟨hcount, hsum⟩ := hv hnull
    change c.function.isNullable = true
    unfold AggregateFunction.isNullable
    split
    · contradiction
    · contradiction
    · rfl

/-- The grouped fields of a group: those outside its grouping set are nullable, since there are
others then. -/
theorem admits_keyColumns {grouping : Grouping} {fields set : List Nat} {keys : List Value}
    (hrange : ∀ f ∈ fields, f < input.width) (hkeys : List.Forall₂ (KeyValue row set) fields keys)
    (hsimple : grouping = .simple → fields ⊆ set)
    (hrow : ∀ f ∈ set, ∀ v c, row[f]? = some v → input.column? f = some c →
      v.isNull = true → c.nullable = true) :
    Schema.Admits ⟨keyColumns input grouping fields⟩ keys := by
  induction hkeys with
  | nil => exact .nil
  | @cons f v rest _ hv _ ih =>
    rw [List.forall_mem_cons] at hrange
    obtain ⟨c, hc⟩ := Schema.exists_column? hrange.1
    have hcolumns : keyColumns input grouping (f :: rest) =
        (if grouping = .simple then c else { c with nullable := true }) ::
          keyColumns input grouping rest := by
      simp [keyColumns, hc]
    rw [hcolumns]
    refine .cons (fun hnull => ?_)
      (ih hrange.2 fun hg => (List.cons_subset.1 (hsimple hg)).2)
    -- Only a simple grouping keeps the column as it is, and then the field is in the set.
    split_ifs with hg
    · have hset : f ∈ set := (List.cons_subset.1 (hsimple hg)).1
      rw [KeyValue, if_pos hset] at hv
      exact hrow f hset v c hv hc hnull
    · rfl

/-- A group of one of the grouping sets, made from a row that the input's row type admits, or of all
rows. -/
theorem admits_aggregateSchema {convention : Convention} {fields set : List Nat}
    {sets : Option (List (List Nat))} {calls : List AggregateCall} {keys results : List Value}
    (h : aggregateSchema input convention fields sets calls = .ok schema)
    (hset : set ∈ sets.getD [fields]) (hrow : set = [] ∨ input.Admits row)
    (hkeys : List.Forall₂ (KeyValue row set) fields keys)
    (hresults : List.Forall₂ AggregateCall.Computes calls results) :
    schema.Admits (keys ++ results) := by
  obtain ⟨hrange, -, -, -, rfl⟩ := aggregateSchema_eq_ok.1 h
  refine List.rel_append (admits_keyColumns hrange hkeys (fun hsimple => ?_) ?_)
    (admits_callColumns _ hresults)
  · -- Without further grouping sets the only one has all fields in it.
    have : sets.getD [fields] = [fields] := by
      rcases classify_eq_simple.1 hsimple with rfl | rfl <;> rfl
    rw [this, List.mem_singleton] at hset
    rw [hset]
    exact List.Subset.refl fields
  · intro f hf v c hv hc hnull
    rcases hrow with rfl | hrow
    · cases hf
    · exact hrow.nullable_of_getElem? hv hc hnull

end Operator

/-! ## Whole plans -/

namespace Plan

variable {tables : Tables}

/-- A built plan whose leaves deliver rows of their row types. -/
structure Supplied (tables : Tables) (p : Plan) : Prop where
  built : Built p
  leaves : ∀ q, PartOf q p → ∀ row, q.op.Delivers tables row → q.schema.Admits row

namespace Supplied

theorem input {p q : Plan} (h : Supplied tables p) (hq : q ∈ p.inputs) : Supplied tables q where
  built := h.built.of_partOf (.input hq (.self q))
  leaves r hr := h.leaves r (.input hq hr)

theorem only {op : Operator} {q : Plan} {schema : Schema} {convention : Convention}
    (h : Supplied tables ⟨op, [q], schema, convention⟩) : Supplied tables q :=
  h.input (List.mem_singleton.2 rfl)

theorem derived {op : Operator} {inputs : List Plan} {schema : Schema} {convention : Convention}
    (h : Supplied tables ⟨op, inputs, schema, convention⟩) :
    op.outputSchema convention (inputs.map (·.schema)) = .ok schema :=
  (h.built.consistent (.self _)).1.derived

theorem join {type : JoinType} {condition : RowExpr} {left right : Plan} {schema : Schema}
    {convention : Convention}
    (h : Supplied tables ⟨.join type condition, [left, right], schema, convention⟩) :
    Supplied tables left ∧ Supplied tables right ∧
      schema = Operator.joinSchema type left.schema right.schema := by
  have hderived := h.derived
  simp only [Operator.outputSchema, List.map_cons, List.map_nil, bind_eq_ok,
    pure_eq_ok] at hderived
  obtain ⟨_, -, rfl⟩ := hderived
  exact ⟨h.input (by simp), h.input (by simp), rfl⟩

end Supplied

/-- One case for each way to a row, with the row types of the inputs by induction. -/
theorem admits_of_supplied {p : Plan} {row : List Value} (hp : Supplied tables p)
    (h : Yields tables p row) : p.schema.Admits row := by
  induction h with
  | @leaf p row hrow => exact hp.leaves p (.self p) row hrow
  | filter _ ih => exact Operator.eq_of_outputSchema (.inl rfl) hp.derived ▸ ih hp.only
  | sort _ ih => exact Operator.eq_of_outputSchema (.inr rfl) hp.derived ▸ ih hp.only
  | project _ hresult ih =>
    have hderived := hp.derived
    simp only [Operator.outputSchema, List.map_cons, List.headD_cons, bind_eq_ok,
      pure_eq_ok] at hderived
    obtain ⟨columns, hcolumns, rfl⟩ := hderived
    exact Operator.admits_project (ih hp.only) hcolumns hresult
  | @union all inputs input schema convention row hmem _ ih =>
    cases inputs with
    | nil => cases hmem
    | cons first rest =>
      have hother : input.schema ∈ first.schema :: rest.map (·.schema) :=
        List.mem_map_of_mem (f := (·.schema)) hmem
      exact Operator.admits_unionSchema hp.derived hother (ih (hp.input hmem))
  | join _ _ ihl ihr =>
    obtain ⟨hl, hr, rfl⟩ := hp.join
    exact Operator.admits_joinSchema (.inl (ihl hl)) (.inl (ihr hr))
  | @joinLeft type _ _ _ _ _ _ htype _ ih =>
    obtain ⟨hl, -, rfl⟩ := hp.join
    have hkeeps : type.keepsLeft = true := by rcases htype with rfl | rfl <;> rfl
    exact Operator.admits_joinSchema (.inl (ih hl)) (.inr ⟨hkeeps, rfl⟩)
  | @joinRight type _ _ _ _ _ _ htype _ ih =>
    obtain ⟨-, hr, rfl⟩ := hp.join
    have hkeeps : type.keepsRight = true := by rcases htype with rfl | rfl <;> rfl
    exact Operator.admits_joinSchema (.inr ⟨hkeeps, rfl⟩) (.inl (ih hr))
  | aggregate hset _ hkeys hresults ih =>
    exact Operator.admits_aggregateSchema hp.derived hset (.inr (ih hp.only)) hkeys hresults
  | @aggregateAll fields _ _ _ _ _ _ hset hresults =>
    exact Operator.admits_aggregateSchema hp.derived hset (.inl rfl) (keyValue_nil [] fields)
      hresults

/-- A column that is not nullable never holds `NULL`: if the rows that the leaves of a plan deliver
have it in nullable columns only, so have all rows that the plan may yield. -/
theorem admits_of_yields {p : Plan} {row : List Value} (hp : Obtained p)
    (hleaves : ∀ q, PartOf q p → ∀ r, q.op.Delivers tables r → q.schema.Admits r)
    (h : Yields tables p row) : p.schema.Admits row :=
  admits_of_supplied ⟨hp.built, hleaves⟩ h

/-! ## A rollup over a left join -/

/-- A scan of a table with one column, which is not nullable. -/
def singleColumn (table column : String) (type : DataType) : Plan :=
  let schema : Schema := ⟨[⟨column, type, false⟩]⟩
  ⟨.scan table schema, [], schema, .logical⟩

def customers : Plan := singleColumn "customers" "id" (.integer .bits32)

def purchases : Plan := singleColumn "purchases" "price" (.float .bits64)

/-- Every customer with every purchase, or with none. -/
def customerPurchases : Plan :=
  ⟨.join .left (.literal (.boolean true) .boolean), [customers, purchases],
    Operator.joinSchema .left customers.schema purchases.schema, .logical⟩

/-- How many purchases there are for each customer and in total. -/
def purchaseCounts : Plan :=
  ⟨.aggregate [0] (some [[0], []]) [.of .count [1]], [customerPurchases],
    ⟨[⟨"id", .integer .bits32, true⟩, ⟨"$f1", .integer .bits64, false⟩]⟩, .logical⟩

/-- One customer and no purchases: the total has no customer and counts no purchase. -/
theorem admits_purchaseCounts_of_yields :
    let tables : Tables := fun table _ row => table = "customers" ∧ row = [.integer 1]
    Obtained purchaseCounts ∧
      (∀ q, PartOf q purchaseCounts → ∀ r, q.op.Delivers tables r → q.schema.Admits r) ∧
      Yields tables customerPurchases [.integer 1, .null] ∧
      Yields tables purchaseCounts [.null, .bigInt 0] ∧
      purchaseCounts.schema.Admits [.null, .bigInt 0] := by
  intro tables
  have hscan (table column : String) (type : DataType) : Obtained (singleColumn table column type) :=
    .scan (show scan table _ _ = .ok (singleColumn table column type) from rfl)
  have hjoin : join customers purchases .left (.literal (.boolean true) .boolean) =
      .ok customerPurchases := rfl
  have hcounts : build (.aggregate [0] (some [[0], []]) [.of .count [1]]) [customerPurchases]
      .logical = .ok purchaseCounts := by rfl
  have hp : Obtained purchaseCounts :=
    .build (by simpa using .join (hscan _ _ _) (hscan _ _ _) hjoin) hcounts
  have hleaves : ∀ q, PartOf q purchaseCounts → ∀ r, q.op.Delivers tables r → q.schema.Admits r := by
    have hnodes : purchaseCounts.nodes =
        [customers, purchases, customerPurchases, purchaseCounts] := rfl
    intro q hq r hr
    rw [← mem_nodes_iff, hnodes] at hq
    simp only [List.mem_cons, List.not_mem_nil, or_false] at hq
    rcases hq with rfl | rfl | rfl | rfl
    · obtain ⟨-, rfl⟩ := hr
      exact .cons nofun .nil
    · exact absurd hr.1 (by decide)
    · cases hr
    · cases hr
  have hcustomer : Yields tables customers [.integer 1] := .leaf ⟨rfl, rfl⟩
  have hpadded : Yields tables customerPurchases [.integer 1, .null] :=
    .joinLeft (.inl rfl) hcustomer
  have htotal : Yields tables purchaseCounts [.null, .bigInt 0] := by
    have hset : [] ∈ [[0], []] := by simp
    have hcount : (AggregateCall.of .count [1]).Computes (.bigInt 0) := nofun
    exact .aggregate hset hpadded (keyValue_nil _ _) (.cons hcount .nil)
  exact ⟨hp, hleaves, hpadded, htotal, admits_of_yields hp hleaves htotal⟩

end Plan

end StorePlan
