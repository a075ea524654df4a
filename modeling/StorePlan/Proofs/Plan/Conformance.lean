import StorePlan.Proofs.Plan.Nullability
import StorePlan.Proofs.Value.Conformance

/-
Rows of a row type: one value for each column, each of the column's type, and
`NULL` only where the column is nullable.

What building a node checks is less than that. A `values` node takes rows that
have `NULL` in any column (`values_eq_ok_iff`), and a union takes over the
columns of its first input where those of the others have the same names of
types, which leaves open what the items of arrays are (`isRow_union_iff`).
-/

namespace StorePlan

/-- A value of the column's type, `NULL` only if the column may hold it. -/
structure Column.Holds (c : Column) (v : Value) : Prop where
  conforms : v.conformsTo c.type = true
  nullable : v.isNull = true → c.nullable = true

/-- A row of a row type. -/
def Schema.IsRow (s : Schema) (row : List Value) : Prop :=
  List.Forall₂ (fun v c => c.Holds v) row s.columns

/-- No row is of the row type: a column has no values but `NULL`, and may not hold that. -/
def Schema.IsVacant (s : Schema) : Prop :=
  ∃ c ∈ s.columns, c.type.isVacant = true ∧ c.nullable = false

/-! ## Rows of a row type -/

theorem Column.exists_holds_iff {c : Column} :
    (∃ v, c.Holds v) ↔ ¬(c.type.isVacant = true ∧ c.nullable = false) := by
  constructor
  · rintro ⟨v, hv⟩ ⟨hvacant, hnullable⟩
    have hnull := DataType.isNull_of_isVacant hvacant hv.conforms
    cases hnullable.symm.trans (hv.nullable hnull)
  · intro h
    cases hvacant : c.type.isVacant with
    | true =>
      have hnullable : c.nullable = true := by simpa [hvacant] using h
      exact ⟨.null, Value.conformsTo_null _, fun _ => hnullable⟩
    | false =>
      obtain ⟨v, hv, hnull⟩ := DataType.exists_of_not_isVacant hvacant
      exact ⟨v, hv, fun h => absurd h (by simp [hnull])⟩

namespace Schema

variable {s : Schema} {row : List Value} {cs ds : List Column}

theorem isRow_iff :
    s.IsRow row ↔
      List.Forall₂ (fun v c => v.conformsTo c.type = true) row s.columns ∧ s.Admits row := by
  constructor
  · exact fun h => ⟨h.imp fun _ _ => Column.Holds.conforms, h.imp fun _ _ => Column.Holds.nullable⟩
  · rintro ⟨hconforms, hadmits⟩
    exact hconforms.mp (fun _ _ => Column.Holds.mk) hadmits

theorem isRow_asNullable_iff :
    s.asNullable.IsRow row ↔
      List.Forall₂ (fun v c => v.conformsTo c.type = true) row s.columns := by
  rw [IsRow, asNullable, List.forall₂_map_right_iff]
  constructor
  · exact fun h => h.imp fun _ _ => Column.Holds.conforms
  · exact fun h => h.imp fun _ _ hv => ⟨hv, fun _ => rfl⟩

/-- What is missing, with `NULL` allowed everywhere, is where `NULL` is. -/
theorem isRow_iff_asNullable : s.IsRow row ↔ s.asNullable.IsRow row ∧ s.Admits row := by
  rw [isRow_asNullable_iff, isRow_iff]

theorem exists_isRow_iff : (∃ row, IsRow ⟨cs⟩ row) ↔ ¬IsVacant ⟨cs⟩ := by
  induction cs with
  | nil => exact iff_of_true ⟨[], .nil⟩ (by simp [IsVacant])
  | cons c rest ih =>
    have hvacant : IsVacant ⟨c :: rest⟩ ↔
        (c.type.isVacant = true ∧ c.nullable = false) ∨ IsVacant ⟨rest⟩ := by
      simp [IsVacant]
    rw [hvacant, not_or, ← Column.exists_holds_iff, ← ih]
    constructor
    · rintro ⟨row, h⟩
      cases h with
      | cons hv hrow => exact ⟨⟨_, hv⟩, ⟨_, hrow⟩⟩
    · rintro ⟨⟨v, hv⟩, ⟨row, hrow⟩⟩
      exact ⟨v :: row, .cons hv hrow⟩

/-- All rows of one row type have values of the types of other columns exactly if those types cover
the types of its own, or if there are no such rows. -/
theorem forall_conforms_iff :
    (∀ row, IsRow ⟨ds⟩ row → List.Forall₂ (fun v c => v.conformsTo c.type = true) row cs) ↔
      IsVacant ⟨ds⟩ ∨ List.Forall₂ (fun c d => c.type.covers d.type = true) cs ds := by
  constructor
  · intro h
    refine Classical.or_iff_not_imp_left.2 fun hvacant => ?_
    obtain ⟨row, hrow⟩ : ∃ row, List.Forall₂ (fun v c => Column.Holds c v) row ds :=
      exists_isRow_iff.2 hvacant
    clear hvacant
    -- The row at hand stands for the other columns while a value of one column is looked at.
    induction hrow generalizing cs with
    | nil =>
      cases h [] .nil
      exact .nil
    | @cons w d rest ds hw hrest ih =>
      cases h _ (.cons hw hrest) with
      | @cons _ c _ cs =>
        refine .cons (DataType.covers_iff.2 fun v hv => ?_) (ih fun row hrow => ?_)
        · cases hnull : v.isNull with
          | true =>
            rw [Value.isNull_iff.1 hnull]
            exact Value.conformsTo_null _
          | false =>
            have hheld : d.Holds v := ⟨hv, fun h => absurd h (by simp [hnull])⟩
            exact (List.forall₂_cons.1 (h _ (.cons hheld hrest))).1
        · exact (List.forall₂_cons.1 (h _ (.cons hw hrow))).2
  · rintro (hvacant | hcovers) row hrow
    · exact absurd hvacant (exists_isRow_iff.1 ⟨row, hrow⟩)
    · induction hcovers generalizing row with
      | nil =>
        cases hrow
        exact .nil
      | cons hcover _ ih =>
        cases hrow with
        | cons hv hrest =>
          exact .cons (DataType.conformsTo_of_covers hcover hv.conforms) (ih _ hrest)

end Schema

/-! ## Unions -/

namespace Operator

variable {position : Nat} {cs ds es : List Column} {schema first other : Schema}

theorem map_unionColumns (h : unionColumns position cs ds = .ok es)
    (hwidth : ds.length = cs.length) :
    es.map (·.type.name) = cs.map (·.type.name) ∧ ds.map (·.type.name) = cs.map (·.type.name) := by
  induction cs generalizing ds es with
  | nil =>
    obtain rfl := List.length_eq_zero_iff.1 hwidth
    cases h
    exact ⟨rfl, rfl⟩
  | cons c cs ih =>
    cases ds with
    | nil => cases hwidth
    | cons d ds =>
      obtain ⟨hname, rest, hrest, rfl⟩ := unionColumns_cons_eq_ok.1 h
      obtain ⟨hes, hds⟩ := ih hrest (Nat.succ.inj hwidth)
      simp [hname, hes, hds]

/-- The columns of a union have the names of types that those of every input have. -/
theorem map_unionSchema {others : List Schema} (h : unionSchema first position others = .ok schema)
    (hother : other ∈ first :: others) :
    schema.columns.map (·.type.name) = other.columns.map (·.type.name) := by
  induction others generalizing first position other with
  | nil =>
    cases h
    rw [List.mem_singleton.1 hother]
  | cons next rest ih =>
    obtain ⟨hwidth, columns, hcolumns, hrest⟩ := unionSchema_cons_eq_ok.1 h
    obtain ⟨hfirst, hnext⟩ := map_unionColumns hcolumns hwidth
    have hall := ih hrest List.mem_cons_self
    simp only [List.mem_cons] at hother
    rcases hother with rfl | rfl | hother
    · exact hall.trans hfirst
    · exact hall.trans (hfirst.trans hnext.symm)
    · exact ih hrest (List.mem_cons_of_mem _ hother)

end Operator

namespace Plan

variable {inputs : List Plan} {all : Bool} {convention : Convention} {p : Plan}

/-- All rows of an input are rows of a union exactly if the items of its arrays are of types that
those of the first input cover, unless the input has no rows at all. Of other columns it is enough
that the union can be built. -/
theorem isRow_union_iff (h : build (.union all) inputs convention = .ok p) :
    ∀ q ∈ inputs, (∀ row, q.schema.IsRow row → p.schema.IsRow row) ↔
      q.schema.IsVacant ∨
        List.Forall₂
          (fun c d => ∀ t u, c.type = .array t → d.type = .array u → t.covers u = true)
          p.schema.columns q.schema.columns := by
  intro q hq
  obtain ⟨hcount, -, schema, hschema, rfl⟩ := build_eq_ok.1 h
  cases inputs with
  | nil => cases hcount
  | cons first rest =>
    have hother : q.schema ∈ first.schema :: rest.map (·.schema) :=
      List.mem_map_of_mem (f := (·.schema)) hq
    have hnames : List.Forall₂ (fun c d => c.type.name = d.type.name) schema.columns
        q.schema.columns := by
      rw [← List.forall₂_map_right_iff (f := fun d : Column => d.type.name),
        ← List.forall₂_map_left_iff (f := fun c : Column => c.type.name), List.forall₂_eq_eq_eq]
      exact Operator.map_unionSchema hschema hother
    calc
      _ ↔ ∀ row, q.schema.IsRow row →
          List.Forall₂ (fun v c => v.conformsTo c.type = true) row schema.columns := by
        refine forall₂_congr fun row hrow => ?_
        rw [Schema.isRow_iff, and_iff_left]
        exact Operator.admits_unionSchema hschema hother (Schema.isRow_iff.1 hrow).2
      _ ↔ q.schema.IsVacant ∨
          List.Forall₂ (fun c d => c.type.covers d.type = true) schema.columns q.schema.columns :=
        Schema.forall_conforms_iff
      _ ↔ _ := by
        refine or_congr Iff.rfl ⟨fun hc => ?_, fun hc => ?_⟩
        · exact hnames.mp (fun c d hname => (DataType.covers_iff_of_name_eq hname).1) hc
        · exact hnames.mp (fun c d hname => (DataType.covers_iff_of_name_eq hname).2) hc

/-- Texts of varying length, in lists. -/
def labels : Plan :=
  let schema : Schema := ⟨[⟨"tags", .array (.string (some 20)), false⟩]⟩
  ⟨.values schema [[.array [.string "new", .null]]], [], schema, .logical⟩

/-- Texts of fixed length, in lists that may be missing. -/
def codes : Plan :=
  let schema : Schema := ⟨[⟨"tags", .array (.char (some 2)), true⟩]⟩
  ⟨.values schema [[.array [.string "A1"]], [.null]], [], schema, .logical⟩

/-- Numbers, in lists. -/
def sizes : Plan :=
  let schema : Schema := ⟨[⟨"tags", .array (.integer .bits32), false⟩]⟩
  ⟨.values schema [[.array [.integer 7]]], [], schema, .logical⟩

/-- Texts of either kind are texts of the union. -/
theorem isRow_union_labels_codes :
    let schema : Schema := ⟨[⟨"tags", .array (.string (some 20)), true⟩]⟩
    let p : Plan := ⟨.union true, [labels, codes], schema, .logical⟩
    build (.union true) [labels, codes] .logical = .ok p ∧
      codes.schema.IsRow [.array [.string "A1"]] ∧ p.schema.IsRow [.array [.string "A1"]] := by
  intro schema p
  have hp : build (.union true) [labels, codes] .logical = .ok p := rfl
  have hrow : codes.schema.IsRow [.array [.string "A1"]] := .cons ⟨rfl, nofun⟩ .nil
  have hitems : ∀ t u, DataType.array (.string (some 20)) = .array t →
      DataType.array (.char (some 2)) = .array u → t.covers u = true := by
    rintro _ _ ⟨⟩ ⟨⟩
    rfl
  exact ⟨hp, hrow, (isRow_union_iff hp codes (by simp)).2 (.inr (.cons hitems .nil)) _ hrow⟩

/-- Lists of texts stand where the union has lists of numbers. -/
theorem not_isRow_union_sizes_labels :
    let p : Plan := ⟨.union true, [sizes, labels], sizes.schema, .logical⟩
    build (.union true) [sizes, labels] .logical = .ok p ∧
      labels.schema.IsRow [.array [.string "new", .null]] ∧
        ¬p.schema.IsRow [.array [.string "new", .null]] := by
  refine ⟨rfl, .cons ⟨rfl, nofun⟩ .nil, fun h => ?_⟩
  cases h with
  | cons hv _ => cases hv.conforms

/-! ## Rows that are given -/

variable {schema : Schema} {rows : List (List Value)}

/-- A `values` node is built over the rows of the row type with `NULL` allowed everywhere. So its
rows are of its own row type exactly if, beyond that, they have `NULL` in nullable columns only. -/
theorem values_eq_ok_iff :
    (values schema rows convention = .ok p ↔
        (∀ row ∈ rows, schema.asNullable.IsRow row) ∧
          p = ⟨.values schema rows, [], schema, convention⟩) ∧
      ((∀ row ∈ rows, schema.IsRow row) ↔
        (∃ p, values schema rows convention = .ok p) ∧ ∀ row ∈ rows, schema.Admits row) := by
  have houtput {derived : Schema} :
      (Operator.values schema rows).outputSchema convention [] = .ok derived ↔
        (∀ row ∈ rows, schema.asNullable.IsRow row) ∧ schema = derived := by
    simp only [Operator.outputSchema, bind_eq_ok, Operator.checkRows_eq_ok, pure_eq_ok,
      exists_const, Schema.isRow_asNullable_iff]
  have hbuilt {p : Plan} : values schema rows convention = .ok p ↔
      (∀ row ∈ rows, schema.asNullable.IsRow row) ∧
        p = ⟨.values schema rows, [], schema, convention⟩ := by
    rw [values, build_eq_ok]
    constructor
    · rintro ⟨-, -, derived, hderived, rfl⟩
      obtain ⟨hrows, rfl⟩ := houtput.1 hderived
      exact ⟨hrows, rfl⟩
    · rintro ⟨hrows, rfl⟩
      exact ⟨rfl, by simp, schema, houtput.2 ⟨hrows, rfl⟩, rfl⟩
  refine ⟨hbuilt, ?_⟩
  simp only [hbuilt, exists_and_left, exists_eq, and_true]
  rw [← forall₂_and]
  exact forall₂_congr fun row _ => Schema.isRow_iff_asNullable

/-- A missing number in a column that is not nullable. -/
theorem not_isRow_values_missing :
    let schema : Schema := ⟨[⟨"a", .integer .bits32, false⟩]⟩
    let p : Plan := ⟨.values schema [[.null]], [], schema, .logical⟩
    values schema [[.null]] .logical = .ok p ∧ ¬p.schema.IsRow [.null] := by
  refine ⟨rfl, fun h => ?_⟩
  cases h with
  | cons hv _ => cases hv.nullable rfl

end Plan

end StorePlan
