import StorePlan.Proofs.Document.Match
import StorePlan.Proofs.Document.StageFields
import StorePlan.Proofs.Predicate.Attributes

/-
The names that stages use for fields. A document store takes a name with a
leading dollar sign for an operator or, behind the dollar sign of a path, for
a variable, and a dot for a step into a document.

Names come from scans, projections and calls and pass unchanged through any
chain of operators. A call without a name gets a generated one, which has a
dollar sign in front. So the stages of a plan over names of fields are
well-named exactly if every call has a name (`wellNamed_stages_iff`).
-/

namespace StorePlan

namespace Document

/-! ## Names and paths of fields -/

/-- A name that a store can take for no operator, path or variable. -/
structure IsPlain (name : String) : Prop where
  noDot : '.' ∉ name.toList
  noDollar : name.toList.head? ≠ some '$'

instance (name : String) : Decidable (IsPlain name) :=
  decidable_of_iff ('.' ∉ name.toList ∧ name.toList.head? ≠ some '$')
    ⟨fun h => ⟨h.1, h.2⟩, fun h => ⟨h.1, h.2⟩⟩

structure IsFieldName (name : String) : Prop extends IsPlain name where
  nonempty : name ≠ ""

instance (name : String) : Decidable (IsFieldName name) :=
  decidable_of_iff (IsPlain name ∧ name ≠ "") ⟨fun h => ⟨h.1, h.2⟩, fun h => ⟨h.1, h.2⟩⟩

/-- The path of a field of a document or of its group key. -/
def IsFieldPath (path : String) : Prop :=
  ∃ name, IsFieldName name ∧ (path = "$" ++ name ∨ path = "$_id." ++ name)

/-! ## Reading stages -/

mutual

/-- The fields that a filter document has conditions on. -/
def filterKeys : Json → List String
  | .object fields => conditionKeys fields
  | _ => []
termination_by structural j => j

def conditionKeys : List (String × Json) → List String
  | [] => []
  | (name, .array items) :: rest =>
    (if name = "$and" ∨ name = "$or" then allFilterKeys items else [name]) ++ conditionKeys rest
  | (name, _) :: rest => name :: conditionKeys rest
termination_by structural fields => fields

def allFilterKeys : List Json → List String
  | [] => []
  | j :: rest => filterKeys j ++ allFilterKeys rest
termination_by structural js => js

end

/-- The names of the parts of a group key. An accumulator in its place has none. -/
def partKeys : Json → List String
  | .object fields =>
    (fields.map (·.1)).filter fun name => name ∉ ["$sum", "$min", "$max", "$avg"]
  | _ => []

/-- The keys of a stage that stand for fields. -/
def fieldKeys : Json → List String
  | .object [("$match", body)] => filterKeys body
  | .object [("$project", .object fields)] | .object [("$sort", .object fields)] =>
    fields.map (·.1)
  | .object [("$group", .object fields)] =>
    fields.flatMap fun field => field.1 :: if field.1 = "_id" then partKeys field.2 else []
  | _ => []

mutual

/-- The strings of an expression but for literals, each of which is a path. -/
def paths : Json → List String
  | .string s => [s]
  | .array items => allPaths items
  | .object fields => operandPaths fields
  | _ => []
termination_by structural j => j

def allPaths : List Json → List String
  | [] => []
  | j :: rest => paths j ++ allPaths rest
termination_by structural js => js

def operandPaths : List (String × Json) → List String
  | [] => []
  | (name, j) :: rest => (if name = "$literal" then [] else paths j) ++ operandPaths rest
termination_by structural fields => fields

end

/-- The paths in the expressions of a stage. -/
def fieldPaths : Json → List String
  | .object [("$project", body)] | .object [("$group", body)] => paths body
  | _ => []

/-- A stage that names fields by names and paths of fields only. -/
structure WellNamed (stage : Json) : Prop where
  keys : ∀ name ∈ fieldKeys stage, IsFieldName name
  paths : ∀ path ∈ fieldPaths stage, IsFieldPath path

end Document

/-- The names that an operator is given for its columns. -/
def Operator.givenNames : Operator → List String
  | .scan _ schema | .values schema _ => schema.names
  | .project exprs => exprs.map (·.1)
  | .aggregate _ _ calls => calls.filterMap (·.name)
  | _ => []

def Operator.calls : Operator → List AggregateCall
  | .aggregate _ _ calls => calls
  | _ => []

namespace Document

variable {settings : Settings} {input output : Schema} {op : Operator} {stages : List Json}

theorem not_isPlain_generatedName (position : Nat) :
    ¬IsPlain (Operator.generatedName position) := by
  intro h
  apply h.noDollar
  simp [Operator.generatedName]

theorem isFieldPath_of_name {name : String} (h : IsFieldName name) : IsFieldPath ("$" ++ name) :=
  ⟨name, h, .inl rfl⟩

/-! ## Names of columns -/

theorem name_mem_names {schema : Schema} {i : Nat} {c : Column} (h : schema.column? i = some c) :
    c.name ∈ schema.names :=
  List.mem_map_of_mem (List.mem_of_getElem? h)

theorem mem_names_of_fieldName {schema : Schema} {i : Nat} {name : String}
    (h : fieldName schema i = .ok name) : name ∈ schema.names :=
  List.mem_of_getElem? (fieldName_eq_ok.1 h)

/-- The columns of calls have the names given, or generated ones. -/
theorem exists_call_of_mem_callColumns {calls : List AggregateCall} {position : Nat}
    {c : Column} (h : c ∈ Operator.callColumns input position calls) :
    ∃ call ∈ calls, ∃ i, c.name = call.name.getD (Operator.generatedName i) := by
  induction calls generalizing position with
  | nil => simp [Operator.callColumns] at h
  | cons call rest ih =>
    rw [Operator.callColumns, List.mem_cons] at h
    rcases h with rfl | h
    · exact ⟨call, List.mem_cons_self, position, rfl⟩
    · obtain ⟨other, hother, i, hname⟩ := ih h
      exact ⟨other, List.mem_cons_of_mem _ hother, i, hname⟩

theorem exists_column_of_mem_calls (input : Schema) {calls : List AggregateCall} (position : Nat)
    {call : AggregateCall} (h : call ∈ calls) :
    ∃ i, call.name.getD (Operator.generatedName i) ∈
      (Operator.callColumns input position calls).map (·.name) := by
  induction calls generalizing position with
  | nil => simp at h
  | cons other rest ih =>
    rw [Operator.callColumns]
    rcases List.mem_cons.1 h with rfl | h
    · exact ⟨position, List.mem_cons_self⟩
    · obtain ⟨i, hi⟩ := ih (position + 1) h
      exact ⟨i, List.mem_cons_of_mem _ hi⟩

/-- A link passes on names of fields, if it is given such names and its calls have names. -/
theorem isFieldName_of_outputSchema {convention : Convention} (hlink : isLink op.kind = true)
    (h : op.outputSchema convention [input] = .ok output)
    (hinput : ∀ name ∈ input.names, IsFieldName name)
    (hgiven : ∀ name ∈ op.givenNames, IsFieldName name)
    (hcalls : ∀ call ∈ op.calls, call.name ≠ none) : ∀ name ∈ output.names, IsFieldName name := by
  cases op with
  | filter => exact Operator.eq_of_outputSchema (.inl rfl) h ▸ hinput
  | sort => exact Operator.eq_of_outputSchema (.inr rfl) h ▸ hinput
  | project exprs => exact Operator.names_project h ▸ hgiven
  | aggregate fields sets calls =>
    intro name hname
    rw [Operator.names_aggregate h, List.mem_append, List.mem_map, List.mem_map] at hname
    rcases hname with ⟨c, hc, rfl⟩ | ⟨c, hc, rfl⟩
    · obtain ⟨i, -, hi⟩ := List.mem_filterMap.1 hc
      exact hinput _ (name_mem_names hi)
    · obtain ⟨call, hcall, i, hname⟩ := exists_call_of_mem_callColumns hc
      obtain ⟨given, hgiven'⟩ := Option.ne_none_iff_exists'.1 (hcalls call hcall)
      rw [hname, hgiven', Option.getD_some]
      exact hgiven given (List.mem_filterMap.2 ⟨call, hcall, hgiven'⟩)
  | _ => simp [isLink, Operator.kind] at hlink

/-! ## Keys of filter documents -/

/-- A filter document has conditions on the attributes of the leaves. -/
theorem filterKeys_filter {p : Predicate} {j : Json} (h : filter p = .ok j) :
    filterKeys j = p.atoms.map (·.attributeName) := by
  induction p generalizing j with
  | atomic a =>
    simp only [filter, atomFilter, bind_eq_ok, pure_eq_ok] at h
    obtain ⟨ws, -, c, hc, rfl⟩ := h
    -- A condition is no list, so the attribute cannot be read as a connective.
    obtain ⟨fields, rfl⟩ := exists_fields_of_condition hc
    simp [Json.field, filterKeys, conditionKeys, Predicate.atoms]
  | compound c l r ihl ihr =>
    simp only [filter, bind_eq_ok, pure_eq_ok] at h
    obtain ⟨left, hleft, right, hright, rfl⟩ := h
    rw [Predicate.atoms, List.map_append, ← ihl hleft, ← ihr hright]
    cases c <;>
      simp [Json.field, connectiveField, filterKeys, conditionKeys, allFilterKeys]

theorem wellNamed_match {condition : RowExpr} {p : Predicate} {j : Json}
    (hinput : ∀ name ∈ input.names, IsFieldName name)
    (hp : Predicate.ofCondition input condition = .ok p) (h : filter p = .ok j) :
    WellNamed (.field "$match" j) := by
  refine ⟨fun name hname => ?_, by simp [fieldPaths, Json.field]⟩
  have hname : name ∈ filterKeys j := by simpa [fieldKeys, Json.field] using hname
  rw [filterKeys_filter h] at hname
  obtain ⟨a, ha, rfl⟩ := List.mem_map.1 hname
  obtain ⟨c, hc, hattribute, -⟩ := Predicate.exists_column_of_mem_atoms hp ha
  exact hattribute ▸ hinput _ (List.mem_map_of_mem hc)

/-! ## Paths of expressions -/

/-- All paths of an expression are paths of fields. -/
def HasFieldPaths (j : Json) : Prop := ∀ path ∈ paths j, IsFieldPath path

theorem hasFieldPaths_string {name : String} (h : IsFieldName name) :
    HasFieldPaths (.string ("$" ++ name)) := by
  simpa [HasFieldPaths, paths] using isFieldPath_of_name h

theorem hasFieldPaths_array {items : List Json} (h : ∀ j ∈ items, HasFieldPaths j) :
    HasFieldPaths (.array items) := by
  intro path hpath
  rw [paths] at hpath
  induction items with
  | nil => simp [allPaths] at hpath
  | cons j rest ih =>
    rw [List.forall_mem_cons] at h
    rw [allPaths, List.mem_append] at hpath
    exact hpath.elim (h.1 path) (ih h.2)

theorem hasFieldPaths_object {fields : List (String × Json)}
    (h : ∀ field ∈ fields, HasFieldPaths field.2) : HasFieldPaths (.object fields) := by
  intro path hpath
  rw [paths] at hpath
  induction fields with
  | nil => simp [operandPaths] at hpath
  | cons field rest ih =>
    rw [List.forall_mem_cons] at h
    rw [operandPaths, List.mem_append] at hpath
    refine hpath.elim (fun hpath => h.1 path ?_) (ih h.2)
    split at hpath
    · simp at hpath
    · exact hpath

theorem hasFieldPaths_field {name : String} {j : Json} (h : HasFieldPaths j) :
    HasFieldPaths (.field name j) :=
  hasFieldPaths_object (by simpa using h)

theorem hasFieldPaths_ofFields {fields : List (String × Json)}
    (h : ∀ field ∈ fields, HasFieldPaths field.2) : HasFieldPaths (.ofFields fields) := by
  obtain ⟨kept, hkept, hmem, -⟩ := Json.exists_fields_of_ofFields fields
  rw [hkept]
  exact hasFieldPaths_object fun field hfield => h field (hmem field hfield)

theorem hasFieldPaths_of_fieldPath {i : Nat} {path : String}
    (hinput : ∀ name ∈ input.names, IsFieldName name) (h : fieldPath input i = .ok path) :
    HasFieldPaths (.string path) := by
  simp only [fieldPath, bind_eq_ok, pure_eq_ok] at h
  obtain ⟨name, hname, rfl⟩ := h
  exact hasFieldPaths_string (hinput name (mem_names_of_fieldName hname))

theorem hasFieldPaths_callExpression {whole : RowExpr} {op : RowOp} {operands : List Json}
    {j : Json} (h : callExpression whole op operands = .ok j)
    (hoperands : ∀ j ∈ operands, HasFieldPaths j) :
    HasFieldPaths j := by
  unfold callExpression at h
  split at h
  case h_1 operand | h_2 operand =>
    obtain rfl := Except.ok.inj h
    refine hasFieldPaths_field (hasFieldPaths_array ?_)
    simpa [HasFieldPaths, paths] using hoperands
  case h_3 =>
    split at h
    · obtain rfl := Except.ok.inj h
      exact hasFieldPaths_field (hasFieldPaths_array hoperands)
    · cases h

mutual

theorem hasFieldPaths_expression (hinput : ∀ name ∈ input.names, IsFieldName name) :
    ∀ {e : RowExpr} {j : Json}, expression input e = .ok j → HasFieldPaths j
  | .field i t, j, h => by
    simp only [expression, bind_eq_ok, pure_eq_ok] at h
    obtain ⟨path, hpath, rfl⟩ := h
    exact hasFieldPaths_of_fieldPath hinput hpath
  | .literal v t, j, h => by
    simp only [expression, bind_eq_ok, pure_eq_ok] at h
    obtain ⟨k, -, rfl⟩ := h
    simp [HasFieldPaths, Json.field, paths, operandPaths]
  | .call op es t, j, h => by
    simp only [expression, bind_eq_ok] at h
    obtain ⟨operands, hoperands, h⟩ := h
    exact hasFieldPaths_callExpression h (hasFieldPaths_expressions hinput hoperands)

theorem hasFieldPaths_expressions (hinput : ∀ name ∈ input.names, IsFieldName name) :
    ∀ {es : List RowExpr} {js : List Json}, expressions input es = .ok js →
      ∀ j ∈ js, HasFieldPaths j
  | [], js, h => by
    obtain rfl := Except.ok.inj h
    simp
  | e :: rest, js, h => by
    simp only [expressions, bind_eq_ok, pure_eq_ok] at h
    obtain ⟨j, hj, js, hjs, rfl⟩ := h
    rw [List.forall_mem_cons]
    exact ⟨hasFieldPaths_expression hinput hj, hasFieldPaths_expressions hinput hjs⟩

end

/-! ## Accumulators -/

/-- The operator that brings the values of an argument together. A count counts them instead. -/
def accumulatorName? : AggregateFunction → Option String
  | .sum | .sumOrZero | .singleValue => some "$sum"
  | .min => some "$min"
  | .max => some "$max"
  | .avg => some "$avg"
  | .count | .other .. => none

/-- One for every value of a field but `NULL`, which counts zero. -/
def oneUnlessNull (name : String) : Json :=
  .field "$cond" (.array
    [.field "$eq" (.array [.string ("$" ++ name), .null]), .integer 0, .integer 1])

theorem argumentPath_eq_ok {call : AggregateCall} {path : String}
    (h : argumentPath input call = .ok path) :
    ∃ i name, call.arguments = [i] ∧ fieldName input i = .ok name ∧ path = "$" ++ name := by
  unfold argumentPath at h
  split at h
  · rename_i i hi
    simp only [fieldPath, bind_eq_ok, pure_eq_ok] at h
    obtain ⟨name, hname, rfl⟩ := h
    exact ⟨i, name, hi, hname, rfl⟩
  · cases h

/-- The forms of accumulators: they add up ones, for all documents or for the values of one field,
or bring the values of one field together. -/
inductive IsAccumulator (input : Schema) (call : AggregateCall) : Json → Prop where
  | ones : call.function = .count → call.arguments = [] →
    IsAccumulator input call (.field "$sum" (.integer 1))
  | unlessNull {i : Nat} {name : String} : call.function = .count → call.arguments = [i] →
    fieldName input i = .ok name → IsAccumulator input call (.field "$sum" (oneUnlessNull name))
  | values {operator : String} {i : Nat} {name : String} :
    accumulatorName? call.function = some operator → call.arguments = [i] →
    fieldName input i = .ok name →
      IsAccumulator input call (.field operator (.string ("$" ++ name)))

theorem isAccumulator_of_pathAccumulator {call : AggregateCall} {operator : String} {j : Json}
    (hoperator : accumulatorName? call.function = some operator)
    (h : pathAccumulator operator input call = .ok j) : IsAccumulator input call j := by
  simp only [pathAccumulator, bind_eq_ok, pure_eq_ok] at h
  obtain ⟨_, hargument, rfl⟩ := h
  obtain ⟨i, name, hi, hname, rfl⟩ := argumentPath_eq_ok hargument
  exact .values hoperator hi hname

theorem isAccumulator_of_accumulator {call : AggregateCall} {j : Json}
    (h : accumulator settings input call = .ok j) : IsAccumulator input call j := by
  unfold accumulator at h
  split at h
  case h_1 hcount =>
    split at h
    · rename_i hnone
      obtain rfl := Except.ok.inj h
      exact .ones hcount hnone
    · simp only [bind_eq_ok, pure_eq_ok] at h
      obtain ⟨_, hargument, rfl⟩ := h
      obtain ⟨i, name, hi, hname, rfl⟩ := argumentPath_eq_ok hargument
      exact .unlessNull hcount hi hname
  case h_7 hsingle =>
    split at h
    · exact isAccumulator_of_pathAccumulator (by rw [hsingle]; rfl) h
    · cases h
  case h_8 => cases h
  all_goals
    rename_i hfunction
    exact isAccumulator_of_pathAccumulator (by rw [hfunction]; rfl) h

theorem hasFieldPaths_accumulator {call : AggregateCall} {j : Json}
    (hinput : ∀ name ∈ input.names, IsFieldName name)
    (h : accumulator settings input call = .ok j) : HasFieldPaths j := by
  have hpath {i : Nat} {name : String} (hname : fieldName input i = .ok name) :
      HasFieldPaths (.string ("$" ++ name)) :=
    hasFieldPaths_string (hinput name (mem_names_of_fieldName hname))
  have hscalar (n : Int) : HasFieldPaths (.integer n) := by simp [HasFieldPaths, paths]
  cases isAccumulator_of_accumulator h with
  | ones => exact hasFieldPaths_field (hscalar 1)
  | unlessNull _ _ hname =>
    refine hasFieldPaths_field (hasFieldPaths_field (hasFieldPaths_array ?_))
    simp only [List.forall_mem_cons]
    refine ⟨hasFieldPaths_field (hasFieldPaths_array ?_), hscalar 0, hscalar 1, by simp⟩
    simp only [List.forall_mem_cons]
    exact ⟨hpath hname, by simp [HasFieldPaths, paths], by simp⟩
  | values _ _ hname => exact hasFieldPaths_field (hpath hname)

/-- A call that is named like the group key puts no part into its place. -/
theorem partKeys_accumulator {call : AggregateCall} {j : Json}
    (h : accumulator settings input call = .ok j) : partKeys j = [] := by
  cases isAccumulator_of_accumulator h with
  | ones | unlessNull => simp [partKeys, Json.field]
  | values hoperator =>
    unfold accumulatorName? at hoperator
    split at hoperator <;> cases hoperator <;> simp [partKeys, Json.field]

/-! ## Stages -/

theorem wellNamed_project {entries : List (String × Json)}
    (hnames : ∀ entry ∈ entries, IsFieldName entry.1)
    (hpaths : ∀ entry ∈ entries, HasFieldPaths entry.2) :
    WellNamed (.field "$project" (.ofFields entries)) := by
  obtain ⟨kept, hkept, hmem, -⟩ := Json.exists_fields_of_ofFields entries
  refine ⟨fun name hname => ?_, fun path hpath => ?_⟩
  · have hname : name ∈ kept.map (·.1) := by simpa [fieldKeys, Json.field, hkept] using hname
    obtain ⟨entry, hentry, rfl⟩ := List.mem_map.1 hname
    exact hnames entry (hmem entry hentry)
  · exact hasFieldPaths_ofFields hpaths path (by simpa [fieldPaths, Json.field] using hpath)

theorem wellNamed_projection {exprs : List (String × RowExpr)} {j : Json}
    (hinput : ∀ name ∈ input.names, IsFieldName name)
    (hgiven : ∀ item ∈ exprs, IsFieldName item.1) (h : projection exprs input = .ok j) :
    WellNamed (.field "$project" j) := by
  simp only [projection, bind_eq_ok, pure_eq_ok] at h
  obtain ⟨entries, hentries, rfl⟩ := h
  have hall := forall₂_projectionEntries hentries
  refine wellNamed_project (fun entry hentry => ?_) fun entry hentry => ?_
  · obtain ⟨item, hitem, hname, -⟩ := exists_of_mem_of_forall₂ hall hentry
    exact hname ▸ hgiven item hitem
  · obtain ⟨item, -, -, hj⟩ := exists_of_mem_of_forall₂ hall hentry
    unfold projectionEntry at hj
    split at hj
    · obtain ⟨name, -, hj⟩ := bind_eq_ok.1 hj
      split at hj
      · rw [← pure_eq_ok.1 hj]
        simp [HasFieldPaths, paths]
      · exact hasFieldPaths_expression hinput hj
    · exact hasFieldPaths_expression hinput hj

/-- The parts of a group key are named like the fields grouped by. -/
theorem isFieldName_of_mem_partKeys {fields : List Nat} {key : Json}
    (hinput : ∀ name ∈ input.names, IsFieldName name) (h : groupKey input fields = .ok key) :
    HasFieldPaths key ∧ ∀ name ∈ partKeys key, IsFieldName name := by
  match fields, h with
  | [], h =>
    obtain rfl := Except.ok.inj h
    simp [HasFieldPaths, paths, partKeys]
  | [i], h =>
    simp only [groupKey, bind_eq_ok, pure_eq_ok] at h
    obtain ⟨path, hpath, rfl⟩ := h
    exact ⟨hasFieldPaths_of_fieldPath hinput hpath, by simp [partKeys]⟩
  | i :: j :: rest, h =>
    simp only [groupKey, bind_eq_ok, pure_eq_ok] at h
    obtain ⟨parts, hparts, rfl⟩ := h
    have hall : ∀ part ∈ parts, IsFieldName part.1 ∧ part.2 = .string ("$" ++ part.1) := by
      intro part hpart
      obtain ⟨k, -, hname, hpath⟩ := exists_of_mem_of_forall₂ (forall₂_keyParts hparts) hpart
      exact ⟨hinput _ (mem_names_of_fieldName hname), hpath⟩
    refine ⟨hasFieldPaths_ofFields fun part hpart => ?_, fun name hname => ?_⟩
    · obtain ⟨hname, hpath⟩ := hall part hpart
      exact hpath ▸ hasFieldPaths_string hname
    · obtain ⟨kept, hkept, hmem, -⟩ := Json.exists_fields_of_ofFields parts
      rw [hkept] at hname
      obtain ⟨part, hpart, rfl⟩ := List.mem_map.1 (List.mem_filter.1 hname).1
      exact (hall part (hmem part hpart)).1

theorem wellNamed_group {fields : List Nat} {key : Json} {results : List (String × Json)}
    {calls : List AggregateCall} (hinput : ∀ name ∈ input.names, IsFieldName name)
    (hkey : groupKey input fields = .ok key)
    (hnames : ∀ result ∈ results, IsFieldName result.1)
    (hcalls : List.Forall₂ (fun call entry => accumulator settings input call = .ok entry.2) calls
      results) :
    WellNamed (.field "$group" (.ofFields (("_id", key) :: results))) := by
  obtain ⟨hpaths, hparts⟩ := isFieldName_of_mem_partKeys hinput hkey
  obtain ⟨kept, hkept, hmem, -⟩ := Json.exists_fields_of_ofFields (("_id", key) :: results)
  refine ⟨fun name hname => ?_, fun path hpath => ?_⟩
  · have hname : name ∈ fieldKeys (.object [("$group", .object kept)]) := by
      simpa [Json.field, hkept] using hname
    obtain ⟨field, hfield, hname⟩ := List.mem_flatMap.1 hname
    rcases List.mem_cons.1 (hmem field hfield) with rfl | hresult
    · rcases List.mem_cons.1 hname with rfl | hname
      · exact show IsFieldName "_id" by decide
      · exact hparts name hname
    · obtain ⟨call, -, hcall⟩ := exists_of_mem_of_forall₂ hcalls hresult
      rw [partKeys_accumulator hcall, ite_self, List.mem_singleton] at hname
      exact hname ▸ hnames field hresult
  · refine hasFieldPaths_ofFields (fun field hfield => ?_) path
      (by simpa [fieldPaths, Json.field] using hpath)
    rcases List.mem_cons.1 hfield with rfl | hresult
    · exact hpaths
    · obtain ⟨call, -, hcall⟩ := exists_of_mem_of_forall₂ hcalls hresult
      exact hasFieldPaths_accumulator hinput hcall

theorem wellNamed_lift (keys : Nat) {names : List String} (h : ∀ name ∈ names, IsFieldName name) :
    WellNamed (.field "$project" (.ofFields (liftEntries keys names))) := by
  have hcolumns : ∀ entry ∈ columnEntries keys names,
      IsFieldName entry.1 ∧ HasFieldPaths entry.2 := by
    intro entry hentry
    obtain ⟨⟨name, position⟩, hname, rfl⟩ := List.mem_map.1 hentry
    have hname := h name (List.fst_mem_of_mem_zipIdx hname)
    refine ⟨hname, ?_⟩
    dsimp only
    split
    · split
      · exact hasFieldPaths_string (show IsFieldName "_id" by decide)
      · simpa [HasFieldPaths, paths] using ⟨name, hname, .inr rfl⟩
    · exact hasFieldPaths_string hname
  have hall : ∀ entry ∈ liftEntries keys names,
      IsFieldName entry.1 ∧ HasFieldPaths entry.2 := by
    rw [liftEntries]
    split
    · exact hcolumns
    · rw [List.forall_mem_cons]
      exact ⟨⟨by decide, by simp [HasFieldPaths, paths]⟩, hcolumns⟩
  exact wellNamed_project (fun entry hentry => (hall entry hentry).1)
    fun entry hentry => (hall entry hentry).2

theorem wellNamed_limit {name : String} {n : Nat} (h : name = "$skip" ∨ name = "$limit") :
    WellNamed (.field name (.nat n)) := by
  rcases h with rfl | rfl <;>
    exact ⟨by simp [fieldKeys, Json.field], by simp [fieldPaths, Json.field]⟩

theorem isLink_of_operatorStages (h : operatorStages settings op output input = .ok stages) :
    isLink op.kind = true := by
  cases op <;> simp_all [operatorStages, isLink, Operator.kind]

theorem mem_names_of_sortEntries {schema : Schema} {keys : List Collation}
    {entries : List (String × Json)} (h : sortEntries schema keys = .ok entries) :
    ∀ entry ∈ entries, entry.1 ∈ schema.names := by
  induction keys generalizing entries with
  | nil =>
    obtain rfl := Except.ok.inj h
    simp
  | cons key rest ih =>
    simp only [sortEntries, bind_eq_ok, pure_eq_ok] at h
    obtain ⟨name, hname, entries, hentries, rfl⟩ := h
    rw [List.forall_mem_cons]
    exact ⟨mem_names_of_fieldName hname, ih hentries⟩

theorem wellNamed_sortStages {schema : Schema} {keys : List Collation}
    {offset fetch : Option UInt64} (hschema : ∀ name ∈ schema.names, IsFieldName name)
    (h : sortStages schema keys offset fetch = .ok stages) : ∀ stage ∈ stages, WellNamed stage := by
  simp only [sortStages, bind_eq_ok, pure_eq_ok] at h
  obtain ⟨entries, hentries, rfl⟩ := h
  rw [List.forall_mem_append, List.forall_mem_append]
  refine ⟨⟨?_, ?_⟩, ?_⟩
  · split
    · simp
    · obtain ⟨kept, hkept, hmem, -⟩ := Json.exists_fields_of_ofFields entries
      rw [List.forall_mem_singleton]
      refine ⟨fun name hname => ?_, by simp [fieldPaths, Json.field]⟩
      have hname : name ∈ kept.map (·.1) := by simpa [fieldKeys, Json.field, hkept] using hname
      obtain ⟨entry, hentry, rfl⟩ := List.mem_map.1 hname
      exact hschema _ (mem_names_of_sortEntries hentries entry (hmem entry hentry))
  · cases offset <;> simp [wellNamed_limit]
  · cases fetch <;> simp [wellNamed_limit]

/-- Over names of fields, the stages of an operator are well-named if its columns are. -/
theorem wellNamed_operatorStages {convention : Convention}
    (houtput : op.outputSchema convention [input] = .ok output)
    (h : operatorStages settings op output input = .ok stages)
    (hinput : ∀ name ∈ input.names, IsFieldName name)
    (hnames : ∀ name ∈ output.names, IsFieldName name) : ∀ stage ∈ stages, WellNamed stage := by
  cases op with
  | filter condition =>
    simp only [operatorStages, bind_eq_ok, pure_eq_ok, mapError_eq_ok] at h
    obtain ⟨p, hp, j, hj, rfl⟩ := h
    rw [List.forall_mem_singleton]
    exact wellNamed_match hinput hp hj
  | project exprs =>
    simp only [operatorStages, bind_eq_ok, pure_eq_ok] at h
    obtain ⟨j, hj, rfl⟩ := h
    rw [List.forall_mem_singleton]
    refine wellNamed_projection hinput (fun item hitem => hnames _ ?_) hj
    rw [Operator.names_project houtput]
    exact List.mem_map_of_mem hitem
  | aggregate fields sets calls =>
    obtain ⟨key, results, hkey, hcolumns, hcalls, rfl⟩ := exists_of_aggregateStages houtput h
    rw [List.forall_mem_cons]
    refine ⟨wellNamed_group hinput hkey (fun result hresult => hnames _ ?_) hcalls, ?_⟩
    · exact List.mem_of_mem_drop (hcolumns ▸ List.mem_map_of_mem hresult)
    · split
      · simp
      · simpa using wellNamed_lift fields.length hnames
  | sort keys offset fetch => exact wellNamed_sortStages hnames h
  | _ => simp [operatorStages] at h

/-- A call whose stages are well-named has a name. -/
theorem name_ne_none_of_wellNamed {fields : List Nat} {sets : Option (List (List Nat))}
    {calls : List AggregateCall} {convention : Convention}
    (houtput : (Operator.aggregate fields sets calls).outputSchema convention [input] = .ok output)
    (h : operatorStages settings (.aggregate fields sets calls) output input = .ok stages)
    (hstages : ∀ stage ∈ stages, WellNamed stage) : ∀ call ∈ calls, call.name ≠ none := by
  intro call hcall hnone
  obtain ⟨key, results, -, hcolumns, -, rfl⟩ := exists_of_aggregateStages houtput h
  obtain ⟨i, hi⟩ := exists_column_of_mem_calls input fields.length hcall
  rw [hnone, Option.getD_none, ← Operator.drop_names_aggregate houtput, ← hcolumns] at hi
  obtain ⟨kept, hkept, -, hkeys⟩ := Json.exists_fields_of_ofFields (("_id", key) :: results)
  have hkey : Operator.generatedName i ∈ kept.map (·.1) := (hkeys _).2 (List.mem_cons_of_mem _ hi)
  refine not_isPlain_generatedName i (((hstages _ List.mem_cons_self).keys _ ?_).toIsPlain)
  obtain ⟨field, hfield, hname⟩ := List.mem_map.1 hkey
  rw [hkept, ← hname]
  exact List.mem_flatMap.2 ⟨field, hfield, List.mem_cons_self⟩

/-! ## Plans -/

/-- If all names given are names of fields and each call has one, then so are the names of the
columns, and all stages are well-named. -/
theorem wellNamed_chain {p : Plan} {out : Pipeline} (hp : p.Built) (h : chain settings p = .ok out)
    (hgiven : ∀ q, Plan.PartOf q p → ∀ name ∈ q.op.givenNames, IsFieldName name)
    (hcalls : ∀ q, Plan.PartOf q p → ∀ call ∈ q.op.calls, call.name ≠ none) :
    (∀ name ∈ p.schema.names, IsFieldName name) ∧ ∀ stage ∈ out.stages, WellNamed stage := by
  induction hp generalizing out with
  | @build op inputs convention p hinputs hbuild ih =>
    have hp := Plan.Consistent.of_build hbuild
    rcases chain_eq_ok hp h with
      ⟨-, ⟨table, hscan⟩, hnone⟩ | ⟨input, beneath, stages, hinput, hbeneath, hstages, hall⟩
    · have hnames := hgiven p (.self p)
      rw [hscan] at hnames
      exact ⟨hnames, by simp [hnone]⟩
    · have hpart {q : Plan} (hq : Plan.PartOf q input) : Plan.PartOf q p :=
        .input (by simp [hinput]) hq
      have hmem : input ∈ inputs := by
        obtain ⟨-, -, _, -, rfl⟩ := Plan.build_eq_ok.1 hbuild
        simp [show inputs = [input] from hinput]
      obtain ⟨hnames, hbelow⟩ := ih input hmem hbeneath (fun q hq => hgiven q (hpart hq))
        fun q hq => hcalls q (hpart hq)
      have hderived := hp.derived
      rw [hinput] at hderived
      have houtput := isFieldName_of_outputSchema (isLink_of_operatorStages hstages) hderived hnames
        (hgiven p (.self p)) (hcalls p (.self p))
      refine ⟨houtput, ?_⟩
      rw [hall, List.forall_mem_append]
      exact ⟨hbelow, wellNamed_operatorStages hderived hstages hnames houtput⟩

/-- The stages of a plan over names of fields are well-named exactly if every call has a name. -/
theorem wellNamed_stages_iff {p : Plan} {out : Pipeline} (hp : p.Obtained)
    (h : pipeline settings p = .ok out)
    (hgiven : ∀ q, Plan.PartOf q p → ∀ name ∈ q.op.givenNames, IsFieldName name) :
    (∀ stage ∈ out.stages, WellNamed stage) ↔
      ∀ q, Plan.PartOf q p → ∀ call ∈ q.op.calls, call.name ≠ none := by
  refine ⟨fun hstages q hq => ?_, fun hcalls =>
    (wellNamed_chain hp.built (chain_of_pipeline h) hgiven hcalls).2⟩
  obtain ⟨op, inputs, schema, convention⟩ := q
  cases op with
  | aggregate fields sets calls =>
    have hq' := (hp.built.consistent hq).1
    obtain ⟨below, rfl⟩ := hq'.exists_input rfl
    obtain ⟨before, stages, after, hall, hthose⟩ :=
      exists_stages_of_partOf hp.built (chain_of_pipeline h) hq rfl
    refine name_ne_none_of_wellNamed hq'.derived hthose fun stage hstage => hstages stage ?_
    simp [hall, hstage]
  | _ => simp [Operator.calls]

theorem wellNamed_yearlySales :
    ∃ out, yearlySales.Obtained ∧ pipeline {} yearlySales = .ok out ∧
      (∀ q, Plan.PartOf q yearlySales → ∀ name ∈ q.op.givenNames, IsFieldName name) ∧
      ∀ stage ∈ out.stages, WellNamed stage := by
  obtain ⟨out, hout⟩ : ∃ out, pipeline {} yearlySales = .ok out := ⟨_, rfl⟩
  have hgiven : ∀ q ∈ yearlySales.nodes, ∀ name ∈ q.op.givenNames, IsFieldName name := by decide
  have hcalls : ∀ q ∈ yearlySales.nodes, ∀ call ∈ q.op.calls, call.name ≠ none := by decide
  simp only [Plan.mem_nodes_iff] at hgiven hcalls
  exact ⟨out, obtained_yearlySales, hout, hgiven,
    (wellNamed_stages_iff obtained_yearlySales hout hgiven).2 hcalls⟩

/-- Number of the sales of a region, without a name. -/
def countsUnnamed : Plan :=
  ⟨.aggregate [0] none [⟨.count, [], false, none⟩], [sales],
    ⟨[⟨"region", .string none, true⟩, ⟨"$f1", .integer .bits64, false⟩]⟩, .document⟩

/-- The count is under the name of an operator, and its path is that of a variable. -/
theorem not_wellNamed_countsUnnamed :
    ∃ out, countsUnnamed.Obtained ∧ pipeline {} countsUnnamed = .ok out ∧
      (∀ q, Plan.PartOf q countsUnnamed → ∀ name ∈ q.op.givenNames, IsFieldName name) ∧
      out.stages =
        [.field "$group"
            (.object [("_id", .string "$region"), ("$f1", .field "$sum" (.integer 1))]),
          .field "$project" (.object [("region", .string "$_id"), ("$f1", .string "$$f1")])] ∧
      ∀ stage ∈ out.stages, ¬WellNamed stage := by
  have haggregate : Plan.aggregate sales [0] [⟨.count, [], false, none⟩] = .ok countsUnnamed := rfl
  have hgiven : ∀ q ∈ countsUnnamed.nodes, ∀ name ∈ q.op.givenNames, IsFieldName name := by decide
  simp only [Plan.mem_nodes_iff] at hgiven
  have hname : ¬IsFieldName "$f1" := by decide
  refine ⟨_, .aggregate obtained_sales haggregate, rfl, hgiven, rfl,
    List.forall_mem_cons.2 ⟨fun h => hname (h.keys "$f1" ?_),
      List.forall_mem_singleton.2 fun h => hname (h.keys "$f1" ?_)⟩⟩
  · exact List.mem_cons_of_mem _ List.mem_cons_self
  · exact List.mem_cons_of_mem _ List.mem_cons_self

end Document

end StorePlan
