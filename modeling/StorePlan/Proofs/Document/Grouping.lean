import StorePlan.Proofs.Document.Evaluation
import StorePlan.Proofs.Document.FieldNames

/-
The rows of an aggregate. Where the names of columns are plain, its stages
make one row for each tuple of values of the grouped fields, which holds the
tuple and the results of the calls under the names of the output columns.
-/

namespace StorePlan

namespace Document

/-- Names of columns that a store reads as names of fields and tells from the group key. -/
structure HasPlainNames (schema : Schema) : Prop where
  nodup : schema.names.Nodup
  plain : ∀ name ∈ schema.names, IsPlain name
  noKey : "_id" ∉ schema.names

/-- What a document holds in a column. -/
def columnValue (schema : Schema) (doc : Json) (i : Nat) : Option Json :=
  schema.names[i]?.bind doc.field?

namespace Engine

variable (E : Engine)

/-- Whether two documents have the same values in some columns. -/
def alike (schema : Schema) (fields : List Nat) (a b : Json) : Bool :=
  fields.all fun i => E.same (columnValue schema a i) (columnValue schema b i)

/-- What a function brings the values of its argument together to. -/
def fold : AggregateFunction → List (Option Json) → Option Json
  | .sum | .sumOrZero | .singleValue => E.sum
  | .min => E.min
  | .max => E.max
  | .avg => E.average
  | .count | .other .. => fun _ => none

/-- The result of a call over documents. -/
def result (input : Schema) (call : AggregateCall) (docs : List Json) : Option Json :=
  match call.function, call.arguments with
  | .count, [] => E.sum (docs.map fun _ => some (.integer 1))
  | .count, [i] => E.sum (docs.map fun doc =>
      some (.integer (if E.same (columnValue input doc i) (some .null) then 0 else 1)))
  | f, [i] => E.fold f (docs.map fun doc => columnValue input doc i)
  | _, _ => none

end Engine

/-- The row of a group, one of whose documents is `doc`: the grouped fields of the document, and the
results of the calls over all documents that are like it. -/
structure IsGroupRow (E : Engine) (input output : Schema) (fields : List Nat)
    (calls : List AggregateCall) (docs : List Json) (doc row : Json) : Prop where
  keys : ∀ i field, fields[i]? = some field → columnValue output row i = columnValue input doc field
  results : ∀ i call, calls[i]? = some call →
    columnValue output row (fields.length + i) =
      E.result input call (docs.filter (E.alike input fields doc))

/-- Rows for documents, one for each tuple of values of the grouped fields. -/
def AreGroupRows (E : Engine) (input output : Schema) (fields : List Nat)
    (calls : List AggregateCall) (docs rows : List Json) : Prop :=
  ∃ firsts, OneOfEach (fun a b => E.alike input fields a b = true) docs firsts ∧
    List.Forall₂ (IsGroupRow E input output fields calls docs) firsts rows

variable {settings : Settings} {input output : Schema} {E : Engine}

theorem alike_refl (hE : E.Lawful) {fields : List Nat} (a : Json) :
    E.alike input fields a a = true :=
  List.all_eq_true.2 fun _ _ => hE.equivalence.refl _

theorem alike_trans (hE : E.Lawful) {fields : List Nat} (a b c : Json)
    (hab : E.alike input fields a b = true) (hbc : E.alike input fields b c = true) :
    E.alike input fields a c = true :=
  List.all_eq_true.2 fun i hi =>
    hE.equivalence.trans (List.all_eq_true.1 hab i hi) (List.all_eq_true.1 hbc i hi)

theorem hasOwnNames_of_plain {fields : List Nat} {sets : Option (List (List Nat))}
    {calls : List AggregateCall} (h : HasPlainNames output) :
    HasOwnNames output (.aggregate fields sets calls) := by
  refine ⟨h.nodup, fun hmem => h.noKey ?_⟩
  split at hmem
  · exact List.mem_of_mem_tail hmem
  · exact hmem

/-! ## Paths -/

theorem splitOn_eq_singleton {path : List Char} (h : '.' ∉ path) : path.splitOn '.' = [path] :=
  List.splitOnP_eq_singleton fun c hc => by
    rw [beq_eq_false_iff_ne]
    rintro rfl
    exact h hc

@[simp] theorem evaluate_string (doc : Json) (s : String) :
    E.evaluate doc (.string s) = E.read doc s := rfl

/-- The path of a field leads to the field. -/
theorem read_path {name : String} (h : IsPlain name) (doc : Json) :
    E.read doc ("$" ++ name) = doc.field? name := by
  have htext : ("$" ++ name).toList = '$' :: name.toList := by simp
  rw [Engine.read, htext]
  split
  · rename_i heq
    exact absurd (by rw [(List.cons.inj heq).2]; rfl) h.noDollar
  · rename_i path _ heq
    obtain rfl : name.toList = path := (List.cons.inj heq).2
    simp [splitOn_eq_singleton h.noDot, Json.along?]
  · rename_i hnone
    exact absurd rfl (hnone name.toList)

/-- The path of a part of the group key leads to the part. -/
theorem read_keyPath {name : String} (h : '.' ∉ name.toList) (doc : Json) :
    E.read doc ("$_id." ++ name) = (doc.field? "_id").bind (·.field? name) := by
  have htext : ("$_id." ++ name).toList = '$' :: '_' :: 'i' :: 'd' :: '.' :: name.toList := by simp
  have hsplit : ('_' :: 'i' :: 'd' :: '.' :: name.toList).splitOn '.' =
      [['_', 'i', 'd'], name.toList] :=
    (List.splitOnP_append_cons (p := (· == '.')) ['_', 'i', 'd'] name.toList rfl).trans
      (congrArg _ (splitOn_eq_singleton h))
  have hkey : String.ofList ['_', 'i', 'd'] = "_id" := rfl
  rw [Engine.read, htext]
  simp [hsplit, hkey, Json.along?]

/-! ## Group keys -/

theorem columnValue_of_fieldName {schema : Schema} {i : Nat} {name : String}
    (h : fieldName schema i = .ok name) (doc : Json) :
    columnValue schema doc i = doc.field? name := by
  rw [columnValue, fieldName_eq_ok.1 h, Option.bind_some]

theorem evaluateFields_eq_map (doc : Json) (fields : List (String × Json)) :
    E.evaluateFields doc fields = fields.map fun field => (field.1, E.evaluate doc field.2) := by
  induction fields with
  | nil => rfl
  | cons field rest ih => rw [Engine.evaluateFields, ih, List.map_cons]

theorem evaluate_object {doc : Json} {fields : List (String × Json)} (h : 1 < fields.length) :
    E.evaluate doc (.object fields) =
      some (.compose (fields.map fun field => (field.1, E.evaluate doc field.2))) := by
  rw [← evaluateFields_eq_map]
  match fields, h with
  | (_, _) :: _ :: _, _ => rw [Engine.evaluate] <;> simp

/-- A document as the key has the fields that are grouped by. -/
theorem evaluate_parts {fields : List Nat} {parts : List (String × Json)}
    (hplain : ∀ name ∈ input.names, IsPlain name)
    (hparts : List.Forall₂ (IsKeyPart input) fields parts) (hmany : 1 < fields.length)
    (doc : Json) :
    E.evaluate doc (.object parts) =
      some (.compose ((parts.map (·.1)).map fun name => (name, doc.field? name))) := by
  rw [evaluate_object (hparts.length_eq ▸ hmany), List.map_map]
  refine congrArg (some ∘ Json.compose) (List.map_congr_left fun part hpart => ?_)
  obtain ⟨i, -, hname, hpath⟩ := exists_of_mem_of_forall₂ hparts hpart
  rw [hpath, evaluate_string, read_path (hplain _ (mem_names_of_fieldName hname))]
  rfl

/-- Documents have the same key if they have the same values in the grouped fields. -/
theorem same_key_iff {fields : List Nat} {key : Json} (hE : E.Lawful)
    (hplain : ∀ name ∈ input.names, IsPlain name)
    (hdistinct : ((fields.filterMap input.column?).map (·.name)).Nodup)
    (hkey : IsGroupKey input fields key) (a b : Json) :
    E.same (E.evaluate a key) (E.evaluate b key) = E.alike input fields a b := by
  match fields, hkey with
  | [], hkey =>
    subst hkey
    simpa [Engine.evaluate, Engine.alike] using hE.equivalence.refl (some .null)
  | [i], ⟨name, hname, hkey⟩ =>
    have hname' := hplain name (mem_names_of_fieldName hname)
    simp [hkey, Engine.alike, read_path hname', columnValue_of_fieldName hname]
  | i :: j :: rest, ⟨parts, hkey, hparts⟩ =>
    rw [hkey, evaluate_parts hplain hparts (by simp), evaluate_parts hplain hparts (by simp),
      Bool.eq_iff_iff, hE.compose _ _ _ (map_fst_of_isKeyPart hparts ▸ hdistinct), Engine.alike,
      List.all_eq_true, List.forall_mem_map]
    constructor
    · intro h k hk
      obtain ⟨part, hpart, hname, -⟩ := exists_of_mem_of_forall₂ hparts.flip hk
      rw [columnValue_of_fieldName hname, columnValue_of_fieldName hname]
      exact h part hpart
    · intro h part hpart
      obtain ⟨k, hk, hname, -⟩ := exists_of_mem_of_forall₂ hparts hpart
      rw [← columnValue_of_fieldName hname, ← columnValue_of_fieldName hname]
      exact h k hk

/-! ## Accumulators -/

theorem evaluate_operator {name : String} (hoperator : name.toList.head? = some '$')
    (hliteral : name ≠ "$literal") (doc : Json) (operands : List Json) :
    E.evaluate doc (.field name (.array operands)) = E.apply name (E.evaluateAll doc operands) := by
  simp [Json.field, Engine.evaluate, hoperator]

theorem evaluate_oneUnlessNull {name : String} (h : IsPlain name) (doc : Json) :
    E.evaluate doc (oneUnlessNull name) =
      some (.integer (if E.same (doc.field? name) (some .null) then 0 else 1)) := by
  rw [oneUnlessNull, evaluate_operator (by decide) (by decide), Engine.evaluateAll,
    evaluate_operator (by decide) (by decide)]
  simp only [Engine.evaluateAll, read_path h, Engine.evaluate, Engine.apply]
  split <;> rfl

/-- The accumulator of a call has the result of the call. -/
theorem accumulate_accumulator {call : AggregateCall} {j : Json}
    (hplain : ∀ name ∈ input.names, IsPlain name)
    (h : accumulator settings input call = .ok j) (docs : List Json) :
    E.accumulate docs j = E.result input call docs := by
  cases isAccumulator_of_accumulator h with
  | ones hcount hnone =>
    simp [Engine.result, hcount, hnone, Json.field, Engine.accumulate, Engine.evaluate]
  | @unlessNull i name hcount hi hname =>
    have hone := evaluate_oneUnlessNull (E := E) (hplain name (mem_names_of_fieldName hname))
    simp [Engine.result, hcount, hi, Json.field, Engine.accumulate, hone,
      columnValue_of_fieldName hname]
  | @values operator i name hoperator hi hname =>
    have hpath := read_path (E := E) (hplain name (mem_names_of_fieldName hname))
    unfold accumulatorName? at hoperator
    split at hoperator <;> cases hoperator <;>
      simp [Engine.result, Engine.fold, *, Json.field, Engine.accumulate,
        columnValue_of_fieldName hname]

/-! ## Stages -/

section Stages

variable {fields : List Nat} {calls : List AggregateCall} {key : Json}
  {results : List (String × Json)} {docs : List Json} {doc : Json}

theorem map_fst_groupFields (docs : List Json) (doc : Json) :
    (E.groupFields key results docs doc).map (·.1) = "_id" :: results.map (·.1) := by
  rw [Engine.groupFields, List.map_cons, List.map_map]
  rfl

/-- A group has its key in `_id`. -/
theorem field?_group_key (hnames : ("_id" :: results.map (·.1)).Nodup) :
    (E.group key results docs doc).field? "_id" = E.evaluate doc key := by
  refine Json.field?_compose ?_ List.mem_cons_self
  rwa [map_fst_groupFields]

/-- A group has the value of each accumulator under its name. -/
theorem field?_group_of_mem (hnames : ("_id" :: results.map (·.1)).Nodup) {result : String × Json}
    (h : result ∈ results) :
    (E.group key results docs doc).field? result.1 =
      E.accumulate (E.groupOf key docs doc) result.2 := by
  refine Json.field?_compose ?_ (List.mem_cons_of_mem _ (List.mem_map.2 ⟨result, h, rfl⟩))
  rwa [map_fst_groupFields]

theorem nodup_results (houtput : HasPlainNames output)
    (hcolumns : results.map (·.1) = output.names.drop fields.length) :
    ("_id" :: results.map (·.1)).Nodup := by
  rw [hcolumns, List.nodup_cons]
  exact ⟨fun hmem => houtput.noKey (List.mem_of_mem_drop hmem), houtput.nodup.drop⟩

/-- The value of an output column in the document of a group. -/
theorem columnValue_group (houtput : HasPlainNames output)
    (hcolumns : results.map (·.1) = output.names.drop fields.length)
    (hplain : ∀ name ∈ input.names, IsPlain name)
    (hcalls : List.Forall₂ (fun call entry => accumulator settings input call = .ok entry.2) calls
      results) {i : Nat} {call : AggregateCall} (h : calls[i]? = some call) :
    columnValue output (E.group key results docs doc) (fields.length + i) =
      E.result input call (E.groupOf key docs doc) := by
  obtain ⟨result, hresult, hcall⟩ := exists_getElem?_of_forall₂ hcalls.flip h
  have hname : output.names[fields.length + i]? = some result.1 := by
    rw [← List.getElem?_drop, ← hcolumns, List.getElem?_map, hresult, Option.map_some]
  rw [columnValue, hname, Option.bind_some,
    field?_group_of_mem (nodup_results houtput hcolumns) (List.mem_of_getElem? hresult),
    accumulate_accumulator hplain hcall]

theorem mem_liftEntries {keys : Nat} {names : List String} {entry : String × Json}
    (h : entry ∈ columnEntries keys names) : entry ∈ liftEntries keys names := by
  rw [liftEntries]
  split
  · exact h
  · exact List.mem_cons_of_mem _ h

/-- The key has a name in the projected document, kept or suppressed. -/
theorem map_fst_projectFields (keys : Nat) {names : List String} (h : "_id" ∉ names) :
    (E.projectFields (liftEntries keys names) doc).map (·.1) = "_id" :: names := by
  rw [Engine.projectFields, List.map_append, List.map_map, liftEntries]
  by_cases hone : keys = 1
  · rw [if_pos hone, map_fst_columnEntries, if_neg h]
    exact congrArg (List.cons "_id") (map_fst_columnEntries keys names)
  · rw [if_neg hone, List.map_cons, if_pos List.mem_cons_self]
    exact congrArg (List.cons "_id") (map_fst_columnEntries keys names)

/-- The value of an output column behind the stage that turns the key back into fields. -/
theorem columnValue_lift (hnames : HasPlainNames output) (keys : Nat) {i : Nat} {name : String}
    (h : output.names[i]? = some name) :
    columnValue output (E.project (liftEntries keys output.names) doc) i =
      E.read doc (if i < keys then if keys = 1 then "$_id" else "$_id." ++ name
        else "$" ++ name) := by
  have hcolumn : (name, Json.string (if i < keys then if keys = 1 then "$_id" else "$_id." ++ name
      else "$" ++ name)) ∈ columnEntries keys output.names :=
    List.mem_map.2 ⟨(name, i), List.mem_zipIdx_iff_getElem?.2 h, rfl⟩
  rw [columnValue, h, Option.bind_some]
  refine Json.field?_compose ?_
    (List.mem_append_right _ (List.mem_map.2 ⟨_, mem_liftEntries hcolumn, rfl⟩))
  rw [map_fst_projectFields keys hnames.noKey, List.nodup_cons]
  exact ⟨hnames.noKey, hnames.nodup⟩

/-- The path of a key's column leads from the document of a group to the grouped field. -/
theorem read_keyColumn (hinput : HasPlainNames input) (houtput : HasPlainNames output)
    (hkey : IsGroupKey input fields key)
    (hcolumns : output.names.take fields.length = (fields.filterMap input.column?).map (·.name))
    {row : Json} (hrow : row.field? "_id" = E.evaluate doc key) {i field : Nat} {name : String}
    (hfield : fields[i]? = some field) (hname : output.names[i]? = some name) :
    E.read row (if fields.length = 1 then "$_id" else "$_id." ++ name) =
      columnValue input doc field := by
  match fields, hkey with
  | [], _ => simp at hfield
  | [only], ⟨given, hgiven, hpath⟩ =>
    obtain rfl : only = field := by
      rw [List.getElem?_singleton] at hfield
      split at hfield
      · exact Option.some.inj hfield
      · cases hfield
    have hplain := hinput.plain given (mem_names_of_fieldName hgiven)
    rw [hpath, evaluate_string, read_path hplain] at hrow
    rw [List.length_singleton, if_pos rfl, columnValue_of_fieldName hgiven, ← hrow]
    exact read_path (show IsPlain "_id" by decide) row
  | f :: g :: rest, ⟨parts, hobject, hparts⟩ =>
    obtain ⟨part, hpart, hgiven, -⟩ := exists_getElem?_of_forall₂ hparts.flip hfield
    rw [← map_fst_of_isKeyPart hparts] at hcolumns
    obtain rfl : part.1 = name := by
      have hlt : i < (f :: g :: rest).length := (List.getElem?_eq_some_iff.1 hfield).1
      rw [← List.getElem?_take_of_lt hlt, hcolumns, List.getElem?_map, hpart] at hname
      exact Option.some.inj hname
    have hdistinct : (parts.map (·.1)).Nodup :=
      hcolumns ▸ (List.take_sublist _ _).nodup houtput.nodup
    have hplain := houtput.plain _ (List.mem_of_getElem? hname)
    rw [if_neg (by simp), read_keyPath hplain.noDot, hrow, hobject,
      evaluate_parts hinput.plain hparts (by simp), Option.bind_some,
      columnValue_of_fieldName hgiven]
    exact Json.field?_compose_map hdistinct (List.mem_map_of_mem (List.mem_of_getElem? hpart)) _

/-- Without grouped fields, the document of a group is the row. -/
theorem isGroupRow_group (houtput : HasPlainNames output)
    (hplain : ∀ name ∈ input.names, IsPlain name)
    (hcolumns : results.map (·.1) = output.names.drop ([] : List Nat).length)
    (hcalls : List.Forall₂ (fun call entry => accumulator settings input call = .ok entry.2) calls
      results)
    (halike : E.groupOf key docs doc = docs.filter (E.alike input [] doc)) :
    IsGroupRow E input output [] calls docs doc (E.group key results docs doc) where
  keys i field h := by simp at h
  results i call h := by rw [columnValue_group houtput hcolumns hplain hcalls h, halike]

/-- With grouped fields, the row is what is made of the document of a group. -/
theorem isGroupRow_lift (hinput : HasPlainNames input) (houtput : HasPlainNames output)
    (hwidth : output.names.length = fields.length + calls.length)
    (hkey : IsGroupKey input fields key)
    (hkeys : output.names.take fields.length = (fields.filterMap input.column?).map (·.name))
    (hcolumns : results.map (·.1) = output.names.drop fields.length)
    (hcalls : List.Forall₂ (fun call entry => accumulator settings input call = .ok entry.2) calls
      results)
    (halike : E.groupOf key docs doc = docs.filter (E.alike input fields doc)) :
    IsGroupRow E input output fields calls docs doc
      (E.project (liftEntries fields.length output.names) (E.group key results docs doc)) where
  keys i field h := by
    have hlt : i < fields.length := (List.getElem?_eq_some_iff.1 h).1
    have hname := List.getElem?_eq_getElem (l := output.names) (i := i) (by omega)
    rw [columnValue_lift houtput _ hname, if_pos hlt]
    exact read_keyColumn hinput houtput hkey hkeys
      (field?_group_key (nodup_results houtput hcolumns)) h hname
  results i call h := by
    have hlt : i < calls.length := (List.getElem?_eq_some_iff.1 h).1
    have hname := List.getElem?_eq_getElem (l := output.names) (i := fields.length + i) (by omega)
    have hplain := houtput.plain _ (List.mem_of_getElem? hname)
    rw [columnValue_lift houtput _ hname, if_neg (by omega), read_path hplain, ← halike,
      ← columnValue_group houtput hcolumns hinput.plain hcalls h, columnValue, hname,
      Option.bind_some]

end Stages

/-! ## Rows of an aggregate -/

section Rows

variable {fields : List Nat} {sets : Option (List (List Nat))} {calls : List AggregateCall}
  {stages : List Json} {convention : Convention}

/-- Complete stages make a row from one document of each group, in whatever order. -/
theorem exists_row_of_complete (hE : E.Lawful) (hinput : HasPlainNames input)
    (houtput : HasPlainNames output)
    (hderived : (Operator.aggregate fields sets calls).outputSchema convention [input] = .ok output)
    (hcomplete : Complete settings output input (.aggregate fields sets calls) stages)
    (docs : List Json) :
    ∃ row : Json → Json,
      (∀ rows, E.Runs stages docs rows ↔
        ∃ firsts, OneOfEach (fun a b => E.alike input fields a b = true) docs firsts ∧
          firsts.map row = rows) ∧
      ∀ doc, IsGroupRow E input output fields calls docs doc (row doc) := by
  obtain ⟨key, results, rfl, hkey, hcolumns, hcalls⟩ := hcomplete
  have hkeys := Operator.take_names_aggregate hderived
  have hsame := same_key_iff hE hinput.plain
    (hkeys ▸ (List.take_sublist _ _).nodup houtput.nodup) hkey
  have halike (doc : Json) : E.groupOf key docs doc = docs.filter (E.alike input fields doc) :=
    List.filter_congr fun other _ => hsame doc other
  simp only [Engine.runs_group_iff, hsame]
  by_cases hfields : fields = []
  · subst hfields
    refine ⟨E.group key results docs, fun rows => ?_, fun doc => ?_⟩
    · simp only [if_pos, Engine.runs_nil_iff]
    · exact isGroupRow_group houtput hinput.plain hcolumns hcalls (halike doc)
  · have hwidth : output.names.length = fields.length + calls.length := by
      rw [Schema.names, List.length_map]
      exact Operator.width_aggregate hderived
    refine ⟨fun doc => E.project (liftEntries fields.length output.names)
      (E.group key results docs doc), fun rows => ?_, fun doc => ?_⟩
    · simp only [if_neg hfields, Engine.runs_project_iff, Engine.runs_nil_iff, List.map_map,
        Function.comp_def]
    · exact isGroupRow_lift hinput houtput hwidth hkey hkeys hcolumns hcalls (halike doc)

/-- Complete stages make rows of all documents, and these are the rows of the groups. -/
theorem areGroupRows_of_complete (hE : E.Lawful) (hinput : HasPlainNames input)
    (houtput : HasPlainNames output)
    (hderived : (Operator.aggregate fields sets calls).outputSchema convention [input] = .ok output)
    (hcomplete : Complete settings output input (.aggregate fields sets calls) stages)
    (docs : List Json) :
    (∃ rows, E.Runs stages docs rows) ∧
      ∀ rows, E.Runs stages docs rows → AreGroupRows E input output fields calls docs rows := by
  obtain ⟨row, hruns, hrow⟩ := exists_row_of_complete hE hinput houtput hderived hcomplete docs
  constructor
  · obtain ⟨firsts, hfirsts⟩ : ∃ firsts,
        OneOfEach (fun a b => E.alike input fields a b = true) docs firsts :=
      exists_oneOfEach (alike_refl hE) (alike_trans hE) docs
    exact ⟨_, (hruns _).2 ⟨firsts, hfirsts, rfl⟩⟩
  · intro rows h
    obtain ⟨firsts, hfirsts, rfl⟩ := (hruns rows).1 h
    refine ⟨firsts, hfirsts, ?_⟩
    rw [List.forall₂_map_right_iff, List.forall₂_same]
    exact fun doc _ => hrow doc

theorem map_stageName?_of_complete
    (hcomplete : Complete settings output input (.aggregate fields sets calls) stages) :
    stages.map stageName? =
      if fields = [] then [some "$group"] else [some "$group", some "$project"] := by
  obtain ⟨key, results, rfl, -⟩ := hcomplete
  split <;> rfl

end Rows

/-- The stages of an aggregate over plain names make of any documents one row for each tuple of
values of the grouped fields. -/
theorem exists_stages_areGroupRows {p q below : Plan} {out : Pipeline} {fields : List Nat}
    {sets : Option (List (List Nat))} {calls : List AggregateCall} (hp : p.Obtained)
    (h : pipeline settings p = .ok out) (hq : Plan.PartOf q p) (hinputs : q.inputs = [below])
    (hop : q.op = .aggregate fields sets calls) (hbelow : HasPlainNames below.schema)
    (hnames : HasPlainNames q.schema) :
    ∃ before stages after, out.stages = before ++ stages ++ after ∧
      operatorStages settings q.op q.schema below.schema = .ok stages ∧
      stages.map stageName? =
        (if fields = [] then [some "$group"] else [some "$group", some "$project"]) ∧
      fields.Pairwise (· < ·) ∧ Complete settings q.schema below.schema q.op stages ∧
      ∀ E : Engine, E.Lawful → ∀ docs, (∃ rows, E.Runs stages docs rows) ∧
        ∀ rows, E.Runs stages docs rows →
          AreGroupRows E below.schema q.schema fields calls docs rows := by
  have hconsistent := (hp.built.consistent hq).1
  have hderived := hconsistent.derived
  have hfits := hconsistent.fits
  obtain ⟨before, stages, after, hall, hstages⟩ :=
    exists_stages_of_partOf hp.built (chain_of_pipeline h) hq hinputs
  rw [hinputs] at hderived hfits
  rw [hop] at hderived hfits hstages ⊢
  obtain ⟨_, -, hfits⟩ := hfits
  have hcomplete := (complete_iff hderived hstages).2 (hasOwnNames_of_plain hnames)
  exact ⟨before, stages, after, hall, hstages, map_stageName?_of_complete hcomplete,
    hfits.fieldsAscend, hcomplete,
    fun E hE docs => areGroupRows_of_complete hE hbelow hnames hderived hcomplete docs⟩

/-! ## Sales by region and year -/

def integers (values : List (Option Json)) : List Int :=
  values.filterMap fun value => value.bind fun
    | .integer i => some i
    | _ => none

/-- Finds equal values the same, and adds up and compares integers. -/
noncomputable def plainEngine : Engine where
  same x y := @decide (x = y) (Classical.propDecidable _)
  sum values := some (.integer ((integers values).foldl (· + ·) 0))
  min values := (integers values).min?.map .integer
  max values := (integers values).max?.map .integer
  average _ := none
  operator _ _ := none
  system _ := none

theorem lawful_plainEngine : plainEngine.Lawful where
  equivalence := by
    simp only [plainEngine, decide_eq_true_eq]
    exact eq_equivalence
  compose names f g hnames := by
    simp only [plainEngine, decide_eq_true_eq]
    refine ⟨fun h n hn => ?_, fun h => ?_⟩
    · rw [← Json.field?_compose_map hnames hn f, ← Json.field?_compose_map hnames hn g,
        Option.some.inj h]
    · exact congrArg (some ∘ Json.compose) (List.map_congr_left fun n hn => by rw [h n hn])

/-- Two sales of one region and year, and one without an amount. -/
def storedSales : List Json :=
  [.object [("region", .string "north"), ("year", .integer 2024), ("amount", .integer 2)],
    .object [("region", .string "south"), ("year", .integer 2024)],
    .object [("region", .string "north"), ("year", .integer 2024), ("amount", .integer 3)]]

theorem exists_rows_yearlySales :
    ∃ out, yearlySales.Obtained ∧ pipeline {} yearlySales = .ok out ∧
      yearlySales.inputs = [sales] ∧ HasPlainNames sales.schema ∧
      HasPlainNames yearlySales.schema ∧ plainEngine.Lawful ∧
      ∃ before stages after rows, out.stages = before ++ stages ++ after ∧
        plainEngine.Runs stages storedSales rows ∧
        AreGroupRows plainEngine sales.schema yearlySales.schema [0, 1]
          [⟨.count, [], false, some "n"⟩, ⟨.sum, [2], false, some "total"⟩] storedSales rows := by
  have hsales : HasPlainNames sales.schema := ⟨by decide, by decide, by decide⟩
  have hyearly : HasPlainNames yearlySales.schema := ⟨by decide, by decide, by decide⟩
  obtain ⟨out, hout⟩ : ∃ out, pipeline {} yearlySales = .ok out := ⟨_, rfl⟩
  obtain ⟨before, stages, after, hall, -, -, -, -, hrows⟩ :=
    exists_stages_areGroupRows obtained_yearlySales hout (.self _) rfl rfl hsales hyearly
  obtain ⟨⟨rows, hruns⟩, hgroups⟩ := hrows plainEngine lawful_plainEngine storedSales
  exact ⟨out, obtained_yearlySales, hout, rfl, hsales, hyearly, lawful_plainEngine, before, stages,
    after, rows, hall, hruns, hgroups rows hruns⟩

end Document

end StorePlan
