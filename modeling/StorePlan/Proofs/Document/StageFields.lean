import Mathlib.Data.List.Nodup
import StorePlan.Proofs.Emission.Document

/-
The fields of `$project` and `$group` stages. Inserting a field replaces an
earlier one of the same name, so the stages of an operator have an entry of
its own for each expression, call, grouped field and output column
(`Complete`) exactly if the names of these differ from each other and, beside
the group key, from `_id` (`HasOwnNames`).
-/

namespace StorePlan

namespace Json

/-! ## Objects of fields that are inserted -/

theorem nodup_insertField {name : String} {value : Json} {fields : List (String × Json)}
    (h : (fields.map (·.1)).Nodup) : ((insertField name value fields).map (·.1)).Nodup := by
  by_cases hmem : name ∈ fields.map (·.1)
  · rw [map_fst_insertField_of_mem hmem]
    exact h
  · rw [insertField_of_not_mem hmem, List.map_append, List.map_cons, List.map_nil]
    refine List.nodup_append.2 ⟨h, List.nodup_singleton _, fun n hn m hm hnm => ?_⟩
    obtain rfl : m = name := List.mem_singleton.1 hm
    exact hmem (hnm ▸ hn)

theorem mem_map_fst_insertField {n name : String} {value : Json} {fields : List (String × Json)} :
    n ∈ (insertField name value fields).map (·.1) ↔ n ∈ fields.map (·.1) ∨ n = name := by
  by_cases hmem : name ∈ fields.map (·.1)
  · rw [map_fst_insertField_of_mem hmem, iff_self_or]
    rintro rfl
    exact hmem
  · rw [insertField_of_not_mem hmem, List.map_append, List.mem_append, List.map_cons, List.map_nil,
      List.mem_singleton]

theorem mem_insertField {name : String} {value : Json} {field : String × Json}
    {fields : List (String × Json)} (h : field ∈ insertField name value fields) :
    field ∈ fields ∨ field = (name, value) := by
  induction fields with
  | nil => exact .inr (List.mem_singleton.1 h)
  | cons other rest ih =>
    rw [insertField] at h
    split at h
    · rename_i hsame
      rw [List.mem_cons, hsame] at h
      exact h.symm.imp (List.mem_cons_of_mem _) id
    · rcases List.mem_cons.1 h with rfl | h
      · exact .inl List.mem_cons_self
      · exact (ih h).imp_left (List.mem_cons_of_mem _)

/-- The fields are among those that were inserted, and all names are there. -/
theorem exists_fields_of_ofFields (given : List (String × Json)) :
    ∃ fields, ofFields given = .object fields ∧ (∀ field ∈ fields, field ∈ given) ∧
      ∀ n, n ∈ fields.map (·.1) ↔ n ∈ given.map (·.1) := by
  suffices hfold : ∀ more done : List (String × Json),
      let all := more.foldl (fun done f => insertField f.1 f.2 done) done
      (∀ field ∈ all, field ∈ done ++ more) ∧
        ∀ n, n ∈ all.map (·.1) ↔ n ∈ (done ++ more).map (·.1) from ⟨_, rfl, hfold given []⟩
  intro more
  induction more with
  | nil => simp
  | cons field rest ih =>
    intro done
    obtain ⟨hmem, hnames⟩ := ih (insertField field.1 field.2 done)
    refine ⟨fun other hother => ?_, fun n => ?_⟩
    · rcases List.mem_append.1 (hmem other hother) with hother | hother
      · rcases mem_insertField hother with hother | rfl <;> simp_all
      · simp [hother]
    · rw [List.foldl_cons, hnames, List.map_append, List.mem_append, mem_map_fst_insertField,
        List.map_append, List.map_cons, List.mem_append, List.mem_cons, or_assoc]

/-- However often a name is inserted, there is one field of it. -/
theorem nodup_of_ofFields_eq {given fields : List (String × Json)}
    (h : ofFields given = .object fields) : (fields.map (·.1)).Nodup := by
  have hfold (more done : List (String × Json)) (hdone : (done.map (·.1)).Nodup) :
      ((more.foldl (fun done f => insertField f.1 f.2 done) done).map (·.1)).Nodup := by
    induction more generalizing done with
    | nil => exact hdone
    | cons field rest ih => exact ih _ (nodup_insertField hdone)
  obtain rfl := Json.object.inj h
  exact hfold given [] List.nodup_nil

/-- Fields of different names all stay as they are. -/
theorem ofFields_eq_object {fields : List (String × Json)} (h : (fields.map (·.1)).Nodup) :
    ofFields fields = .object fields := by
  have hfold (more done : List (String × Json)) (hall : ((done ++ more).map (·.1)).Nodup) :
      more.foldl (fun done f => insertField f.1 f.2 done) done = done ++ more := by
    induction more generalizing done with
    | nil => rw [List.foldl_nil, List.append_nil]
    | cons field rest ih =>
      have hnew : field.1 ∉ done.map (·.1) := by
        rw [List.map_append, List.nodup_append] at hall
        exact fun hmem => hall.2.2 _ hmem _ (by simp) rfl
      rw [List.foldl_cons, insertField_of_not_mem hnew, ih, List.append_assoc]
      · rfl
      · rwa [List.append_assoc]
  rw [ofFields, hfold fields [] h, List.nil_append]

end Json

namespace Document

variable {settings : Settings} {input output : Schema}

/-! ## Complete stages -/

/-- The entry of a named expression. -/
def IsEntry (input : Schema) (item : String × RowExpr) (entry : String × Json) : Prop :=
  entry.1 = item.1 ∧ projectionEntry input item.1 item.2 = .ok entry.2

/-- The part of a group key that a field has. -/
def IsKeyPart (input : Schema) (i : Nat) (part : String × Json) : Prop :=
  fieldName input i = .ok part.1 ∧ part.2 = .string ("$" ++ part.1)

/-- A key for these grouped fields: `null` for none, the path of a single one, and for several a
document with a part for each. -/
def IsGroupKey (input : Schema) : List Nat → Json → Prop
  | [], key => key = .null
  | [i], key => ∃ name, fieldName input i = .ok name ∧ key = .string ("$" ++ name)
  | fields, key => ∃ parts, key = .object parts ∧ List.Forall₂ (IsKeyPart input) fields parts

/-- Where the columns behind an aggregate come from: the key's own columns from the key, the others
from the results of the calls. -/
def columnEntries (keys : Nat) (names : List String) : List (String × Json) :=
  names.zipIdx.map fun (name, position) =>
    (name, .string (if position < keys then if keys = 1 then "$_id" else "$_id." ++ name
      else "$" ++ name))

/-- A stage gives every column its entry and, where the key is a document, suppresses that. -/
def liftEntries (keys : Nat) (names : List String) : List (String × Json) :=
  if keys = 1 then columnEntries keys names else ("_id", .integer 0) :: columnEntries keys names

/-- The stages of an operator have an entry of its own for each of its expressions, or for each
grouped field, each call and each output column. -/
def Complete (settings : Settings) (output input : Schema) : Operator → List Json → Prop
  | .project exprs, stages => ∃ entries,
      stages = [.field "$project" (.object entries)] ∧ List.Forall₂ (IsEntry input) exprs entries
  | .aggregate fields _ calls, stages => ∃ key results,
      stages = .field "$group" (.object (("_id", key) :: results)) ::
        (if fields = [] then []
          else [.field "$project" (.object (liftEntries fields.length output.names))]) ∧
      IsGroupKey input fields key ∧
      results.map (·.1) = output.names.drop fields.length ∧
      List.Forall₂ (fun call entry => accumulator settings input call = .ok entry.2) calls results
  | _, _ => True

/-- The names that an operator gives do not collide. A single grouped field may be called `_id`. -/
def HasOwnNames (output : Schema) : Operator → Prop
  | .project exprs => (exprs.map (·.1)).Nodup
  | .aggregate fields _ _ =>
    output.names.Nodup ∧ "_id" ∉ if fields.length = 1 then output.names.tail else output.names
  | _ => True

/-! ## Entries of the stages -/

theorem forall₂_projectionEntries {exprs : List (String × RowExpr)}
    {entries : List (String × Json)} (h : projectionEntries input exprs = .ok entries) :
    List.Forall₂ (IsEntry input) exprs entries := by
  induction exprs generalizing entries with
  | nil =>
    obtain rfl := Except.ok.inj h
    exact .nil
  | cons item rest ih =>
    simp only [projectionEntries, bind_eq_ok, pure_eq_ok] at h
    obtain ⟨entry, hentry, entries, hentries, rfl⟩ := h
    exact .cons ⟨rfl, hentry⟩ (ih hentries)

theorem forall₂_keyParts {fields : List Nat} {parts : List (String × Json)}
    (h : keyParts input fields = .ok parts) : List.Forall₂ (IsKeyPart input) fields parts := by
  induction fields generalizing parts with
  | nil =>
    obtain rfl := Except.ok.inj h
    exact .nil
  | cons i rest ih =>
    simp only [keyParts, fieldPath, bind_eq_ok, pure_eq_ok] at h
    obtain ⟨name, hname, path, ⟨name', hname', rfl⟩, parts, hparts, rfl⟩ := h
    obtain rfl := Except.ok.inj (hname.symm.trans hname')
    exact .cons ⟨hname, rfl⟩ (ih hparts)

theorem fieldName_eq_ok {schema : Schema} {i : Nat} {name : String} :
    fieldName schema i = .ok name ↔ schema.names[i]? = some name := by
  rw [Schema.names, List.getElem?_map, ← Schema.column?, fieldName]
  cases schema.column? i <;> simp

/-- The accumulators are those of the calls, under the names of the columns from a position on. -/
theorem forall₂_accumulators {calls : List AggregateCall} {position : Nat}
    {results : List (String × Json)} (hwidth : output.width = position + calls.length)
    (h : accumulators settings output input position calls = .ok results) :
    results.map (·.1) = output.names.drop position ∧
      List.Forall₂ (fun call entry => accumulator settings input call = .ok entry.2) calls
        results := by
  induction calls generalizing position results with
  | nil =>
    obtain rfl := Except.ok.inj h
    have hend : output.names.drop position = [] := by
      rw [List.drop_eq_nil_iff, Schema.names, List.length_map]
      exact Nat.le_of_eq hwidth
    exact ⟨hend.symm, .nil⟩
  | cons call rest ih =>
    simp only [accumulators, bind_eq_ok, pure_eq_ok] at h
    obtain ⟨name, hname, entry, hentry, results, hresults, rfl⟩ := h
    obtain ⟨hnames, hrest⟩ := ih (by rw [hwidth, List.length_cons]; omega) hresults
    obtain ⟨hlt, rfl⟩ := List.getElem?_eq_some_iff.1 (fieldName_eq_ok.1 hname)
    refine ⟨?_, .cons hentry hrest⟩
    rw [List.map_cons, hnames, ← List.drop_eq_getElem_cons hlt]

/-- The entries of the stage that turns the key back into fields. -/
theorem liftStage?_eq (keys : Nat) (names : List String) :
    liftStage? keys names = if keys = 0 then none
      else some (.field "$project" (.ofFields (liftEntries keys names))) := by
  unfold liftStage?
  split
  · rfl
  · have hentry (item : String × Nat) : ("$" ++ if item.2 = 0 then "_id" else item.1) =
        if item.2 < 1 then "$_id" else "$" ++ item.1 := by
      obtain ⟨name, position⟩ := item
      cases position <;> rfl
    rw [if_neg (by decide), liftEntries, if_pos rfl, columnEntries]
    simp only [hentry, if_true]
  · rename_i hzero hone
    rw [if_neg hzero, liftEntries, if_neg hone, columnEntries]
    simp only [if_neg hone]
    rfl

theorem map_fst_columnEntries (keys : Nat) (names : List String) :
    (columnEntries keys names).map (·.1) = names := by
  rw [columnEntries, List.map_map]
  exact List.zipIdx_map_fst 0 names

theorem map_fst_of_isEntry {exprs : List (String × RowExpr)} {entries : List (String × Json)}
    (h : List.Forall₂ (IsEntry input) exprs entries) : entries.map (·.1) = exprs.map (·.1) := by
  induction h with
  | nil => rfl
  | cons hentry _ ih => rw [List.map_cons, List.map_cons, hentry.1, ih]

theorem map_fst_of_isKeyPart {fields : List Nat} {parts : List (String × Json)}
    (h : List.Forall₂ (IsKeyPart input) fields parts) :
    parts.map (·.1) = (fields.filterMap input.column?).map (·.name) := by
  induction h with
  | nil => rfl
  | @cons i part _ _ hpart _ ih =>
    have hname : (input.column? i).map (·.name) = some part.1 := by
      rw [← fieldName_eq_ok.1 hpart.1, Schema.names, List.getElem?_map, Schema.column?]
    obtain ⟨c, hc, hcname⟩ := Option.map_eq_some_iff.1 hname
    rw [List.map_cons, List.filterMap_cons_some hc, List.map_cons, ih, hcname]

/-- The key has all its parts if the grouped fields have different names. -/
theorem isGroupKey_of_nodup {fields : List Nat} {key : Json} (h : groupKey input fields = .ok key)
    (hnames : ((fields.filterMap input.column?).map (·.name)).Nodup) :
    IsGroupKey input fields key := by
  match fields, h with
  | [], h => exact (Except.ok.inj h).symm
  | [i], h =>
    simp only [groupKey, fieldPath, bind_eq_ok, pure_eq_ok] at h
    obtain ⟨_, ⟨name, hname, rfl⟩, rfl⟩ := h
    exact ⟨name, hname, rfl⟩
  | i :: j :: rest, h =>
    simp only [groupKey, bind_eq_ok, pure_eq_ok] at h
    obtain ⟨parts, hparts, rfl⟩ := h
    refine ⟨parts, Json.ofFields_eq_object ?_, forall₂_keyParts hparts⟩
    rwa [map_fst_of_isKeyPart (forall₂_keyParts hparts)]

theorem nodup_liftEntries_iff (keys : Nat) (names : List String) :
    ((liftEntries keys names).map (·.1)).Nodup ↔ names.Nodup ∧ (keys ≠ 1 → "_id" ∉ names) := by
  rw [liftEntries]
  split
  · rename_i hone
    simp [map_fst_columnEntries, hone]
  · rename_i hone
    simp [map_fst_columnEntries, hone, and_comm]

/-- The names of an aggregate do not collide exactly if they do so in neither of its stages. -/
theorem hasOwnNames_aggregate_iff {fields : List Nat} {sets : Option (List (List Nat))}
    {calls : List AggregateCall} :
    HasOwnNames output (.aggregate fields sets calls) ↔
      ("_id" :: output.names.drop fields.length).Nodup ∧
        (fields ≠ [] → ((liftEntries fields.length output.names).map (·.1)).Nodup) := by
  rw [nodup_liftEntries_iff, List.nodup_cons, HasOwnNames]
  match fields with
  | [] => simp [and_comm]
  | [i] =>
    have htail : output.names.Nodup → output.names.tail.Nodup := fun h => h.tail
    simp only [List.length_singleton, List.drop_one, if_true]
    tauto
  | i :: j :: rest =>
    have hdrop : output.names.Nodup → (output.names.drop (rest.length + 2)).Nodup :=
      fun h => h.drop
    have hmem : "_id" ∈ output.names.drop (rest.length + 2) → "_id" ∈ output.names :=
      List.mem_of_mem_drop
    simp only [List.length_cons]
    rw [if_neg (by omega)]
    have hne : i :: j :: rest ≠ [] := by simp
    have hlen : rest.length + 1 + 1 ≠ 1 := by omega
    tauto

/-- An aggregate is a group, and a stage that turns its key back into fields. -/
theorem exists_of_aggregateStages {fields : List Nat} {sets : Option (List (List Nat))}
    {calls : List AggregateCall} {convention : Convention} {stages : List Json}
    (houtput : (Operator.aggregate fields sets calls).outputSchema convention [input] = .ok output)
    (h : operatorStages settings (.aggregate fields sets calls) output input = .ok stages) :
    ∃ key results, groupKey input fields = .ok key ∧
      results.map (·.1) = output.names.drop fields.length ∧
      List.Forall₂ (fun call entry => accumulator settings input call = .ok entry.2) calls
        results ∧
      stages = .field "$group" (.ofFields (("_id", key) :: results)) ::
        (if fields.length = 0 then none
          else some (.field "$project"
            (.ofFields (liftEntries fields.length output.names)))).toList := by
  simp only [operatorStages, aggregateStages, liftStage?_eq, bind_eq_ok, pure_eq_ok] at h
  obtain ⟨key, hkey, results, hresults, rfl⟩ := h
  obtain ⟨hnames, hcalls⟩ := forall₂_accumulators (Operator.width_aggregate houtput) hresults
  exact ⟨key, results, hkey, hnames, hcalls, rfl⟩

/-- The stages of an operator are complete exactly if its names do not collide. -/
theorem complete_iff {op : Operator} {convention : Convention} {stages : List Json}
    (houtput : op.outputSchema convention [input] = .ok output)
    (h : operatorStages settings op output input = .ok stages) :
    Complete settings output input op stages ↔ HasOwnNames output op := by
  cases op with
  | project exprs =>
    simp only [operatorStages, projection, bind_eq_ok, pure_eq_ok] at h
    obtain ⟨_, ⟨entries, hentries, rfl⟩, rfl⟩ := h
    constructor
    · rintro ⟨complete, hstages, hcomplete⟩
      have hobject : Json.ofFields entries = .object complete := by
        simpa [Json.field] using hstages
      rw [HasOwnNames, ← map_fst_of_isEntry hcomplete]
      exact Json.nodup_of_ofFields_eq hobject
    · intro hnames
      have hcomplete := forall₂_projectionEntries hentries
      rw [HasOwnNames, ← map_fst_of_isEntry hcomplete] at hnames
      exact ⟨entries, by rw [Json.ofFields_eq_object hnames], hcomplete⟩
  | aggregate fields sets calls =>
    obtain ⟨key, results, hkey, hnames, hcalls, rfl⟩ := exists_of_aggregateStages houtput h
    constructor
    · rintro ⟨key', results', hstages, -, hnames', -⟩
      obtain ⟨hgroup, hlift⟩ := List.cons.inj hstages
      have hobject : Json.ofFields (("_id", key) :: results) =
          .object (("_id", key') :: results') := by
        simpa [Json.field] using hgroup
      refine hasOwnNames_aggregate_iff.2 ⟨?_, fun hfields => ?_⟩
      · rw [← hnames']
        exact Json.nodup_of_ofFields_eq hobject
      · rw [if_neg (List.length_eq_zero_iff.not.2 hfields), if_neg hfields] at hlift
        apply Json.nodup_of_ofFields_eq
        simpa [Json.field] using hlift
    · intro hown
      obtain ⟨hgroup, hlift⟩ := hasOwnNames_aggregate_iff.1 hown
      refine ⟨key, results, ?_, isGroupKey_of_nodup hkey ?_, hnames, hcalls⟩
      · rw [← hnames] at hgroup
        have hobject : Json.ofFields (("_id", key) :: results) =
            .object (("_id", key) :: results) := Json.ofFields_eq_object hgroup
        rw [hobject]
        by_cases hfields : fields = []
        · simp [hfields]
        · rw [if_neg (List.length_eq_zero_iff.not.2 hfields), if_neg hfields,
            Json.ofFields_eq_object (hlift hfields), Option.toList_some]
      · rw [← Operator.take_names_aggregate houtput]
        exact (List.take_sublist _ _).nodup hown.1
  | _ => exact iff_of_true trivial trivial

/-! ## Stages of a plan -/

/-- A chain that becomes a pipeline is a scan, which needs no stages, or its last operator adds
stages to the pipeline of the one operator beneath. -/
theorem chain_eq_ok {p : Plan} {out : Pipeline} (hp : p.Consistent)
    (h : chain settings p = .ok out) :
    (p.inputs = [] ∧ (∃ table, p.op = .scan table p.schema) ∧ out.stages = []) ∨
      ∃ input beneath stages, p.inputs = [input] ∧
        chain settings input = .ok beneath ∧
        operatorStages settings p.op p.schema input.schema = .ok stages ∧
        out.stages = beneath.stages ++ stages := by
  obtain ⟨op, inputs, schema, convention⟩ := p
  cases hlink : isLink op.kind with
  | false =>
    cases op with
    | scan table given =>
      obtain rfl : given = schema := Except.ok.inj hp.derived
      refine .inl ⟨by simpa [Operator.Fits] using hp.fits, ⟨table, rfl⟩, ?_⟩
      rw [← Except.ok.inj h]
    | join | union | values =>
      rcases inputs with _ | ⟨_, _ | _⟩ <;> simp [chain, isLink, Operator.kind] at h
    | _ => simp [isLink, Operator.kind] at hlink
  | true =>
    obtain ⟨input, rfl⟩ := hp.exists_input (takes_one_of_isLink hlink)
    rw [chain_of_isLink hlink] at h
    simp only [bind_eq_ok, pure_eq_ok] at h
    obtain ⟨beneath, hbeneath, stages, hstages, rfl⟩ := h
    exact .inr ⟨input, beneath, stages, rfl, hbeneath, hstages, rfl⟩

/-- The stages of each operator of a chain stand together in the pipeline. -/
theorem exists_stages_of_partOf {p q below : Plan} {out : Pipeline} (hp : p.Built)
    (h : chain settings p = .ok out) (hq : Plan.PartOf q p) (hinputs : q.inputs = [below]) :
    ∃ before stages after, out.stages = before ++ stages ++ after ∧
      operatorStages settings q.op q.schema below.schema = .ok stages := by
  induction hq generalizing out with
  | self =>
    rcases chain_eq_ok (hp.consistent (.self q)).1 h with
      ⟨hnone, -⟩ | ⟨input, beneath, stages, hinput, -, hstages, hall⟩
    · simp [hinputs] at hnone
    · obtain rfl : below = input := List.singleton_inj.1 (hinputs.symm.trans hinput)
      exact ⟨beneath.stages, stages, [], by rw [List.append_nil, hall], hstages⟩
  | @input r p hr _ ih =>
    rcases chain_eq_ok (hp.consistent (.self p)).1 h with
      ⟨hnone, -⟩ | ⟨input, beneath, stages, hinput, hbeneath, -, hall⟩
    · simp [hnone] at hr
    · obtain rfl : r = input := by simpa [hinput] using hr
      obtain ⟨before, those, after, hthose, hstages⟩ :=
        ih (hp.of_partOf (.input hr (.self r))) hbeneath
      exact ⟨before, those, after ++ stages, by rw [hall, hthose, List.append_assoc], hstages⟩

theorem chain_of_pipeline {p : Plan} {out : Pipeline} (h : pipeline settings p = .ok out) :
    chain settings p = .ok out := by
  unfold pipeline at h
  split at h
  · exact h
  · cases h

/-- Each operator of a plan has its stages in the pipeline, and they are complete exactly if the
names that the operator gives do not collide. -/
theorem exists_stages_complete_iff {p : Plan} {out : Pipeline} (hp : p.Obtained)
    (h : pipeline settings p = .ok out) {q below : Plan} (hq : Plan.PartOf q p)
    (hinputs : q.inputs = [below]) :
    ∃ before stages after, out.stages = before ++ stages ++ after ∧
      operatorStages settings q.op q.schema below.schema = .ok stages ∧
        (Complete settings q.schema below.schema q.op stages ↔ HasOwnNames q.schema q.op) := by
  obtain ⟨before, stages, after, hall, hstages⟩ :=
    exists_stages_of_partOf hp.built (chain_of_pipeline h) hq hinputs
  have hderived := (hp.built.consistent hq).1.derived
  rw [hinputs] at hderived
  exact ⟨before, stages, after, hall, hstages, complete_iff hderived hstages⟩

/-! ## Sales by region -/

/-- Stored sales. -/
def sales : Plan :=
  let schema : Schema :=
    ⟨[⟨"region", .string none, true⟩, ⟨"year", .integer .bits32, false⟩,
      ⟨"amount", .float .bits64, true⟩]⟩
  ⟨.scan "sales" schema, [], schema, .document⟩

/-- Number and sum of the sales of a region in a year. -/
def yearlySales : Plan :=
  ⟨.aggregate [0, 1] none [⟨.count, [], false, some "n"⟩, ⟨.sum, [2], false, some "total"⟩],
    [sales],
    ⟨[⟨"region", .string none, true⟩, ⟨"year", .integer .bits32, false⟩,
      ⟨"n", .integer .bits64, false⟩, ⟨"total", .float .bits64, true⟩]⟩, .document⟩

/-- The sums alone. -/
def yearlyTotals : Plan :=
  ⟨.project [("region", .field 0 (.string none)), ("sum", .field 3 (.float .bits64))],
    [yearlySales], ⟨[⟨"region", .string none, true⟩, ⟨"sum", .float .bits64, true⟩]⟩, .document⟩

theorem obtained_sales : sales.Obtained := by
  have hscan : Plan.scan "sales" sales.schema .document = .ok sales := rfl
  exact .scan hscan

theorem obtained_yearlySales : yearlySales.Obtained := by
  have haggregate : Plan.aggregate sales [0, 1]
      [⟨.count, [], false, some "n"⟩, ⟨.sum, [2], false, some "total"⟩] = .ok yearlySales := rfl
  exact .aggregate obtained_sales haggregate

theorem exists_stages_complete_yearlySales :
    ∃ out, yearlyTotals.Obtained ∧ pipeline {} yearlyTotals = .ok out ∧
      Plan.PartOf yearlySales yearlyTotals ∧ yearlySales.inputs = [sales] ∧
        ∃ before stages after, out.stages = before ++ stages ++ after ∧
          operatorStages {} yearlySales.op yearlySales.schema sales.schema = .ok stages ∧
            Complete {} yearlySales.schema sales.schema yearlySales.op stages := by
  have hproject : Plan.project yearlySales
      [("region", .field 0 (.string none)), ("sum", .field 3 (.float .bits64))] =
        .ok yearlyTotals := rfl
  have hobtained : yearlyTotals.Obtained := .project obtained_yearlySales hproject
  have hpart : Plan.PartOf yearlySales yearlyTotals := .input (by simp [yearlyTotals]) (.self _)
  have hnames : HasOwnNames yearlySales.schema yearlySales.op := ⟨by decide, by decide⟩
  obtain ⟨out, hout⟩ : ∃ out, pipeline {} yearlyTotals = .ok out := ⟨_, rfl⟩
  obtain ⟨before, stages, after, hall, hstages, hcomplete⟩ :=
    exists_stages_complete_iff hobtained hout hpart rfl
  exact ⟨out, hobtained, hout, hpart, rfl, before, stages, after, hall, hstages, hcomplete.2 hnames⟩

/-- Number of the sales of a region, under the name of the key's field. -/
def countsAsKey : Plan :=
  ⟨.aggregate [0] none [⟨.count, [], false, some "_id"⟩], [sales],
    ⟨[⟨"region", .string none, true⟩, ⟨"_id", .integer .bits64, false⟩]⟩, .document⟩

/-- The count takes the place of the group key. -/
theorem stages_countsAsKey :
    ∃ out, countsAsKey.Obtained ∧ pipeline {} countsAsKey = .ok out ∧
      out.stages =
        [.field "$group" (.object [("_id", .field "$sum" (.integer 1))]),
          .field "$project" (.object [("region", .string "$_id"), ("_id", .string "$_id")])] ∧
      ¬Complete {} countsAsKey.schema sales.schema countsAsKey.op out.stages := by
  have haggregate :
      Plan.aggregate sales [0] [⟨.count, [], false, some "_id"⟩] = .ok countsAsKey := rfl
  refine ⟨_, .aggregate obtained_sales haggregate, rfl, rfl, ?_⟩
  rintro ⟨key, results, hstages, -, hnames, -⟩
  have hgroup : Json.field "$group" (.object [("_id", .field "$sum" (.integer 1))]) =
      .field "$group" (.object (("_id", key) :: results)) := (List.cons.inj hstages).1
  obtain ⟨-, rfl⟩ : Json.field "$sum" (.integer 1) = key ∧ [] = results := by
    simpa [Json.field] using hgroup
  exact absurd hnames (by decide)

end Document

end StorePlan
