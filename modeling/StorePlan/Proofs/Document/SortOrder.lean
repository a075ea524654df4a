import Mathlib.Data.List.Find
import Mathlib.Data.List.Induction
import Mathlib.Data.Set.List
import StorePlan.Proofs.Document.StageFields
import StorePlan.Proofs.Plan.Conformance
import StorePlan.Proofs.VectorStore.PushDown

/-
The order of a `$sort` stage. A stage has one direction for each name, so of
several keys on a field it has the place of the first and the direction of the
last. It says nothing of `NULL`, which its store ranks below all other values.

Comparing rows by keys and comparing documents by a stage both come down to
the first key that tells the two apart (`compareRows_eq`,
`compareDocuments_eq`), and whether a key does so depends on its field only.
So a stage orders as the keys say if of each field the first key asks for what
the stage does (`IsHonoured`), and not otherwise.
-/

namespace StorePlan

namespace Json

/-! ## The first field that passes a test -/

theorem find?_insertField (test : String → Bool) (name : String) (value : Json)
    (fields : List (String × Json)) :
    (insertField name value fields).find? (fun field => test field.1) =
      match fields.find? (fun field => test field.1) with
      | some field => some (field.1, if field.1 = name then value else field.2)
      | none => if test name then some (name, value) else none := by
  induction fields with
  | nil => cases htest : test name <;> simp [htest]
  | cons field rest ih =>
    obtain ⟨n, v⟩ := field
    rw [insertField]
    by_cases hsame : n = name
    · rw [if_pos hsame, List.find?_cons, List.find?_cons]
      cases htest : test n with
      | true => simp [hsame]
      | false =>
        cases hrest : rest.find? fun field => test field.1 with
        | none => simp [← hsame, htest]
        | some found =>
          have hfound : test found.1 = true := by simpa using List.find?_some hrest
          have hne : found.1 ≠ name := by
            rintro heq
            rw [heq, ← hsame, htest] at hfound
            cases hfound
          simp [hne]
    · rw [if_neg hsame, List.find?_cons, List.find?_cons, ih]
      cases test n with
      | true => simp [hsame]
      | false => rfl

/-- A name has the place of the first field that was inserted under it, and the value of the last.
-/
theorem find?_ofFields (given : List (String × Json)) :
    ∃ fields, ofFields given = .object fields ∧ ∀ test : String → Bool,
      fields.find? (fun field => test field.1) =
        (given.find? fun field => test field.1).bind fun first =>
          given.reverse.find? (·.1 == first.1) := by
  -- The field that is inserted last replaces the value under its name, or comes last.
  induction given using List.reverseRecOn with
  | nil => exact ⟨[], rfl, fun _ => rfl⟩
  | append_singleton given last ih =>
    obtain ⟨fields, hfields, hfind⟩ := ih
    have hall : ofFields (given ++ [last]) = .object (insertField last.1 last.2 fields) := by
      rw [ofFields, List.foldl_append, ← Json.object.inj hfields]
      rfl
    refine ⟨_, hall, fun test => ?_⟩
    rw [find?_insertField, hfind, List.find?_append, List.reverse_append]
    cases hgiven : given.find? fun field => test field.1 with
    | none => cases htest : test last.1 <;> simp [htest]
    | some first =>
      have hmem : first ∈ given.reverse := List.mem_reverse.2 (List.mem_of_find?_eq_some hgiven)
      obtain ⟨⟨name, value⟩, hfound⟩ : ∃ found,
          given.reverse.find? (·.1 == first.1) = some found :=
        Option.isSome_iff_exists.1 (List.find?_isSome.2 ⟨first, hmem, by simp⟩)
      obtain rfl : name = first.1 := by simpa using List.find?_some hfound
      obtain ⟨name, value⟩ := last
      by_cases hlast : name = first.1
      · simp [hfound, hlast]
      · simp [hfound, hlast, Ne.symm hlast]

end Json

/-! ## The first key that tells two rows apart -/

/-- What a row holds in a field. -/
def valueAt (row : List Value) (i : Nat) : Value := row[i]?.getD .null

theorem orderTurned_eq_eq_iff {α : Type} {cmp : α → α → Ordering} [Std.OrientedCmp cmp]
    (turned : Bool) {a b : α} : orderTurned turned cmp a b = .eq ↔ cmp a b = .eq := by
  cases turned with
  | true =>
    have hturned : orderTurned true cmp a b = cmp b a := rfl
    rw [hturned, Std.OrientedCmp.eq_comm]
  | false => rfl

/-- Of several comparisons one after the other, the first that is not even decides. -/
theorem then_decided {α : Type} {f : α → Ordering} {test : α → Bool}
    (htest : ∀ a, f a = .eq ↔ test a = false) (a : α) (rest : List α) :
    (f a).then (((rest.find? test).map f).getD .eq) =
      (((a :: rest).find? test).map f).getD .eq := by
  rw [List.find?_cons]
  cases h : test a with
  | false => rw [(htest a).2 h]; rfl
  | true =>
    cases hf : f a with
    | eq =>
      rw [(htest a).1 hf] at h
      cases h
    | lt | gt => simp [hf]

namespace Ranking

variable (R : Ranking)

/-- The order of values in a document store, which ranks `NULL` below all others. -/
def compareStored : Value → Value → Ordering :=
  compareLex (fun v w => Ord.compare (!v.isNull) (!w.isNull)) R.compare

instance : Std.TransCmp R.compareStored := by
  have hnulls : Std.TransCmp fun v w : Value => Ord.compare (!v.isNull) (!w.isNull) :=
    transCmp_comap fun v : Value => !v.isNull
  unfold compareStored
  infer_instance

/-- The order of documents under the names of a stage, each with a direction. -/
def compareDocuments : List (String × Bool) → (String → Value) → (String → Value) → Ordering
  | [] => fun _ _ => .eq
  | (name, descending) :: rest =>
    compareLex (fun a b => orderTurned descending R.compareStored (a name) (b name))
      (compareDocuments rest)

/-- Whether a key whose field holds these values tells their rows apart, whatever its direction
is and wherever `NULL` goes. -/
def tellsApart (v w : Value) : Bool := R.compareStored v w != .eq

/-- The first key that tells two rows apart. -/
def deciding? (keys : List Collation) (r s : List Value) : Option Collation :=
  keys.find? fun key => R.tellsApart (valueAt r key.field) (valueAt s key.field)

variable {R} {v w : Value} {key : Collation} {keys : List Collation} {r s : List Value}

theorem tellsApart_eq_false_iff :
    R.tellsApart v w = false ↔ v.isNull = w.isNull ∧ R.compare v w = .eq := by
  have hnulls : Ord.compare (!v.isNull) (!w.isNull) = .eq ↔ v.isNull = w.isNull := by
    rw [Std.LawfulEqCmp.compare_eq_iff_eq, Bool.not_inj_iff]
  simp [tellsApart, compareStored, compareLex, hnulls]

theorem compareValues_eq_eq_iff : R.compareValues key v w = .eq ↔ R.tellsApart v w = false := by
  have hnulls : Std.TransCmp fun v w : Value => Ord.compare v.isNull w.isNull :=
    transCmp_comap Value.isNull
  rw [tellsApart_eq_false_iff, compareValues, compareLex, Ordering.then_eq_eq,
    orderTurned_eq_eq_iff, orderTurned_eq_eq_iff, Std.LawfulEqCmp.compare_eq_iff_eq]

theorem orderTurned_compareStored_eq_eq_iff (descending : Bool) :
    orderTurned descending R.compareStored v w = .eq ↔ R.tellsApart v w = false := by
  rw [orderTurned_eq_eq_iff, tellsApart, bne_eq_false_iff_eq]

theorem compareRows_eq (R : Ranking) (keys : List Collation) (r s : List Value) :
    R.compareRows keys r s = ((R.deciding? keys r s).map fun key =>
      R.compareValues key (valueAt r key.field) (valueAt s key.field)).getD .eq := by
  have hkey (key : Collation) : R.compareValues key (valueAt r key.field) (valueAt s key.field) =
      .eq ↔ R.tellsApart (valueAt r key.field) (valueAt s key.field) = false :=
    compareValues_eq_eq_iff
  induction keys with
  | nil => rfl
  | cons key rest ih =>
    have hthen : R.compareRows (key :: rest) r s =
        (R.compareValues key (valueAt r key.field) (valueAt s key.field)).then
          (R.compareRows rest r s) := rfl
    rw [hthen, ih]
    exact then_decided hkey key rest

theorem compareDocuments_eq (R : Ranking) (directions : List (String × Bool))
    (a b : String → Value) :
    R.compareDocuments directions a b =
      ((directions.find? fun d => R.tellsApart (a d.1) (b d.1)).map fun d =>
        orderTurned d.2 R.compareStored (a d.1) (b d.1)).getD .eq := by
  have hd (d : String × Bool) : orderTurned d.2 R.compareStored (a d.1) (b d.1) = .eq ↔
      R.tellsApart (a d.1) (b d.1) = false :=
    orderTurned_compareStored_eq_eq_iff d.2
  induction directions with
  | nil => rfl
  | cons d rest ih =>
    have hthen : R.compareDocuments (d :: rest) a b =
        (orderTurned d.2 R.compareStored (a d.1) (b d.1)).then
          (R.compareDocuments rest a b) := rfl
    rw [hthen, ih]
    exact then_decided hd d rest

/-- The key that decides is the first one on its field. -/
theorem find?_field_of_deciding? (h : R.deciding? keys r s = some key) :
    keys.find? (·.field == key.field) = some key := by
  obtain ⟨htells, before, behind, hkeys, hbefore⟩ := List.find?_eq_some_iff_append.1 h
  refine List.find?_eq_some_iff_append.2 ⟨by simp, before, behind, hkeys, fun other hother => ?_⟩
  have hnot := hbefore other hother
  simp only [Bool.not_eq_true', beq_eq_false_iff_ne]
  intro hfield
  rw [hfield, htells] at hnot
  cases hnot

/-- Two values other than `NULL` are ordered by their ranks. -/
theorem compareValues_of_not_isNull (hv : v.isNull = false) (hw : w.isNull = false) :
    R.compareValues key v w = orderTurned key.descending R.compare v w := by
  have hnulls : orderTurned (R.putsNullFirst key) (fun v w : Value => Ord.compare v.isNull w.isNull)
      v w = .eq := by
    simp [orderTurned, hv, hw]
  rw [compareValues, compareLex, hnulls]
  rfl

theorem orderTurned_compareStored_of_not_isNull (hv : v.isNull = false) (hw : w.isNull = false)
    (descending : Bool) :
    orderTurned descending R.compareStored v w = orderTurned descending R.compare v w := by
  cases descending <;> simp [orderTurned, compareStored, compareLex, hv, hw]

/-- A key that has `NULL` where the store ranks it orders values as the store does. -/
theorem compareValues_of_putsNullFirst (h : R.putsNullFirst key = !key.descending) :
    R.compareValues key v w = orderTurned key.descending R.compareStored v w := by
  rw [compareValues, h]
  cases key.descending <;> cases hv : v.isNull <;> cases hw : w.isNull <;>
    simp [orderTurned, compareStored, compareLex, hv, hw]

end Ranking

/-- The direction that a stage has for a field: that of the last key on it. -/
def stageDirection (keys : List Collation) (i : Nat) : Bool :=
  (keys.reverse.find? (·.field == i)).any (·.descending)

namespace Document

/-! ## Keys of a stage -/

/-- What a number in a stage says: ascending or descending. -/
def direction? : Json → Option Bool
  | .integer 1 => some false
  | .integer (-1) => some true
  | _ => none

/-- The names of a stage, each with its direction. -/
def sortKeys? : Json → Option (List (String × Bool))
  | .object fields => fields.mapM fun field => (direction? field.2).map (field.1, ·)
  | _ => none

/-- The field for a name with a direction. -/
def directed (d : String × Bool) : String × Json := (d.1, .integer (if d.2 then -1 else 1))

/-- The name that a key has in a stage, with the key's own direction. -/
def namedKey (schema : Schema) (key : Collation) : String × Bool :=
  (schema.names[key.field]?.getD "", key.descending)

variable {schema : Schema} {keys : List Collation} {entries : List (String × Json)}

theorem sortKeys?_map_directed (directions : List (String × Bool)) :
    sortKeys? (.object (directions.map directed)) = some directions := by
  have hdirection (d : String × Bool) : direction? (directed d).2 = some d.2 := by
    obtain ⟨name, descending⟩ := d
    cases descending <;> rfl
  rw [sortKeys?]
  induction directions with
  | nil => rfl
  | cons d rest ih =>
    rw [List.map_cons, List.mapM_cons, ih, hdirection]
    rfl

theorem directed_injective : Function.Injective directed := by
  rintro ⟨name, descending⟩ ⟨name', descending'⟩ h
  cases descending <;> cases descending' <;> simp_all [directed]

theorem sortEntries_eq_ok (h : sortEntries schema keys = .ok entries) :
    (∀ key ∈ keys, key.field < schema.names.length) ∧
      entries = keys.map fun key => directed (namedKey schema key) := by
  induction keys generalizing entries with
  | nil =>
    obtain rfl := Except.ok.inj h
    simp
  | cons key rest ih =>
    simp only [sortEntries, bind_eq_ok, pure_eq_ok] at h
    obtain ⟨name, hname, entries, hentries, rfl⟩ := h
    obtain ⟨hfields, rfl⟩ := ih hentries
    rw [fieldName_eq_ok] at hname
    refine ⟨List.forall_mem_cons.2 ⟨(List.getElem?_eq_some_iff.1 hname).1, hfields⟩, ?_⟩
    rw [List.map_cons, directed, namedKey, hname]
    rfl

theorem idxOf_namedKey {key : Collation} (hnames : schema.names.Nodup)
    (h : key.field < schema.names.length) :
    schema.names.idxOf (namedKey schema key).1 = key.field := by
  rw [namedKey, List.getElem?_eq_getElem h, Option.getD_some, hnames.idxOf_getElem]

/-- The last entry under the name of a key has the direction of the field. -/
theorem find?_reverse_entries {key : Collation} (hnames : schema.names.Nodup)
    (hfields : ∀ key ∈ keys, key.field < schema.names.length) (hkey : key ∈ keys) :
    (keys.map fun key => directed (namedKey schema key)).reverse.find?
        (·.1 == (namedKey schema key).1) =
      some (directed ((namedKey schema key).1, stageDirection keys key.field)) := by
  have hname : ∀ last ∈ keys.reverse,
      ((namedKey schema last).1 == (namedKey schema key).1) = (last.field == key.field) := by
    intro last hlast
    rw [Bool.eq_iff_iff, beq_iff_eq, beq_iff_eq]
    constructor
    · intro hsame
      rw [← idxOf_namedKey hnames (hfields last (List.mem_reverse.1 hlast)), hsame,
        idxOf_namedKey hnames (hfields key hkey)]
    · intro hfield
      rw [namedKey, namedKey, hfield]
  obtain ⟨last, hlast⟩ : ∃ last, keys.reverse.find? (·.field == key.field) = some last :=
    Option.isSome_iff_exists.1 (List.find?_isSome.2 ⟨key, List.mem_reverse.2 hkey, by simp⟩)
  have hfield : last.field = key.field := by simpa using List.find?_some hlast
  have hfind : keys.reverse.find? (fun last =>
      (namedKey schema last).1 == (namedKey schema key).1) = some last := by
    rw [List.find?_congr hname, hlast]
  have hentry : directed (namedKey schema last) =
      directed ((namedKey schema key).1, stageDirection keys key.field) := by
    rw [stageDirection, hlast, namedKey, namedKey, hfield]
    rfl
  rw [← List.map_reverse, List.find?_map, ← hentry]
  exact congrArg (Option.map _) hfind

/-- The first name of a stage of which the column passes a test is that of the first key of which
the field does. -/
theorem exists_directions (hnames : schema.names.Nodup)
    (h : sortEntries schema keys = .ok entries) :
    ∃ directions, sortKeys? (.ofFields entries) = some directions ∧ ∀ test : Nat → Bool,
      (directions.find? fun d => test (schema.names.idxOf d.1)) =
        (keys.find? fun key => test key.field).map fun key =>
          ((namedKey schema key).1, stageDirection keys key.field) := by
  obtain ⟨hfields, rfl⟩ := sortEntries_eq_ok h
  obtain ⟨fields, hobject, hfind⟩ :=
    Json.find?_ofFields (keys.map fun key => directed (namedKey schema key))
  obtain ⟨directions, rfl⟩ : fields ∈ Set.range (List.map directed) := by
    obtain ⟨fields', hobject', hmem, -⟩ :=
      Json.exists_fields_of_ofFields (keys.map fun key => directed (namedKey schema key))
    obtain rfl := Json.object.inj (hobject.symm.trans hobject')
    rw [Set.range_list_map]
    intro field hfield
    obtain ⟨key, -, rfl⟩ := List.mem_map.1 (hmem field hfield)
    exact ⟨_, rfl⟩
  refine ⟨directions, by rw [hobject, sortKeys?_map_directed], fun test => ?_⟩
  have hfirst : keys.find? (fun key => test (schema.names.idxOf (namedKey schema key).1)) =
      keys.find? fun key => test key.field :=
    List.find?_congr fun key hkey => by rw [idxOf_namedKey hnames (hfields key hkey)]
  have hdirections := hfind fun name => test (schema.names.idxOf name)
  rw [List.find?_map, List.find?_map] at hdirections
  apply Option.map_injective directed_injective
  refine hdirections.trans ?_
  have hcomposed : (fun field : String × Json => test (schema.names.idxOf field.1)) ∘
      (fun key => directed (namedKey schema key)) =
        fun key => test (schema.names.idxOf (namedKey schema key).1) := rfl
  rw [hcomposed, hfirst]
  cases hkey : keys.find? fun key => test key.field with
  | none => rfl
  | some key => exact find?_reverse_entries hnames hfields (List.mem_of_find?_eq_some hkey)

/-- Comparing the documents of two rows is left to the first key that tells the rows apart, under
the direction that a stage has for its field. -/
def IsStageOf (schema : Schema) (keys : List Collation) (directions : List (String × Bool)) :
    Prop :=
  ∀ (R : Ranking) (r s : List Value),
    R.compareDocuments directions (assignment schema.names r) (assignment schema.names s) =
      ((R.deciding? keys r s).map fun key =>
        orderTurned (stageDirection keys key.field) R.compareStored (valueAt r key.field)
          (valueAt s key.field)).getD .eq

theorem exists_isStageOf (hnames : schema.names.Nodup)
    (h : sortEntries schema keys = .ok entries) :
    ∃ directions, sortKeys? (.ofFields entries) = some directions ∧
      IsStageOf schema keys directions := by
  obtain ⟨directions, hread, hfind⟩ := exists_directions hnames h
  refine ⟨directions, hread, fun R r s => ?_⟩
  have hfirst := hfind fun i => R.tellsApart (valueAt r i) (valueAt s i)
  rw [Ranking.compareDocuments_eq]
  refine (congrArg (fun found => (Option.map _ found).getD _) hfirst).trans ?_
  rw [Ranking.deciding?]
  cases hkey : keys.find? fun key => R.tellsApart (valueAt r key.field) (valueAt s key.field) with
  | none => rfl
  | some key =>
    have hindex : schema.names.idxOf (namedKey schema key).1 = key.field :=
      idxOf_namedKey hnames ((sortEntries_eq_ok h).1 key (List.mem_of_find?_eq_some hkey))
    have hvalue (row : List Value) :
        assignment schema.names row (namedKey schema key).1 = valueAt row key.field := by
      rw [assignment, hindex]
      rfl
    simp only [Option.map_some, Option.getD_some, hvalue]

end Document

/-! ## Stages that order as keys say -/

theorem forall₂_set {α β : Type} {P : α → β → Prop} {as : List α} {bs : List β} {i : Nat} {a : α}
    {b : β} (h : List.Forall₂ P as bs) (hb : bs[i]? = some b) (ha : P a b) :
    List.Forall₂ P (as.set i a) bs := by
  induction h generalizing i with
  | nil => cases hb
  | cons hfirst hrest ih =>
    cases i with
    | zero =>
      obtain rfl := Option.some.inj hb
      exact .cons ha hrest
    | succ i => exact .cons hfirst (ih hb)

theorem Schema.IsRow.isNull_valueAt {schema : Schema} {row : List Value} {i : Nat} {c : Column}
    (h : schema.IsRow row) (hc : schema.column? i = some c) (hnot : c.nullable = false) :
    (valueAt row i).isNull = false := by
  obtain ⟨hlt, hcolumn⟩ := List.getElem?_eq_some_iff.1 hc
  have hrow : i < row.length := by rwa [h.length_eq]
  have hvalue : valueAt row i = row[i] := by
    rw [valueAt, List.getElem?_eq_getElem hrow, Option.getD_some]
  have hholds : c.Holds row[i] := by
    have := List.Forall₂.get h hrow hlt
    rwa [List.get_eq_getElem, List.get_eq_getElem, hcolumn] at this
  rw [hvalue, ← Bool.not_eq_true]
  intro hnull
  rw [hholds.nullable hnull] at hnot
  cases hnot

theorem valueAt_set_self {row : List Value} {i : Nat} {v : Value} (h : i < row.length) :
    valueAt (row.set i v) i = v := by
  simp [valueAt, h]

theorem valueAt_set_ne {row : List Value} {i j : Nat} {v : Value} (h : i ≠ j) :
    valueAt (row.set i v) j = valueAt row j := by
  simp [valueAt, List.getElem?_set_ne h]

/-- The key with `NULL` in front or behind, by a choice if it leaves that open. -/
def Collation.settle (first : Collation → Bool) (key : Collation) : Collation :=
  if key.nulls = .unspecified then { key with nulls := if first key then .first else .last }
  else key

/-- Where a document store has `NULL`. -/
def NullPlacement.stored (descending : Bool) : NullPlacement := if descending then .last else .first

/-- Comparing the documents of rows under the names of a stage is comparing the rows by keys, for
some choice of where `NULL` goes under the keys that leave it open. -/
def Ranking.OrdersAs (R : Ranking) (schema : Schema) (directions : List (String × Bool))
    (keys : List Collation) : Prop :=
  ∃ first : Collation → Bool, ∀ r s, schema.IsRow r → schema.IsRow s →
    R.compareDocuments directions (assignment schema.names r) (assignment schema.names s) =
      R.compareRows (keys.map (·.settle first)) r s

/-- The first key on each field asks for what a stage does with the field: for the direction of the
last key, and for `NULL` where the store has it, if it asks for a place and there is `NULL` in the
column. -/
def IsHonoured (schema : Schema) (keys : List Collation) : Prop :=
  ∀ key ∈ keys, keys.find? (·.field == key.field) = some key →
    key.descending = stageDirection keys key.field ∧
      (key.nulls = .unspecified ∨ key.nulls = .stored key.descending ∨
        ∀ c, schema.column? key.field = some c → c.nullable = false)

/-- There are rows, and the type of each key's column has values of different rank. -/
structure Ranking.Varies (R : Ranking) (schema : Schema) (keys : List Collation) : Prop where
  row : ∃ row, schema.IsRow row
  values : ∀ key ∈ keys, ∃ c v w, schema.column? key.field = some c ∧ c.Holds v ∧ c.Holds w ∧
    v.isNull = false ∧ w.isNull = false ∧ R.compare v w ≠ .eq

namespace Ranking

variable {R : Ranking} {schema : Schema} {directions : List (String × Bool)}
  {keys : List Collation} {key : Collation} {first : Collation → Bool} {r s row : List Value}
  {v w : Value}

@[simp] theorem field_settle : (key.settle first).field = key.field := by
  unfold Collation.settle
  split <;> rfl

@[simp] theorem descending_settle : (key.settle first).descending = key.descending := by
  unfold Collation.settle
  split <;> rfl

theorem putsNullFirst_settle : R.putsNullFirst (key.settle first) =
    match key.nulls with
    | .first => true
    | .last => false
    | .unspecified => first key := by
  unfold putsNullFirst Collation.settle
  cases hnulls : key.nulls with
  | first | last => simp [hnulls]
  | unspecified => cases first key <;> simp

theorem compareRows_map_settle :
    R.compareRows (keys.map (·.settle first)) r s = ((R.deciding? keys r s).map fun key =>
      R.compareValues (key.settle first) (valueAt r key.field) (valueAt s key.field)).getD .eq := by
  have hdeciding : R.deciding? (keys.map (·.settle first)) r s =
      (R.deciding? keys r s).map (·.settle first) := by
    rw [deciding?, deciding?, List.find?_map]
    simp only [Function.comp_def, field_settle]
  rw [compareRows_eq, hdeciding, Option.map_map]
  simp only [Function.comp_def, field_settle]

/-- A stage orders as keys say that ask for what it does. -/
theorem ordersAs_of_isHonoured (hstage : Document.IsStageOf schema keys directions)
    (hfields : ∀ key ∈ keys, key.field < schema.width) (h : IsHonoured schema keys) :
    R.OrdersAs schema directions keys := by
  refine ⟨fun key => !key.descending, fun r s hr hs => ?_⟩
  rw [hstage, compareRows_map_settle]
  cases hdeciding : R.deciding? keys r s with
  | none => rfl
  | some key =>
    have hkey : key ∈ keys := List.mem_of_find?_eq_some hdeciding
    obtain ⟨hdirection, hnulls⟩ := h key hkey (find?_field_of_deciding? hdeciding)
    rw [Option.map_some, Option.map_some, Option.getD_some, Option.getD_some, ← hdirection]
    have hstored (hplaced : key.nulls = .unspecified ∨ key.nulls = .stored key.descending) :
        R.putsNullFirst (key.settle fun key => !key.descending) = !key.descending := by
      rw [putsNullFirst_settle]
      rcases hplaced with hplaced | hplaced <;> rw [hplaced]
      cases key.descending <;> rfl
    rcases or_assoc.2 hnulls with hplaced | hnever
    · rw [compareValues_of_putsNullFirst (by rw [hstored hplaced, descending_settle]),
        descending_settle]
    · obtain ⟨c, hc⟩ := Schema.exists_column? (hfields key hkey)
      have hv := hr.isNull_valueAt hc (hnever c hc)
      have hw := hs.isNull_valueAt hc (hnever c hc)
      rw [orderTurned_compareStored_of_not_isNull hv hw, compareValues_of_not_isNull hv hw,
        descending_settle]

/-- Two rows that differ in one field are told apart by the first key on it. -/
theorem deciding?_set (hfirst : keys.find? (·.field == key.field) = some key)
    (hlt : key.field < row.length) (htells : R.tellsApart v w = true) :
    R.deciding? keys (row.set key.field v) (row.set key.field w) = some key := by
  rw [← hfirst, deciding?]
  congr 1
  funext other
  by_cases hother : key.field = other.field
  · rw [← hother, valueAt_set_self hlt, valueAt_set_self hlt, htells, beq_self_eq_true]
  · have hsame : R.tellsApart (valueAt row other.field) (valueAt row other.field) = false := by
      rw [tellsApart_eq_false_iff]
      exact ⟨rfl, Std.ReflCmp.compare_self⟩
    rw [valueAt_set_ne hother, valueAt_set_ne hother, hsame, eq_comm, beq_eq_false_iff_ne]
    exact Ne.symm hother

/-- The direction shows in two values that are not equal. -/
theorem orderTurned_inj {cmp : Value → Value → Ordering} [Std.OrientedCmp cmp] {a b : Bool}
    (hne : cmp v w ≠ .eq) (h : orderTurned a cmp v w = orderTurned b cmp v w) : a = b := by
  have hswap : cmp v w = (cmp w v).swap := Std.OrientedCmp.eq_swap
  cases a <;> cases b <;> simp only [orderTurned] at h <;> cases hcmp : cmp w v <;> simp_all

theorem compareValues_null (h : w.isNull = false) :
    R.compareValues key .null w = if R.putsNullFirst key then .lt else .gt := by
  have hnull : Value.null.isNull = true := rfl
  cases hfirst : R.putsNullFirst key <;>
    simp [compareValues, compareLex, orderTurned, hfirst, h, hnull] <;> rfl

theorem orderTurned_compareStored_null (h : w.isNull = false) (descending : Bool) :
    orderTurned descending R.compareStored .null w = if descending then .gt else .lt := by
  have hnull : Value.null.isNull = true := rfl
  cases descending <;> simp [compareStored, compareLex, orderTurned, h, hnull] <;> rfl

/-- If values vary, the keys that a stage orders as ask for what it does. -/
theorem isHonoured_of_ordersAs (hstage : Document.IsStageOf schema keys directions)
    (hvaries : R.Varies schema keys) (h : R.OrdersAs schema directions keys) :
    IsHonoured schema keys := by
  obtain ⟨first, hcompare⟩ := h
  obtain ⟨row, hrow⟩ := hvaries.row
  intro key hkey hfirst
  obtain ⟨c, v, w, hc, hv, hw, hvnull, hwnull, hne⟩ := hvaries.values key hkey
  have hlt : key.field < row.length := by
    rw [hrow.length_eq]
    exact (List.getElem?_eq_some_iff.1 hc).1
  -- Rows that differ in the key's field only show how either comparison ranks two values in it.
  have hturned {x y : Value} (hx : c.Holds x) (hy : c.Holds y) (htells : R.tellsApart x y = true) :
      orderTurned (stageDirection keys key.field) R.compareStored x y =
        R.compareValues (key.settle first) x y := by
    have := hcompare _ _ (forall₂_set hrow hc hx) (forall₂_set hrow hc hy)
    rwa [hstage, compareRows_map_settle, deciding?_set hfirst hlt htells, Option.map_some,
      Option.map_some, Option.getD_some, Option.getD_some, valueAt_set_self hlt,
      valueAt_set_self hlt] at this
  have hdirection : key.descending = stageDirection keys key.field := by
    have htells : R.tellsApart v w = true := by
      rw [← Bool.not_eq_false, tellsApart_eq_false_iff]
      exact fun h => hne h.2
    have := hturned hv hw htells
    rw [orderTurned_compareStored_of_not_isNull hvnull hwnull,
      compareValues_of_not_isNull hvnull hwnull, descending_settle] at this
    exact (orderTurned_inj hne this).symm
  refine ⟨hdirection, ?_⟩
  cases hnullable : c.nullable with
  | false =>
    refine .inr (.inr fun c' hc' => ?_)
    cases hc.symm.trans hc'
    exact hnullable
  | true =>
    have hnull : c.Holds .null := ⟨rfl, fun _ => hnullable⟩
    have htells : R.tellsApart .null v = true := by
      rw [← Bool.not_eq_false, tellsApart_eq_false_iff]
      intro h
      cases h.1.trans hvnull
    have := hturned hnull hv htells
    rw [orderTurned_compareStored_null hvnull, compareValues_null hvnull, putsNullFirst_settle,
      ← hdirection] at this
    cases hnulls : key.nulls with
    | unspecified => exact .inl rfl
    | first | last =>
      rw [hnulls] at this
      refine .inr (.inl ?_)
      cases hdescending : key.descending <;> simp_all [NullPlacement.stored]

end Ranking

/-! ## Plans -/

namespace Document

variable {settings : Settings} {p input : Plan} {out : Pipeline} {keys : List Collation}
  {offset fetch : Option UInt64}

/-- The stages of a sort by keys: the order, then at most the bounds on the rows. -/
theorem exists_of_sortStages {schema : Schema} {stages : List Json}
    (h : sortStages schema keys offset fetch = .ok stages) (hkeys : keys ≠ []) :
    ∃ entries pages, sortEntries schema keys = .ok entries ∧
      stages = .field "$sort" (.ofFields entries) :: pages ∧
      ∀ stage ∈ pages, stageName? stage = some "$skip" ∨ stageName? stage = some "$limit" := by
  simp only [sortStages, bind_eq_ok, pure_eq_ok] at h
  obtain ⟨entries, hentries, rfl⟩ := h
  rw [if_neg (by simpa using hkeys), List.append_assoc, List.singleton_append]
  refine ⟨entries, _, hentries, rfl, ?_⟩
  rw [List.forall_mem_append]
  constructor
  · cases offset with
    | none => exact fun _ hstage => absurd hstage List.not_mem_nil
    | some n => exact List.forall_mem_singleton.2 (.inl rfl)
  · cases fetch with
    | none => exact fun _ hstage => absurd hstage List.not_mem_nil
    | some n => exact List.forall_mem_singleton.2 (.inr rfl)

/-- Sorting by keys adds a `$sort` stage behind the stages of the input. The stage orders any two
rows as the keys say if they ask for what it does; if values vary, it does not otherwise. -/
theorem exists_sortStage_ordersAs (hp : p.Obtained) (h : pipeline settings p = .ok out)
    (hop : p.op = .sort keys offset fetch) (hinputs : p.inputs = [input]) (hkeys : keys ≠ [])
    (hnames : input.schema.names.Nodup) :
    ∃ beneath document pages directions,
      chain settings input = .ok beneath ∧
      out.stages = beneath.stages ++ .field "$sort" document :: pages ∧
      (∀ stage ∈ pages, stageName? stage = some "$skip" ∨ stageName? stage = some "$limit") ∧
      sortKeys? document = some directions ∧
      ∀ R : Ranking,
        (IsHonoured input.schema keys → R.OrdersAs input.schema directions keys) ∧
        (R.Varies input.schema keys → R.OrdersAs input.schema directions keys →
          IsHonoured input.schema keys) := by
  have hconsistent := (hp.built.consistent (.self p)).1
  have houtput := hconsistent.derived
  rw [hop, hinputs] at houtput
  have hschema : p.schema = input.schema := Operator.eq_of_outputSchema (.inr rfl) houtput
  rcases chain_eq_ok hconsistent (chain_of_pipeline h) with
    ⟨hnone, -⟩ | ⟨input', beneath, stages, hinput, hbeneath, hstages, hall⟩
  · rw [hinputs] at hnone
    cases hnone
  · obtain rfl : input = input' := List.singleton_inj.1 (hinputs.symm.trans hinput)
    rw [hop, hschema] at hstages
    obtain ⟨entries, pages, hentries, rfl, hpages⟩ := exists_of_sortStages hstages hkeys
    obtain ⟨directions, hread, hstage⟩ := exists_isStageOf hnames hentries
    have hfields : ∀ key ∈ keys, key.field < input.schema.width := by
      have := (sortEntries_eq_ok hentries).1
      rwa [Schema.names, List.length_map] at this
    exact ⟨beneath, .ofFields entries, pages, directions, hbeneath, hall, hpages, hread, fun R =>
      ⟨Ranking.ordersAs_of_isHonoured hstage hfields, Ranking.isHonoured_of_ordersAs hstage⟩⟩

/-- Stored sales by region, those of no region first, and the latest first within a region. -/
def latestSales : Plan :=
  ⟨.sort [⟨0, false, .first⟩, ⟨1, true, .first⟩] none (some 10), [sales], sales.schema, .document⟩

/-- Years are never missing, so it does not matter where missing ones are asked for. -/
theorem ordersAs_latestSales :
    ∃ out, latestSales.Obtained ∧ pipeline {} latestSales = .ok out ∧
      sales.schema.names.Nodup ∧ ∃ document pages directions,
        out.stages = .field "$sort" document :: pages ∧ sortKeys? document = some directions ∧
          ∀ R : Ranking,
            R.OrdersAs sales.schema directions [⟨0, false, .first⟩, ⟨1, true, .first⟩] := by
  have hsort : Plan.sort sales [⟨0, false, .first⟩, ⟨1, true, .first⟩] none (some 10) =
      .ok latestSales := rfl
  have hobtained : latestSales.Obtained := .sort obtained_sales hsort
  obtain ⟨out, hout⟩ : ∃ out, pipeline {} latestSales = .ok out := ⟨_, rfl⟩
  have hnames : sales.schema.names.Nodup := by decide
  have hhonoured : IsHonoured sales.schema [⟨0, false, .first⟩, ⟨1, true, .first⟩] := by
    intro key hkey _
    simp only [List.mem_cons, List.not_mem_nil, or_false] at hkey
    rcases hkey with rfl | rfl
    · exact ⟨rfl, .inr (.inl rfl)⟩
    · exact ⟨rfl, .inr (.inr fun c hc => Option.some.inj hc ▸ rfl)⟩
  obtain ⟨beneath, document, pages, directions, hbeneath, hstages, -, hread, horders⟩ :=
    exists_sortStage_ordersAs hobtained hout rfl rfl (by simp) hnames
  obtain rfl := Except.ok.inj hbeneath
  exact ⟨out, hobtained, hout, hnames, document, pages, directions, hstages, hread,
    fun R => (horders R).1 hhonoured⟩

/-- Stored sales by region, upwards and then downwards. -/
def salesBothWays : Plan :=
  ⟨.sort [⟨0, false, .unspecified⟩, ⟨0, true, .unspecified⟩] none none, [sales], sales.schema,
    .document⟩

/-- Texts by their length. -/
def byLength : Ranking where
  compare v w := Ord.compare v.text.length w.text.length
  trans := transCmp_comap fun v : Value => v.text.length
  nullsFirst _ := true

theorem varies_salesBothWays : byLength.Varies sales.schema
    [⟨0, false, .unspecified⟩, ⟨0, true, .unspecified⟩] where
  row := ⟨[.null, .integer 2020, .null], .cons ⟨rfl, fun _ => rfl⟩ <|
    .cons ⟨rfl, fun h => nomatch h⟩ <| .cons ⟨rfl, fun _ => rfl⟩ .nil⟩
  values key hkey := by
    have hfield : key.field = 0 := by
      simp only [List.mem_cons, List.not_mem_nil, or_false] at hkey
      rcases hkey with rfl | rfl <;> rfl
    have hholds (s : String) : Column.Holds ⟨"region", .string none, true⟩ (.string s) :=
      ⟨rfl, fun _ => rfl⟩
    rw [hfield]
    exact ⟨_, .string "east", .string "north", rfl, hholds _, hholds _, rfl, rfl, by decide⟩

/-- The stage has the sales downwards only. -/
theorem not_ordersAs_salesBothWays :
    ∃ out, salesBothWays.Obtained ∧ pipeline {} salesBothWays = .ok out ∧
      sales.schema.names.Nodup ∧
      out.stages = [.field "$sort" (.object [("region", .integer (-1))])] ∧
      sortKeys? (.object [("region", .integer (-1))]) = some [("region", true)] ∧
      ¬byLength.OrdersAs sales.schema [("region", true)]
        [⟨0, false, .unspecified⟩, ⟨0, true, .unspecified⟩] := by
  have hsort : Plan.sort sales [⟨0, false, .unspecified⟩, ⟨0, true, .unspecified⟩] none none =
      .ok salesBothWays := rfl
  have hnames : sales.schema.names.Nodup := by decide
  refine ⟨_, .sort obtained_sales hsort, rfl, hnames, rfl, rfl, fun horders => ?_⟩
  have hentries : sortEntries sales.schema [⟨0, false, .unspecified⟩, ⟨0, true, .unspecified⟩] =
      .ok [("region", .integer 1), ("region", .integer (-1))] := rfl
  obtain ⟨directions, hread, hstage⟩ := exists_isStageOf hnames hentries
  obtain rfl : [("region", true)] = directions := Option.some.inj hread
  have hhonoured := Ranking.isHonoured_of_ordersAs hstage varies_salesBothWays horders
  have hdirection := (hhonoured ⟨0, false, .unspecified⟩ (by simp) rfl).1
  cases hdirection

end Document

end StorePlan
