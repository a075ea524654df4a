import StorePlan.Document.Encoding
import StorePlan.Proofs.Calendar
import StorePlan.Proofs.Json.Text
import StorePlan.Proofs.Number.Widening
import StorePlan.Proofs.Outcome
import StorePlan.Proofs.Value.Finite

/-
What the encoding of a value keeps. A value of a known kind can be told from its
encoding, apart from what a timestamp has below a millisecond, which is not
written. Only a number that is not finite has no encoding.

The text of a document determines the document (`Json.text_inj`), so it is
enough that the documents of two values differ (`Document.encode_inj`).
-/

namespace StorePlan

open Number

namespace Value

/-! ## Values of one kind -/

mutual

/-- Values of one variant; of lists, item by item. -/
inductive SameKind : Value → Value → Prop where
  | null : SameKind null null
  | boolean (a b : Bool) : SameKind (boolean a) (boolean b)
  | tinyInt (i j : Int8) : SameKind (tinyInt i) (tinyInt j)
  | smallInt (i j : Int16) : SameKind (smallInt i) (smallInt j)
  | integer (i j : Int32) : SameKind (integer i) (integer j)
  | bigInt (i j : Int64) : SameKind (bigInt i) (bigInt j)
  | decimal (x y : Decimal) : SameKind (decimal x) (decimal y)
  | real (x y : Single) : SameKind (real x) (real y)
  | double (x y : Double) : SameKind (double x) (double y)
  | string (s t : String) : SameKind (string s) (string t)
  | date (d e : Date) : SameKind (date d) (date e)
  | time (t u : TimeOfDay) : SameKind (time t) (time u)
  | timestamp (t u : Timestamp) : SameKind (timestamp t) (timestamp u)
  | array {vs ws : List Value} : SameKinds vs ws → SameKind (array vs) (array ws)

/-- Lists of one length with values of one kind in each place. -/
inductive SameKinds : List Value → List Value → Prop where
  | nil : SameKinds [] []
  | cons {v w : Value} {vs ws : List Value} : SameKind v w → SameKinds vs ws →
    SameKinds (v :: vs) (w :: ws)

end

/-! ## Whole milliseconds -/

mutual

/-- The value with its timestamps cut to whole milliseconds. -/
def toMilliseconds : Value → Value
  | timestamp t => timestamp t.toMilliseconds
  | array items => array (allToMilliseconds items)
  | v => v
termination_by structural v => v

def allToMilliseconds : List Value → List Value
  | [] => []
  | v :: rest => v.toMilliseconds :: allToMilliseconds rest
termination_by structural vs => vs

end

end Value

namespace Document

/-! ## Encodings -/

theorem encodeDouble_eq_ok {x : Double} {original : Value} {j : Json} :
    encodeDouble x original = .ok j ↔ x.isFinite = true ∧ j = .double x := by
  unfold encodeDouble
  split_ifs with h <;> simp [h, eq_comm]

theorem encode_array_eq_ok {items : List Value} {j : Json} :
    encode (.array items) = .ok j ↔ ∃ js, encodeAll items = .ok js ∧ j = .array js := by
  rw [encode]
  cases encodeAll items <;> simp [Except.map, eq_comm]

theorem encodeAll_cons_eq_ok {v : Value} {rest : List Value} {js : List Json} :
    encodeAll (v :: rest) = .ok js ↔
      ∃ j, encode v = .ok j ∧ ∃ others, encodeAll rest = .ok others ∧ j :: others = js := by
  simp only [encodeAll, bind_eq_ok, pure_eq_ok]

theorem isExact_field {name s : String} : (Json.field name (.string s)).IsExact :=
  .object (List.forall_mem_singleton.2 (.string s))

mutual

/-- Numbers in an encoding are integers or finite. -/
theorem isExact_encode : ∀ (v : Value) {j : Json}, encode v = .ok j → j.IsExact
  | .null, _, h => by cases h; exact .null
  | .boolean b, _, h => by cases h; exact .bool b
  | .tinyInt i, _, h => by cases h; exact .integer _
  | .smallInt i, _, h => by cases h; exact .integer _
  | .integer i, _, h => by cases h; exact .integer _
  | .bigInt i, _, h => by cases h; exact .integer _
  | .decimal d, _, h => by cases h; exact isExact_field
  | .real x, _, h => by
    obtain ⟨hx, rfl⟩ := encodeDouble_eq_ok.1 h
    exact .double hx
  | .double x, _, h => by
    obtain ⟨hx, rfl⟩ := encodeDouble_eq_ok.1 h
    exact .double hx
  | .string s, _, h => by cases h; exact .string s
  | .date d, _, h => by cases h; exact isExact_field
  | .time t, _, h => by cases h; exact .string _
  | .timestamp t, _, h => by cases h; exact isExact_field
  | .array items, _, h => by
    obtain ⟨js, hjs, rfl⟩ := encode_array_eq_ok.1 h
    exact .array (isExact_encodeAll items hjs)

theorem isExact_encodeAll : ∀ (vs : List Value) {js : List Json}, encodeAll vs = .ok js →
    ∀ j ∈ js, j.IsExact
  | [], _, h => by cases h; exact List.forall_mem_nil _
  | v :: rest, _, h => by
    obtain ⟨j, hj, js, hjs, rfl⟩ := encodeAll_cons_eq_ok.1 h
    exact List.forall_mem_cons.2 ⟨isExact_encode v hj, isExact_encodeAll rest hjs⟩

end

mutual

/-- What is finer than a millisecond is not encoded. -/
theorem encode_toMilliseconds : ∀ v : Value, encode v.toMilliseconds = encode v
  | .timestamp t => by
    have hcut : t.toMilliseconds.toMilliseconds = t.toMilliseconds := by
      simp [Timestamp.toMilliseconds]
    rw [Value.toMilliseconds, encode, encode, dateWrapper, dateWrapper,
      Timestamp.instantText_eq_iff.2 hcut]
  | .array items => by rw [Value.toMilliseconds, encode, encode, encodeAll_toMilliseconds items]
  | .null | .boolean _ | .tinyInt _ | .smallInt _ | .integer _ | .bigInt _ | .decimal _
  | .real _ | .double _ | .string _ | .date _ | .time _ => rfl

theorem encodeAll_toMilliseconds : ∀ vs : List Value,
    encodeAll (Value.allToMilliseconds vs) = encodeAll vs
  | [] => rfl
  | v :: rest => by
    rw [Value.allToMilliseconds, encodeAll, encodeAll, encode_toMilliseconds v,
      encodeAll_toMilliseconds rest]

end

/-! ## Telling values apart -/

theorem field_inj {name s t : String} (h : Json.field name (.string s) = .field name (.string t)) :
    s = t := by
  simpa [Json.field] using h

mutual

/-- Values of one kind with one encoding are the same to the millisecond. -/
theorem encode_inj : ∀ {v w : Value}, v.SameKind w → ∀ {j : Json}, encode v = .ok j →
    encode w = .ok j → v.toMilliseconds = w.toMilliseconds
  | _, _, .null, _, _, _ => rfl
  | _, _, .boolean a b, _, hv, hw => by cases hv; cases hw; rfl
  | _, _, .tinyInt i k, _, hv, hw => by
    cases hv
    rw [Int8.toInt_inj.1 (Json.integer.inj (Except.ok.inj hw))]
  | _, _, .smallInt i k, _, hv, hw => by
    cases hv
    rw [Int16.toInt_inj.1 (Json.integer.inj (Except.ok.inj hw))]
  | _, _, .integer i k, _, hv, hw => by
    cases hv
    rw [Int32.toInt_inj.1 (Json.integer.inj (Except.ok.inj hw))]
  | _, _, .bigInt i k, _, hv, hw => by
    cases hv
    rw [Int64.toInt_inj.1 (Json.integer.inj (Except.ok.inj hw))]
  | _, _, .decimal x y, _, hv, hw => by
    cases hv
    rw [Decimal.text_inj (field_inj (Except.ok.inj hw))]
  | _, _, .real x y, _, hv, hw => by
    obtain ⟨hx, rfl⟩ := encodeDouble_eq_ok.1 hv
    obtain ⟨hy, hxy⟩ := encodeDouble_eq_ok.1 hw
    rw [BinaryFloat.isFinite_convert BinaryFormat.double_roomy
      BinaryFormat.single_fitsIn_double] at hx hy
    rw [BinaryFloat.convert_inj BinaryFormat.single_roomy BinaryFormat.double_roomy
      BinaryFormat.single_fitsIn_double hx hy (Json.double.inj hxy)]
  | _, _, .double x y, _, hv, hw => by
    obtain ⟨-, rfl⟩ := encodeDouble_eq_ok.1 hv
    obtain ⟨-, hxy⟩ := encodeDouble_eq_ok.1 hw
    rw [Json.double.inj hxy]
  | _, _, .string s t, _, hv, hw => by cases hv; cases hw; rfl
  | _, _, .date d e, _, hv, hw => by
    cases hv
    rw [Date.midnight_inj (field_inj (Except.ok.inj hw))]
  | _, _, .time t u, _, hv, hw => by
    cases hv
    rw [TimeOfDay.text_inj (Json.string.inj (Except.ok.inj hw))]
  | _, _, .timestamp t u, _, hv, hw => by
    cases hv
    have hcut := Timestamp.instantText_eq_iff.1 (field_inj (Except.ok.inj hw))
    rw [Value.toMilliseconds, Value.toMilliseconds, hcut]
  | _, _, .array hitems, _, hv, hw => by
    obtain ⟨js, hjs, rfl⟩ := encode_array_eq_ok.1 hv
    obtain ⟨ks, hks, heq⟩ := encode_array_eq_ok.1 hw
    obtain rfl := Json.array.inj heq
    rw [Value.toMilliseconds, Value.toMilliseconds, encodeAll_inj hitems hjs hks]

theorem encodeAll_inj : ∀ {vs ws : List Value}, Value.SameKinds vs ws → ∀ {js : List Json},
    encodeAll vs = .ok js → encodeAll ws = .ok js →
      Value.allToMilliseconds vs = Value.allToMilliseconds ws
  | _, _, .nil, _, _, _ => rfl
  | _, _, .cons hkind hkinds, _, hvs, hws => by
    obtain ⟨j, hj, js, hjs, rfl⟩ := encodeAll_cons_eq_ok.1 hvs
    obtain ⟨k, hk, ks, hks, heq⟩ := encodeAll_cons_eq_ok.1 hws
    obtain ⟨rfl, rfl⟩ := List.cons.inj heq
    rw [Value.allToMilliseconds, Value.allToMilliseconds, encode_inj hkind hj hk,
      encodeAll_inj hkinds hjs hks]

end

/-! ## What has no encoding -/

theorem exists_encodeAll_iff : ∀ vs : List Value,
    (∃ js, encodeAll vs = .ok js) ↔ ∀ v ∈ vs, ∃ j, encode v = .ok j
  | [] => iff_of_true ⟨[], rfl⟩ (List.forall_mem_nil _)
  | v :: rest => by
    rw [List.forall_mem_cons, ← exists_encodeAll_iff rest]
    constructor
    · rintro ⟨_, h⟩
      obtain ⟨j, hj, js, hjs, -⟩ := encodeAll_cons_eq_ok.1 h
      exact ⟨⟨j, hj⟩, js, hjs⟩
    · rintro ⟨⟨j, hj⟩, js, hjs⟩
      exact ⟨j :: js, encodeAll_cons_eq_ok.2 ⟨j, hj, js, hjs, rfl⟩⟩

/-- Just the values with finite numbers in them have an encoding. -/
theorem exists_encode_iff (v : Value) : (∃ j, encode v = .ok j) ↔ v.AllFinite := by
  have hdouble {x : Double} {original : Value} :
      (∃ j, encodeDouble x original = .ok j) ↔ x.isFinite = true := by
    simp [encodeDouble_eq_ok]
  induction v using Value.induction_items with
  | scalar v hv =>
    rw [Value.allFinite_iff_of_not_isArray hv]
    cases v with
    | array items => exact absurd ⟨items, rfl⟩ hv
    | real x =>
      rw [encode, hdouble, BinaryFloat.isFinite_convert BinaryFormat.double_roomy
        BinaryFormat.single_fitsIn_double, Value.isNonFinite, Bool.not_eq_false']
    | double x => rw [encode, hdouble, Value.isNonFinite, Bool.not_eq_false']
    | _ => exact iff_of_true ⟨_, rfl⟩ rfl
  | list items ih =>
    have hitems : (∃ j, encode (.array items) = .ok j) ↔ ∃ js, encodeAll items = .ok js := by
      simp [encode_array_eq_ok]
    rw [hitems, exists_encodeAll_iff, Value.allFinite_array_iff]
    exact forall₂_congr ih

theorem exists_error_iff (v : Value) :
    (∃ e, encode v = .error e) ↔ v.Somewhere (·.isNonFinite = true) := by
  have hfinite := exists_encode_iff v
  rw [Value.AllFinite] at hfinite
  cases hv : encode v with
  | ok j => simpa [hv] using hfinite
  | error e => simpa [hv] using hfinite

/-- A value has no encoding exactly if somewhere in it is a number that is not finite. Its encoding
has the same text as that of another value of its kind exactly if the two agree to the
millisecond. -/
theorem encode_text_eq_iff (v : Value) :
    ((∃ e, encode v = .error e) ↔ v.Somewhere (·.isNonFinite = true)) ∧
    ∀ {w : Value} {j k : Json}, v.SameKind w → encode v = .ok j → encode w = .ok k →
      (j.text = k.text ↔ v.toMilliseconds = w.toMilliseconds) := by
  refine ⟨exists_error_iff v, fun {w j k} hkind hv hw => ⟨fun h => ?_, fun h => ?_⟩⟩
  · obtain rfl := Json.text_inj (isExact_encode v hv) (isExact_encode w hw) h
    exact encode_inj hkind hv hw
  · rw [← encode_toMilliseconds, h, encode_toMilliseconds, hw] at hv
    cases hv
    rfl

/-- An instant on a leap day, with this many microseconds behind the second. -/
def leapAfternoon (microsecond : Fin 1000000) : Timestamp :=
  ⟨⟨2024, 2, 29, by decide⟩, ⟨13, 45, 10, microsecond * 1000, by omega⟩⟩

/-- Instants in one millisecond, beside decimals of different scales. -/
theorem encode_text_ne_scales :
    let v : Value := .array [.timestamp (leapAfternoon 100), .decimal ⟨150, 2, by decide⟩]
    let w : Value := .array [.timestamp (leapAfternoon 200), .decimal ⟨15, 1, by decide⟩]
    ∃ j k, v.SameKind w ∧ encode v = .ok j ∧ encode w = .ok k ∧
      (j.text = k.text ↔ v.toMilliseconds = w.toMilliseconds) ∧ j.text ≠ k.text := by
  intro v w
  have hkind : v.SameKind w := .array (.cons (.timestamp ..) (.cons (.decimal ..) .nil))
  have htext := (encode_text_eq_iff v).2 hkind rfl rfl
  refine ⟨_, _, hkind, rfl, rfl, htext, fun h => ?_⟩
  have hcut := htext.1 h
  simp [v, w, Value.toMilliseconds, Value.allToMilliseconds] at hcut

/-- The documents of two different instants in one millisecond have the same text. -/
theorem encode_text_eq_instants :
    let v : Value := .array [.timestamp (leapAfternoon 100)]
    let w : Value := .array [.timestamp (leapAfternoon 200)]
    ∃ j k, v.SameKind w ∧ encode v = .ok j ∧ encode w = .ok k ∧ j.text = k.text ∧
      v ≠ w ∧ v.eqv w = false := by
  intro v w
  have hcut : (leapAfternoon 100).instantText = (leapAfternoon 200).instantText :=
    Timestamp.instantText_eq_iff.2 (by decide +kernel)
  have hdiffer : v.eqv w = false := by decide +kernel
  refine ⟨_, _, .array (.cons (.timestamp ..) .nil), rfl, rfl, ?_, ?_, hdiffer⟩
  · rw [dateWrapper, dateWrapper, hcut]
  · intro h
    have htime := Value.timestamp.inj (List.cons.inj (Value.array.inj h)).1
    exact absurd htime (by decide +kernel)

end Document

end StorePlan
