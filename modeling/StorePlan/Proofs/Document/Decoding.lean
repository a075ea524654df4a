import StorePlan.Json.Fields
import StorePlan.Proofs.Document.Encoding
import StorePlan.Proofs.Document.LikePattern

/-
What the operands of filter documents stand for. A document value stands for a
value of the field's type, of which there is at most one (`decode`), and a
regular expression for the `LIKE` pattern with the same pieces (`likePattern?`).

The encoding of a value of the type stands for that value, cut to whole
milliseconds (`decode_encode`). So an operand is not always the literal that was
encoded: two timestamps of one millisecond are one operand.
-/

namespace StorePlan.Document

open Number

/-! ## Scalars -/

/-- The text inside of a wrapper. -/
def unwrap? (name : String) : Json → Option String
  | .object [(n, .string s)] => if n = name then some s else none
  | _ => none

theorem unwrap?_field (name s : String) : unwrap? name (.field name (.string s)) = some s :=
  if_pos rfl

/-- The instant inside of its wrapper. -/
def instant? (j : Json) : Option Timestamp := (unwrap? "$date" j).bind Timestamp.ofInstant?

theorem instant?_dateWrapper (t : Timestamp) :
    instant? (dateWrapper t) = some t.toMilliseconds := by
  rw [instant?, dateWrapper, unwrap?_field, Option.bind_some, Timestamp.ofInstant?_instantText]

/-- The number of 32 bits that one of 64 bits is. -/
def narrow? (x : Double) : Option Single :=
  if (x.convert : Single).convert = x then some x.convert else none

theorem narrow?_convert {x : Single} (h : x.isFinite = true) : narrow? x.convert = some x := by
  rw [narrow?, BinaryFloat.convert_convert BinaryFormat.single_roomy BinaryFormat.double_roomy
    BinaryFormat.single_fitsIn_double h, if_pos rfl]

/-- A number that is no integer. -/
def double? : Json → Option Double
  | .double x => some x
  | _ => none

/-- The integer of a width that a document value stands for. -/
def decodeInteger (j : Json) : IntWidth → Option Value
  | .bits8 => (j.intWithin? (-128) 127).map fun i => .tinyInt (.ofInt i)
  | .bits16 => (j.intWithin? (-32768) 32767).map fun i => .smallInt (.ofInt i)
  | .bits32 => (j.intWithin? (-2147483648) 2147483647).map fun i => .integer (.ofInt i)
  | .bits64 =>
    (j.intWithin? (-9223372036854775808) 9223372036854775807).map fun i => .bigInt (.ofInt i)

/-- The floating-point number of a width that a document value stands for. -/
def decodeFloat (j : Json) : FloatWidth → Option Value
  | .bits32 => ((double? j).bind narrow?).map .real
  | .bits64 => (double? j).map .double

/-- The value of a type other than an array's that a document value stands for. -/
def decodeScalar (t : DataType) (j : Json) : Option Value :=
  match t with
  | .boolean => j.bool?.map .boolean
  | .integer width => decodeInteger j width
  | .decimal .. => ((unwrap? "$numberDecimal" j).bind Decimal.ofText?).map .decimal
  | .float width => decodeFloat j width
  | .char _ | .string _ => j.string?.map .string
  | .date => (instant? j).bind fun t => if t = t.date.midnight then some (.date t.date) else none
  | .time => (j.string?.bind TimeOfDay.ofText?).map .time
  | .timestamp => (instant? j).map .timestamp
  | .interval _ | .binary | .multimedia _ | .json | .array _ | .null => none

/-- The value that a document value stands for in a field of a type. -/
def decode : DataType → Json → Option Value
  | _, .null => some .null
  | .array component, .array items => (items.mapM (decode component)).map .array
  | t, j => decodeScalar t j

theorem decode_null (t : DataType) : decode t .null = some .null := by
  rw [decode]

theorem decode_eq_decodeScalar {t : DataType} {j : Json} (ht : ∀ component, t ≠ .array component)
    (hj : j ≠ .null) : decode t j = decodeScalar t j := by
  rw [decode]
  · exact hj
  · exact fun component _ h => absurd h (ht component)

/-- Only `null` stands for `NULL`. -/
theorem isNull_of_decode {t : DataType} {j : Json} {w : Value}
    (ht : ∀ component, t ≠ .array component) (hj : j ≠ .null) (h : decode t j = some w) :
    w.isNull = false := by
  rw [decode_eq_decodeScalar ht hj] at h
  cases t with
  | integer width => cases width <;> obtain ⟨_, -, rfl⟩ := Option.map_eq_some_iff.1 h <;> rfl
  | float width => cases width <;> obtain ⟨_, -, rfl⟩ := Option.map_eq_some_iff.1 h <;> rfl
  | boolean | decimal | char | string | time | timestamp =>
    obtain ⟨_, -, rfl⟩ := Option.map_eq_some_iff.1 h
    rfl
  | date =>
    obtain ⟨u, -, h⟩ := Option.bind_eq_some_iff.1 h
    split_ifs at h
    cases h
    rfl
  | _ => cases h

/-- In a field of a type that has no components, an operand stands for the same value as in one of
the type that any value in the field has by itself. -/
theorem decode_naturalType {v : Value} {t : DataType} (hnull : v.isNull = false)
    (ht : ∀ component, t ≠ .array component) (hv : v.conformsTo t = true) (j : Json) :
    decode v.naturalType j = decode t j := by
  by_cases hj : j = .null
  · rw [hj, decode_null, decode_null]
  cases v with
  | null => cases hnull
  | tinyInt | smallInt | integer | bigInt =>
    cases t with
    | integer w =>
      obtain rfl := eq_of_beq hv
      rfl
    | _ => cases hv
  | real | double =>
    cases t with
    | float w =>
      obtain rfl := eq_of_beq hv
      rfl
    | _ => cases hv
  | array items =>
    cases t with
    | array component => exact absurd rfl (ht component)
    | _ => cases hv
  | _ =>
    rw [decode_eq_decodeScalar (by simp [Value.naturalType]) hj, decode_eq_decodeScalar ht hj]
    cases t <;> first | rfl | cases hv

/-! ## Encodings -/

theorem intWithin?_of_mem {least most i : Int} (hleast : least ≤ i) (hmost : i ≤ most) :
    (Json.integer i).intWithin? least most = some i :=
  if_pos ⟨hleast, hmost⟩

theorem toMilliseconds_midnight (d : Date) : d.midnight.toMilliseconds = d.midnight := by
  simp [Timestamp.toMilliseconds, Date.midnight]

/-- The encoding of a scalar stands for the scalar. -/
theorem decodeScalar_encode {v : Value} {t : DataType} {j : Json} (hnull : v ≠ .null)
    (harray : ∀ items, v ≠ .array items) (ht : v.conformsTo t = true) (h : encode v = .ok j) :
    decodeScalar t j = some v.toMilliseconds := by
  cases v with
  | null => exact absurd rfl hnull
  | array items => exact absurd rfl (harray items)
  | boolean b =>
    cases h
    cases t with
    | boolean => rfl
    | _ => cases ht
  | tinyInt i | smallInt i | integer i | bigInt i =>
    cases h
    cases t with
    | integer w =>
      obtain rfl := eq_of_beq ht
      have hleast := i.le_toInt
      have hmost := i.toInt_lt
      rw [decodeScalar, decodeInteger, intWithin?_of_mem (by omega) (by omega)]
      simp [Value.toMilliseconds]
    | _ => cases ht
  | decimal d =>
    cases h
    cases t with
    | decimal =>
      rw [decodeScalar, unwrap?_field, Option.bind_some, Decimal.ofText?_text]
      rfl
    | _ => cases ht
  | real x =>
    obtain ⟨hx, rfl⟩ := encodeDouble_eq_ok.1 h
    rw [BinaryFloat.isFinite_convert BinaryFormat.double_roomy
      BinaryFormat.single_fitsIn_double] at hx
    cases t with
    | float w =>
      obtain rfl := eq_of_beq ht
      rw [decodeScalar, decodeFloat, double?, Option.bind_some, narrow?_convert hx]
      rfl
    | _ => cases ht
  | double x =>
    obtain ⟨-, rfl⟩ := encodeDouble_eq_ok.1 h
    cases t with
    | float w =>
      obtain rfl := eq_of_beq ht
      rfl
    | _ => cases ht
  | string s =>
    cases h
    cases t with
    | char | string => rfl
    | _ => cases ht
  | date d =>
    cases h
    cases t with
    | date =>
      have hmidnight : d.midnight = d.midnight.date.midnight := rfl
      rw [decodeScalar, instant?_dateWrapper, toMilliseconds_midnight, Option.bind_some,
        if_pos hmidnight]
      rfl
    | _ => cases ht
  | time u =>
    cases h
    cases t with
    | time =>
      rw [decodeScalar, Json.string?, Option.bind_some, TimeOfDay.ofText?_text]
      rfl
    | _ => cases ht
  | timestamp u =>
    cases h
    cases t with
    | timestamp =>
      rw [decodeScalar, instant?_dateWrapper]
      rfl
    | _ => cases ht

/-- Only `NULL` is encoded as `null`. -/
theorem encode_ne_null {v : Value} {j : Json} (hnull : v ≠ .null) (h : encode v = .ok j) :
    j ≠ .null := by
  rintro rfl
  cases v with
  | null => exact hnull rfl
  | real x | double x => cases (encodeDouble_eq_ok.1 h).2
  | array items =>
    obtain ⟨js, -, heq⟩ := encode_array_eq_ok.1 h
    cases heq
  | _ => cases h

/-- Encodings of values of a type stand for the values if each of them does. -/
theorem mapM_decode_encodeAll {component : DataType} {vs : List Value}
    (hdecode : ∀ v ∈ vs, ∀ {t : DataType} {j : Json}, v.conformsTo t = true → encode v = .ok j →
      decode t j = some v.toMilliseconds) :
    ∀ {js : List Json}, Value.allConformTo vs component = true → encodeAll vs = .ok js →
      js.mapM (decode component) = some (Value.allToMilliseconds vs) := by
  induction vs with
  | nil =>
    intro js _ h
    cases h
    rfl
  | cons v rest ih =>
    intro js ht h
    obtain ⟨j, hj, js, hjs, rfl⟩ := encodeAll_cons_eq_ok.1 h
    obtain ⟨hv, hrest⟩ := (Bool.and_eq_true _ _).mp ht
    rw [List.forall_mem_cons] at hdecode
    rw [List.mapM_cons, hdecode.1 hv hj, ih hdecode.2 hrest hjs]
    rfl

/-- The encoding of a value stands for the value, cut to whole milliseconds. -/
theorem decode_encode (v : Value) : ∀ {t : DataType} {j : Json}, v.conformsTo t = true →
    encode v = .ok j → decode t j = some v.toMilliseconds := by
  induction v using Value.induction_items with
  | scalar v hv =>
    intro t j ht h
    by_cases hnull : v = .null
    · subst hnull
      cases h
      exact decode_null t
    · have harray (items : List Value) : v ≠ .array items := fun heq => hv ⟨items, heq⟩
      have ht' (component : DataType) : t ≠ .array component := by
        rintro rfl
        cases v with
        | null => exact hnull rfl
        | array items => exact harray items rfl
        | _ => cases ht
      rw [decode_eq_decodeScalar ht' (encode_ne_null hnull h),
        decodeScalar_encode hnull harray ht h]
  | list items ih =>
    intro t j ht h
    obtain ⟨js, hjs, rfl⟩ := encode_array_eq_ok.1 h
    cases t with
    | array component =>
      rw [decode, mapM_decode_encodeAll ih ht hjs]
      rfl
    | _ => cases ht

/-! ## Patterns -/

/-- The character of a pattern that becomes a piece. -/
def patternChar? : Regex.Piece → Option Char
  | ⟨.any, true⟩ => some '%'
  | ⟨.any, false⟩ => some '_'
  | ⟨.exactly c, false⟩ => if c = '%' ∨ c = '_' then none else some c
  | _ => none

/-- The pattern that a regular expression stands for, between its anchors. -/
def likePattern? (regex : String) : Option String := do
  match ← Regex.read? regex.toList with
  | ⟨.start, false⟩ :: pieces =>
    if pieces.getLast? = some ⟨.stop, false⟩ then
      (pieces.dropLast.mapM patternChar?).map String.ofList
    else none
  | _ => none

theorem patternChar?_patternPiece (c : Char) : patternChar? (patternPiece c) = some c := by
  unfold patternPiece
  split_ifs with hpercent hunderscore
  · rw [hpercent, patternChar?]
  · rw [hunderscore, patternChar?]
  · rw [patternChar?, if_neg (not_or.2 ⟨hpercent, hunderscore⟩)]

theorem mapM_patternChar?_patternPiece (cs : List Char) :
    (cs.map patternPiece).mapM patternChar? = some cs := by
  induction cs with
  | nil => rfl
  | cons c rest ih =>
    rw [List.map_cons, List.mapM_cons, patternChar?_patternPiece, ih]
    rfl

/-- The expression for a pattern stands for the pattern. -/
theorem likePattern?_regexOfLike (pattern : String) :
    likePattern? (regexOfLike pattern) = some pattern := by
  rw [likePattern?, read?_regexOfLike]
  change (if _ then _ else _) = _
  rw [patternPieces, List.getLast?_concat, if_pos rfl, List.dropLast_concat,
    mapM_patternChar?_patternPiece, Option.map_some, String.ofList_toList]

end StorePlan.Document
