import StorePlan.Proofs.Value.Places

/-
Which types allow for all values of which others (`covers_iff`). Whether a type
allows for a value that is no array is seen from the type's name alone
(`conformsTo_iff_name`), so parameters do not matter; arrays are compared by
their items. Of some types there are no values but `NULL`.
-/

namespace StorePlan

namespace Value

variable {v : Value} {t : DataType}

/-- The names of the types that a value other than `NULL` may belong to. -/
def typeNames : Value → List String
  | null => []
  | boolean _ => ["BOOLEAN"]
  | tinyInt _ => ["TINYINT"]
  | smallInt _ => ["SMALLINT"]
  | integer _ => ["INTEGER"]
  | bigInt _ => ["BIGINT"]
  | decimal _ => ["DECIMAL"]
  | real _ => ["REAL"]
  | double _ => ["DOUBLE"]
  | string _ => ["CHAR", "VARCHAR"]
  | date _ => ["DATE"]
  | time _ => ["TIME"]
  | timestamp _ => ["TIMESTAMP"]
  | array _ => ["ARRAY"]

theorem allConformTo_iff {vs : List Value} :
    allConformTo vs t = true ↔ ∀ v ∈ vs, v.conformsTo t = true := by
  induction vs with
  | nil => simp [allConformTo]
  | cons v rest ih => simp [allConformTo, ih]

@[simp] theorem conformsTo_null (t : DataType) : null.conformsTo t = true := by
  cases t <;> rfl

theorem isNull_iff : v.isNull = true ↔ v = .null := by
  cases v <;> simp [isNull]

theorem conformsTo_array_iff {items : List Value} :
    (array items).conformsTo t = true ↔
      ∃ u, t = .array u ∧ ∀ v ∈ items, v.conformsTo u = true := by
  cases t with
  | array u => simp [conformsTo, allConformTo_iff]
  | _ => simp [conformsTo]

/-- A value that is no array is told to belong to a type by the type's name. -/
theorem conformsTo_iff_name (harray : ¬v.IsArray) (hnull : v.isNull = false) :
    v.conformsTo t = true ↔ t.name ∈ v.typeNames := by
  cases v with
  | null => cases hnull
  | array items => exact absurd ⟨items, rfl⟩ harray
  | _ =>
    cases t with
    | integer w | float w | multimedia w => cases w <;> simp [conformsTo, DataType.name, typeNames]
    | _ => simp [conformsTo, DataType.name, typeNames]

end Value

namespace DataType

open Value

variable {t u : DataType} {v : Value}

/-- Whether there are no values of the type but `NULL`. -/
def isVacant : DataType → Bool
  | interval _ | binary | multimedia _ | json | null => true
  | _ => false

/-- Whether all values of another type are values of the type. -/
def covers : DataType → DataType → Bool
  | array t, array u => t.covers u
  | t, u => u.isVacant || (t.isString && u.isString) || t.name == u.name

theorem name_eq_array_iff : t.name = "ARRAY" ↔ ∃ u, t = .array u := by
  cases t with
  | integer w | float w | multimedia w => cases w <;> simp [name]
  | _ => simp [name]

theorem isString_iff : t.isString = true ↔ t.name ∈ ["CHAR", "VARCHAR"] := by
  cases t with
  | integer w | float w | multimedia w => cases w <;> simp [isString, name]
  | _ => simp [isString, name]

theorem isNull_of_isVacant (h : t.isVacant = true) (hv : v.conformsTo t = true) :
    v.isNull = true := by
  cases t with
  | interval | binary | multimedia | json | null => cases v <;> first | rfl | cases hv
  | _ => cases h

/-- Of every other type there is a value. -/
theorem exists_of_not_isVacant (h : t.isVacant = false) :
    ∃ v : Value, v.conformsTo t = true ∧ v.isNull = false := by
  have day : Date := ⟨1970, 1, 1, by decide⟩
  have time : TimeOfDay := ⟨0, 0, 0, 0, by decide⟩
  cases t with
  | boolean => exact ⟨.boolean true, rfl, rfl⟩
  | integer w =>
    cases w with
    | bits8 => exact ⟨.tinyInt 0, rfl, rfl⟩
    | bits16 => exact ⟨.smallInt 0, rfl, rfl⟩
    | bits32 => exact ⟨.integer 0, rfl, rfl⟩
    | bits64 => exact ⟨.bigInt 0, rfl, rfl⟩
  | decimal => exact ⟨.decimal (.ofInt64 0), rfl, rfl⟩
  | float w =>
    cases w with
    | bits32 => exact ⟨.real .nan, rfl, rfl⟩
    | bits64 => exact ⟨.double .nan, rfl, rfl⟩
  | char | string => exact ⟨.string "", rfl, rfl⟩
  | date => exact ⟨.date day, rfl, rfl⟩
  | time => exact ⟨.time time, rfl, rfl⟩
  | timestamp => exact ⟨.timestamp ⟨day, time⟩, rfl, rfl⟩
  | array t => exact ⟨.array [], rfl, rfl⟩
  | _ => cases h

/-- Two types of one value have the same name, or are both types of strings. -/
theorem name_eq_or_isString (ht : t.name ∈ v.typeNames) (hu : u.name ∈ v.typeNames) :
    (t.isString = true ∧ u.isString = true) ∨ t.name = u.name := by
  cases v with
  | string s => exact .inl ⟨isString_iff.2 ht, isString_iff.2 hu⟩
  | null => cases ht
  | _ => exact .inr ((List.mem_singleton.1 ht).trans (List.mem_singleton.1 hu).symm)

theorem mem_typeNames_of_isString (ht : t.isString = true) (hu : u.isString = true)
    (h : u.name ∈ v.typeNames) : t.name ∈ v.typeNames := by
  rw [isString_iff] at ht hu
  cases v with
  | string s => exact ht
  | null => cases h
  | _ =>
    rw [List.mem_singleton.1 h] at hu
    exact absurd hu (by decide)

theorem conformsTo_of_covers (h : t.covers u = true) (hv : v.conformsTo u = true) :
    v.conformsTo t = true := by
  fun_induction covers t u generalizing v with
  | case1 t u ih =>
    cases v with
    | null => exact conformsTo_null _
    | array items =>
      obtain ⟨_, hu, hitems⟩ := conformsTo_array_iff.1 hv
      cases hu
      exact conformsTo_array_iff.2 ⟨t, rfl, fun v hmem => ih h (hitems v hmem)⟩
    | _ => cases hv
  | case2 t u harrays =>
    simp only [Bool.or_eq_true, Bool.and_eq_true, beq_iff_eq, or_assoc] at h
    cases hnull : v.isNull with
    | true =>
      rw [isNull_iff.1 hnull]
      exact conformsTo_null t
    | false =>
      by_cases harray : v.IsArray
      · -- The type of an array has no other name, and is no type of strings.
        obtain ⟨items, rfl⟩ := harray
        obtain ⟨d, rfl, -⟩ := conformsTo_array_iff.1 hv
        rcases h with h | h | h
        · cases h
        · cases h.2
        · obtain ⟨c, rfl⟩ := name_eq_array_iff.1 h
          exact absurd rfl (harrays c d rfl)
      · have hname := (conformsTo_iff_name harray hnull).1 hv
        rw [conformsTo_iff_name harray hnull]
        rcases h with h | ⟨ht, hu⟩ | h
        · exact absurd (isNull_of_isVacant h hv) (by simp [hnull])
        · exact mem_typeNames_of_isString ht hu hname
        · rwa [h]

/-- One type covers another exactly if all values of the other are values of it. -/
theorem covers_iff :
    t.covers u = true ↔ ∀ v : Value, v.conformsTo u = true → v.conformsTo t = true := by
  refine ⟨fun h v hv => conformsTo_of_covers h hv, fun h => ?_⟩
  fun_induction covers t u with
  | case1 t u ih =>
    refine ih fun v hv => ?_
    have hsingle := h (.array [v]) (conformsTo_array_iff.2 ⟨u, rfl, by simpa using hv⟩)
    obtain ⟨_, ht, hitems⟩ := conformsTo_array_iff.1 hsingle
    cases ht
    exact hitems v (List.mem_singleton.2 rfl)
  | case2 t u harrays =>
    simp only [Bool.or_eq_true, Bool.and_eq_true, beq_iff_eq, or_assoc]
    cases hvacant : u.isVacant with
    | true => exact .inl rfl
    | false =>
      refine .inr ?_
      obtain ⟨v, hv, hnull⟩ := exists_of_not_isVacant hvacant
      by_cases harray : v.IsArray
      · obtain ⟨items, rfl⟩ := harray
        obtain ⟨d, rfl, -⟩ := conformsTo_array_iff.1 hv
        obtain ⟨c, rfl, -⟩ := conformsTo_array_iff.1 (h _ hv)
        exact absurd rfl (harrays c d rfl)
      · exact name_eq_or_isString ((conformsTo_iff_name harray hnull).1 (h v hv))
          ((conformsTo_iff_name harray hnull).1 hv)

/-- Types of one name cover each other, arrays if their items do. -/
theorem covers_iff_of_name_eq (h : t.name = u.name) :
    t.covers u = true ↔ ∀ c d, t = .array c → u = .array d → c.covers d = true := by
  constructor
  · rintro hcovers c d rfl rfl
    exact hcovers
  · intro hitems
    unfold covers
    split
    · exact hitems _ _ rfl rfl
    · simp [h]

end DataType

end StorePlan
