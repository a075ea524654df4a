import StorePlan.Proofs.Outcome
import StorePlan.Value.Coercion

/-
Bringing a literal to another type never fails: a conversion is looked up by
the literal's own type, so it always meets a value of the kind it expects.
-/

namespace StorePlan

namespace Coercion

theorem row_of_resolve {source target : DataType} {c : Coercion}
    (h : resolve source target = .ok c) : Source.of? source = some c.row := by
  unfold resolve at h
  split at h
  · cases h
  · rename_i row hrow
    split at h
    · cases h
    · split at h
      · obtain rfl := Except.ok.inj h
        exact hrow
      · cases h

theorem column_of_resolve {source target : DataType} {c : Coercion}
    (h : resolve source target = .ok c) : Target.of? target = some c.column := by
  unfold resolve at h
  split at h
  · cases h
  · split at h
    · cases h
    · rename_i column hcolumn
      split at h
      · obtain rfl := Except.ok.inj h
        exact hcolumn
      · cases h

theorem conformsTo_ofNumber {target : DataType} {column : Target}
    (h : Target.of? target = some column) (n : Int64) :
    (ofNumber column n).conformsTo target = true := by
  cases target with
  | integer w | float w =>
    obtain rfl := Option.some.inj h
    cases w <;> rfl
  | boolean | decimal | string =>
    obtain rfl := Option.some.inj h
    rfl
  | _ => cases h

theorem conformsTo_ofTruth {target : DataType} {column : Target}
    (h : Target.of? target = some column) (b : Bool) :
    (ofTruth column b).conformsTo target = true := by
  cases target with
  | boolean | string =>
    obtain rfl := Option.some.inj h
    rfl
  | integer | decimal | float =>
    have hnumber := conformsTo_ofNumber h (if b then 1 else 0)
    obtain rfl := Option.some.inj h
    exact hnumber
  | _ => cases h

/-- What a conversion yields may stand where its target is declared. -/
theorem conformsTo_of_apply {target : DataType} {c : Coercion} {v w : Value}
    (hcolumn : Target.of? target = some c.column) (h : c.apply v = .ok w) :
    w.conformsTo target = true := by
  unfold apply at h
  split at h
  case h_1 =>
    obtain rfl := Except.ok.inj h
    rfl
  case h_2 =>
    obtain rfl := Except.ok.inj h
    exact conformsTo_ofTruth hcolumn _
  case h_6 => cases h
  all_goals
    obtain rfl := Except.ok.inj h
    exact conformsTo_ofNumber hcolumn _

/-- A conversion from the type that a value has by itself applies to the value. -/
theorem exists_apply_of_naturalType {c : Coercion} {v : Value}
    (h : Source.of? v.naturalType = some c.row) : ∃ w, c.apply v = .ok w := by
  cases v with
  | boolean | tinyInt | smallInt | integer =>
    have hrow : c.row = _ := (Option.some.inj h).symm
    simp [apply, hrow]
  | array items =>
    -- No conversion starts from a list: its elements are brought to a type one by one.
    cases items <;> simp [Value.naturalType, Source.of?] at h
  | _ => simp [Value.naturalType, Source.of?, IntWidth.bits] at h

end Coercion

namespace Value

theorem exists_coerceScalar (v : Value) (target : DataType) :
    ∃ w, v.coerceScalar target = .ok w := by
  unfold coerceScalar
  split
  · exact ⟨v, rfl⟩
  · split
    · rename_i c hc
      exact Coercion.exists_apply_of_naturalType (Coercion.row_of_resolve hc)
    · exact ⟨v, rfl⟩

mutual

theorem exists_coerce : ∀ (v : Value) (target : DataType), ∃ w, v.coerce target = .ok w
  | v, target => by
    cases v with
    | array items =>
      cases target with
      | array component =>
        obtain ⟨ws, hws⟩ := exists_coerceAll items component
        exact ⟨.array ws, by rw [coerce, hws]; rfl⟩
      | _ => exact exists_coerceScalar (.array items) _
    | _ => exact exists_coerceScalar _ target

theorem exists_coerceAll : ∀ (vs : List Value) (target : DataType),
    ∃ ws, coerceAll vs target = .ok ws
  | [], _ => ⟨[], rfl⟩
  | v :: rest, target => by
    obtain ⟨w, hw⟩ := exists_coerce v target
    obtain ⟨ws, hws⟩ := exists_coerceAll rest target
    exact ⟨w :: ws, by rw [coerceAll, hw, hws]; rfl⟩

end

/-- A value that is no array and may stand where a type is declared is left as it is. -/
theorem coerceScalar_of_conformsTo {v : Value} {target : DataType} (h : v.conformsTo target = true)
    (harray : ∀ items, v ≠ .array items) : v.coerceScalar target = .ok v := by
  unfold coerceScalar
  cases v with
  | array items => exact absurd rfl (harray items)
  | null => simp [isNull]
  | _ =>
    -- Decimals and strings have a less exact type by themselves, but no conversion from it.
    cases target <;> simp_all [conformsTo, naturalType, isNull, Coercion.resolve, Coercion.Source.of?]

mutual

/-- A literal that may stand where the type is declared is left as it is. -/
theorem coerce_of_conformsTo : ∀ {v : Value} {target : DataType}, v.conformsTo target = true →
    v.coerce target = .ok v
  | v, target, h => by
    cases v with
    | array items =>
      cases target with
      | array component => rw [coerce, coerceAll_of_conformsTo (by simpa [conformsTo] using h)]; rfl
      | _ => simp [conformsTo] at h
    | _ => exact coerceScalar_of_conformsTo h (by simp)

theorem coerceAll_of_conformsTo : ∀ {vs : List Value} {target : DataType},
    allConformTo vs target = true → coerceAll vs target = .ok vs
  | [], _, _ => rfl
  | v :: rest, target, h => by
    obtain ⟨hv, hrest⟩ : v.conformsTo target = true ∧ allConformTo rest target = true := by
      simpa [allConformTo] using h
    rw [coerceAll, coerce_of_conformsTo hv, coerceAll_of_conformsTo hrest]
    rfl

end

/-- A computation that goes on with the literal brought to a type fails only as it does then. -/
theorem errorsAre_coerce {ε : Type} {P : ε → Prop} (v : Value) (target : DataType)
    (wrap : CoercionError → ε) : ErrorsAre P ((v.coerce target).mapError wrap) := by
  obtain ⟨w, hw⟩ := v.exists_coerce target
  rw [hw]
  exact errorsAre_ok

end Value

end StorePlan
