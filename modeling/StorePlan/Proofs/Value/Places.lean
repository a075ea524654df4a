import StorePlan.Proofs.Value.Coercion

/-
What bringing a literal to a type does to it, place by place: lists stay lists
of the same length, and every other value is converted where the matrix has a
conversion from its own type to what the target is at that depth, and stays
where it has none.

Value and target are taken apart together, and either may end first. Below a
target that is no array nothing is converted (`brought_below`), and an array
type that faces no list has no conversion.
-/

namespace StorePlan

/-- The type some array levels down. -/
def DataType.below? : DataType → Nat → Option DataType
  | t, 0 => some t
  | .array t, depth + 1 => t.below? depth
  | _, _ + 1 => none
termination_by structural _ depth => depth

namespace Value

/-- What stands at a place of a value, which is a path of positions in nested lists. -/
def at? : Value → List Nat → Option Value
  | v, [] => some v
  | .array items, i :: path => items[i]?.bind (·.at? path)
  | _, _ :: _ => none
termination_by structural _ path => path

def IsArray (v : Value) : Prop := ∃ items, v = .array items

/-- What a part of a value becomes, where the target has this type or none. -/
inductive Brought : Value → Option DataType → Value → Prop where
  | array {items items' : List Value} {t : Option DataType} :
    items'.length = items.length → Brought (.array items) t (.array items')
  | converted {v w : Value} {t : DataType} {c : Coercion} :
    ¬v.IsArray → Coercion.resolve v.naturalType t = .ok c → c.apply v = .ok w →
      Brought v (some t) w
  | kept {v : Value} {t : Option DataType} :
    ¬v.IsArray → (∀ u, t = some u → ∀ c, Coercion.resolve v.naturalType u ≠ .ok c) →
      Brought v t v

/-! ## One value -/

/-- The conversion from a type to itself changes nothing. -/
theorem apply_of_resolve_self {v : Value} {c : Coercion}
    (h : Coercion.resolve v.naturalType v.naturalType = .ok c) : c.apply v = .ok v := by
  have hrow := Coercion.row_of_resolve h
  have hcolumn := Coercion.column_of_resolve h
  cases v with
  | boolean | tinyInt | smallInt | integer =>
    have hrow : c.row = _ := (Option.some.inj hrow).symm
    have hcolumn : c.column = _ := (Option.some.inj hcolumn).symm
    simp [Coercion.apply, hrow, hcolumn, Coercion.ofTruth, Coercion.ofNumber]
  | array items => cases items <;> cases hrow
  | _ => cases hrow

theorem not_resolve_null (t : DataType) (c : Coercion) : Coercion.resolve .null t ≠ .ok c := by
  simp [Coercion.resolve, Coercion.Source.of?]

theorem brought_coerceScalar {v w : Value} {t : DataType} (harray : ¬v.IsArray)
    (h : v.coerceScalar t = .ok w) : Brought v (some t) w := by
  unfold coerceScalar at h
  split at h
  · rename_i hself
    obtain rfl := Except.ok.inj h
    cases hresolve : Coercion.resolve v.naturalType t with
    | error e => exact .kept harray (by simp [hresolve])
    | ok c =>
      refine .converted harray hresolve ?_
      rcases hself with hnull | htype
      · cases v with
        | null => exact absurd hresolve (not_resolve_null t c)
        | _ => cases hnull
      · exact apply_of_resolve_self (htype ▸ hresolve)
  · split at h
    · rename_i c hresolve
      exact .converted harray hresolve h
    · rename_i e hresolve
      obtain rfl := Except.ok.inj h
      exact .kept harray (by simp [hresolve])

/-- Bringing what is no list to a type twice is bringing it there once. -/
theorem coerceScalar_coerceScalar {v w : Value} {t : DataType} (harray : ¬v.IsArray)
    (h : v.coerceScalar t = .ok w) : w.coerceScalar t = .ok w ∧ ¬w.IsArray := by
  cases brought_coerceScalar harray h with
  | array => exact absurd ⟨_, rfl⟩ harray
  | kept => exact ⟨h, harray⟩
  | converted _ hresolve happly =>
    have hcolumn := Coercion.column_of_resolve hresolve
    have hconforms := Coercion.conformsTo_of_apply hcolumn happly
    have hw : ¬w.IsArray := by
      rintro ⟨items, rfl⟩
      cases t <;> simp [conformsTo, Coercion.Target.of?] at hconforms hcolumn
    exact ⟨coerceScalar_of_conformsTo hconforms fun items hitems => hw ⟨items, hitems⟩, hw⟩

/-! ## Nested lists -/

theorem coerce_of_not_isArray {v : Value} (h : ¬v.IsArray) (t : DataType) :
    v.coerce t = v.coerceScalar t := by
  cases v with
  | array items => exact absurd ⟨items, rfl⟩ h
  | _ => rfl

/-- A list that faces no array type stays. -/
theorem coerce_array_of_not_array {items : List Value} {t : DataType}
    (h : ∀ component, t ≠ .array component) : (array items).coerce t = .ok (array items) := by
  have hscalar : (array items).coerceScalar t = .ok (array items) := by
    unfold coerceScalar
    split
    · rfl
    · cases items <;> rfl
  cases t with
  | array component => exact absurd rfl (h component)
  | _ => exact hscalar

theorem coerce_array_eq_ok {items : List Value} {component : DataType} {w : Value} :
    (array items).coerce (.array component) = .ok w ↔
      ∃ ws, coerceAll items component = .ok ws ∧ w = array ws := by
  rw [coerce]
  cases coerceAll items component <;> simp [Except.map, eq_comm]

theorem coerceAll_cons_eq_ok {v : Value} {rest ws : List Value} {t : DataType} :
    coerceAll (v :: rest) t = .ok ws ↔
      ∃ w ws', v.coerce t = .ok w ∧ coerceAll rest t = .ok ws' ∧ ws = w :: ws' := by
  simp only [coerceAll, bind_eq_ok, pure_eq_ok, exists_and_left, @eq_comm _ _ ws]

theorem at?_of_not_isArray {v : Value} (h : ¬v.IsArray) (i : Nat) (path : List Nat) :
    v.at? (i :: path) = none := by
  cases v with
  | array items => exact absurd ⟨items, rfl⟩ h
  | _ => rfl

theorem brought_below (v : Value) : Brought v none v := by
  by_cases h : v.IsArray
  · obtain ⟨items, rfl⟩ := h
    exact .array rfl
  · exact .kept h nofun

/-- One value is made of another by bringing its parts to what a type is at their depths. -/
def BroughtTo (t : DataType) (v w : Value) : Prop :=
  ∀ path, Option.Rel (fun x y => Brought x (t.below? path.length) y) (v.at? path) (w.at? path)

theorem broughtTo_of_not_isArray {v w : Value} {t : DataType} (hv : ¬v.IsArray) (hw : ¬w.IsArray)
    (h : Brought v (some t) w) : BroughtTo t v w
  | [] => .some h
  | i :: path => by
    rw [at?_of_not_isArray hv, at?_of_not_isArray hw]
    exact .none

theorem broughtTo_array {vs ws : List Value} {component : DataType}
    (h : List.Forall₂ (BroughtTo component) vs ws) :
    BroughtTo (.array component) (array vs) (array ws)
  | [] => .some (.array h.length_eq.symm)
  | i :: path => by
    rw [at?, at?]
    cases hw : ws[i]? with
    | none =>
      have hv : vs[i]? = none := by
        rw [List.getElem?_eq_none_iff, h.length_eq]
        exact List.getElem?_eq_none_iff.1 hw
      rw [hv]
      exact .none
    | some w =>
      obtain ⟨v, hv, hvw⟩ := exists_getElem?_of_forall₂ h hw
      rw [hv]
      exact hvw path

/-- A list below which the target has no type is left as it is. -/
theorem broughtTo_array_of_not_array {items : List Value} {t : DataType}
    (h : ∀ component, t ≠ .array component) : BroughtTo t (array items) (array items)
  | [] => .some (.array rfl)
  | i :: path => by
    have hbelow : t.below? (i :: path).length = none := by
      cases t with
      | array component => exact absurd rfl (h component)
      | _ => rfl
    rw [hbelow]
    cases (array items).at? (i :: path) with
    | none => exact .none
    | some v => exact .some (brought_below v)

mutual

/-- Bringing a literal to a type brings each of its parts to what the type is at its depth, and
doing so again changes nothing. -/
theorem broughtTo_coerce : ∀ {v : Value} {t : DataType} {w : Value}, v.coerce t = .ok w →
    BroughtTo t v w ∧ w.coerce t = .ok w
  | v, t, w, h => by
    cases v with
    | array items =>
      cases t with
      | array component =>
        obtain ⟨ws, hws, rfl⟩ := coerce_array_eq_ok.1 h
        obtain ⟨hbrought, hagain⟩ := forall_broughtTo_coerceAll hws
        exact ⟨broughtTo_array hbrought, coerce_array_eq_ok.2 ⟨ws, hagain, rfl⟩⟩
      | _ =>
        rw [coerce_array_of_not_array (by simp)] at h
        obtain rfl := Except.ok.inj h
        exact ⟨broughtTo_array_of_not_array (by simp), coerce_array_of_not_array (by simp)⟩
    | _ =>
      rw [coerce_of_not_isArray (by simp [IsArray])] at h
      obtain ⟨hagain, hw⟩ := coerceScalar_coerceScalar (by simp [IsArray]) h
      exact ⟨broughtTo_of_not_isArray (by simp [IsArray]) hw
        (brought_coerceScalar (by simp [IsArray]) h), by rwa [coerce_of_not_isArray hw]⟩

theorem forall_broughtTo_coerceAll : ∀ {vs : List Value} {t : DataType} {ws : List Value},
    coerceAll vs t = .ok ws → List.Forall₂ (BroughtTo t) vs ws ∧ coerceAll ws t = .ok ws
  | [], _, _, h => by
    obtain rfl := Except.ok.inj h
    exact ⟨.nil, rfl⟩
  | v :: rest, t, ws, h => by
    obtain ⟨w, ws, hw, hws, rfl⟩ := coerceAll_cons_eq_ok.1 h
    obtain ⟨hbrought, hagain⟩ := broughtTo_coerce hw
    obtain ⟨hrest, hrestAgain⟩ := forall_broughtTo_coerceAll hws
    exact ⟨.cons hbrought hrest, coerceAll_cons_eq_ok.2 ⟨w, ws, hagain, hrestAgain, rfl⟩⟩

end

/-- Bringing a literal to a type never fails and is idempotent. It keeps `NULL`s and the lengths
and the nesting of lists, and converts any other part exactly where the matrix has a conversion
from the type of the part to what the target is at its depth. -/
theorem exists_coerce_broughtTo (v : Value) (t : DataType) :
    ∃ w, v.coerce t = .ok w ∧ w.coerce t = .ok w ∧ BroughtTo t v w ∧
      ∀ path, v.at? path = some .null → w.at? path = some .null := by
  obtain ⟨w, hw⟩ := v.exists_coerce t
  obtain ⟨hbrought, hagain⟩ := broughtTo_coerce hw
  refine ⟨w, hw, hagain, hbrought, fun path hnull => ?_⟩
  have hpath := hbrought path
  rw [hnull] at hpath
  generalize w.at? path = found, t.below? path.length = target at hpath
  cases hpath with
  | some h =>
    cases h with
    | kept => rfl
    | converted _ hresolve => exact absurd hresolve (not_resolve_null _ _)

/-- Items of a nested list that are of several types. -/
example :
    (array [.boolean true, .array [.integer 7, .string "x"], .null]).coerce
        (.array (.array (.float .bits64))) =
      .ok (.array [.boolean true, .array [.double (.ofInt 7), .string "x"], .null]) := rfl

end Value

end StorePlan
