import Mathlib
import StorePlan.Proofs.Number.Rounding
import StorePlan.Proofs.Value.Coercion

/-
What a conversion makes of a value.

`Value.PreservedIn` says that a value and another one denote the same number,
or that the other one is its text. A column of the matrix preserves exactly
the integers that it `Holds`, and the matrix leads an integer to a column that
does not hold it in one cell only, from 32-bit integers to 32-bit floating-point
numbers. There the integer is rounded to the nearest number, an even
significand first.
-/

namespace StorePlan

open Number Text

/-! ## What a value denotes -/

namespace Value

/-- The integer that a value of an integer type is. -/
def integer? : Value → Option Int
  | tinyInt i => some i.toInt
  | smallInt i => some i.toInt
  | integer i => some i.toInt
  | bigInt i => some i.toInt
  | _ => none

/-- The number that a value denotes; a truth value counts as one or zero. -/
def number? : Value → Option ℚ
  | boolean b => some (if b then 1 else 0)
  | decimal d => some (mkRat d.unscaled (Nat.pow 10 d.scale))
  | real x => x.rational?
  | double x => x.rational?
  | v => v.integer?.map fun n : Int => (n : ℚ)

/-- What a value says is kept in another one: both denote one number, or the other one is the text
of the integer or of the truth value. -/
inductive PreservedIn : Value → Value → Prop where
  | number {v w : Value} {q : ℚ} (hv : v.number? = some q) (hw : w.number? = some q) :
      PreservedIn v w
  | digits {v : Value} {n : Int} (hv : v.integer? = some n) : PreservedIn v (.string n.repr)
  | word (b : Bool) : PreservedIn (.boolean b) (.string (if b then "true" else "false"))

theorem number?_of_integer? {v : Value} {n : Int} (h : v.integer? = some n) :
    v.number? = some (n : ℚ) := by
  cases v with
  | tinyInt | smallInt | integer | bigInt =>
    obtain rfl := Option.some.inj h
    rfl
  | _ => cases h

end Value

/-- The text of an integer is its usual decimal text. -/
theorem intText_eq_repr (n : Int) : intText n = n.repr := by
  rw [Int.repr_eq_if, intText]
  by_cases h : n < 0
  · have habs : n.natAbs = (-n).toNat := by omega
    rw [if_pos h, if_neg (by omega), habs]
    rfl
  · have habs : n.natAbs = n.toNat := by omega
    rw [if_neg h, if_pos (by omega), habs]
    rfl

namespace Coercion

/-! ## What a column holds -/

/-- The integers of a width. -/
def InWidth (width : IntWidth) (n : Int) : Prop :=
  -(Nat.pow 2 (width.bits - 1) : Int) ≤ n ∧ n < Nat.pow 2 (width.bits - 1)

/-- The integers that a column holds as they are. -/
def Target.Holds : Target → Int → Prop
  | .boolean, n => n = 0 ∨ n = 1
  | .integer width, n => InWidth width n
  | .decimal, _ => True
  | .float .bits32, n => BinaryFormat.single.Represents n
  | .float .bits64, n => BinaryFormat.double.Represents n
  | .string, _ => True

theorem inWidth_bits64 (n : Int64) : InWidth .bits64 n.toInt := ⟨n.le_toInt, n.toInt_lt⟩

theorem bmod_eq_self_iff {n : Int} {half : Nat} (h : 0 < half) :
    n.bmod (2 * half) = n ↔ -(half : Int) ≤ n ∧ n < half := by
  have hwhole : 0 < 2 * half := by omega
  constructor
  · intro heq
    have hle : -(((2 * half : Nat) : Int) / 2) ≤ n.bmod (2 * half) := Int.le_bmod hwhole
    have hlt : n.bmod (2 * half) < (((2 * half : Nat) : Int) + 1) / 2 := Int.bmod_lt hwhole
    omega
  · rintro ⟨hle, hlt⟩
    exact Int.bmod_eq_of_le (by omega) (by omega)

/-- A cast to a width keeps the integers of the width and wraps all others. -/
theorem integer?_ofNumber_iff (width : IntWidth) (n : Int64) :
    (ofNumber (.integer width) n).integer? = some n.toInt ↔ InWidth width n.toInt := by
  have hhalf : 0 < Nat.pow 2 (width.bits - 1) := two_pow_pos _
  rw [InWidth, ← bmod_eq_self_iff hhalf]
  cases width with
  | bits8 => rw [ofNumber, Value.integer?, Option.some.injEq, Int64.toInt_toInt8]; rfl
  | bits16 => rw [ofNumber, Value.integer?, Option.some.injEq, Int64.toInt_toInt16]; rfl
  | bits32 => rw [ofNumber, Value.integer?, Option.some.injEq, Int64.toInt_toInt32]; rfl
  | bits64 => exact iff_of_true rfl ((bmod_eq_self_iff hhalf).mpr (inWidth_bits64 n))

/-- No integer of 64 bits is beyond a binary format with that many doublings. -/
theorem inRange_of_int64 {f : BinaryFormat} (h : 64 + f.scale ≤ f.precision - 1 + f.maxStep)
    (n : Int64) : BinaryFloat.InRange f n.toInt := by
  have hlt : n.toInt.natAbs < Nat.pow 2 64 := by
    have hpow : Nat.pow 2 64 = 18446744073709551616 := rfl
    have := n.le_toInt
    have := n.toInt_lt
    omega
  calc n.toInt.natAbs * Nat.pow 2 f.scale
      < Nat.pow 2 64 * Nat.pow 2 f.scale := Nat.mul_lt_mul_of_pos_right hlt (two_pow_pos _)
    _ = Nat.pow 2 (64 + f.scale) := (two_pow_add _ _).symm
    _ ≤ Nat.pow 2 (f.precision - 1 + f.maxStep) := two_pow_le h

theorem inRange_single (n : Int64) : BinaryFloat.InRange .single n.toInt :=
  inRange_of_int64 (by decide) n

theorem inRange_double (n : Int64) : BinaryFloat.InRange .double n.toInt :=
  inRange_of_int64 (by decide) n

/-- In a column that is not for text an integer is kept exactly where the column holds it. -/
theorem number?_ofNumber_iff {column : Target} (hstring : column ≠ .string) (n : Int64) :
    (ofNumber column n).number? = some (n.toInt : ℚ) ↔ column.Holds n.toInt := by
  cases column with
  | boolean =>
    rw [ofNumber, Value.number?, Target.Holds, Option.some.injEq, eq_comm]
    by_cases h : n = 0
    · simp [h]
    · have hne : n.toInt ≠ 0 := fun hn => h (Int64.toInt_inj.mp hn)
      simp [h, hne]
  | integer width =>
    have hnumber : (ofNumber (.integer width) n).number? =
        (ofNumber (.integer width) n).integer?.map fun n : Int => (n : ℚ) := by
      cases width <;> rfl
    rw [hnumber, Target.Holds, ← integer?_ofNumber_iff, Option.map_eq_some_iff]
    simp
  | decimal =>
    refine iff_of_true ?_ trivial
    exact congrArg some (Rat.mkRat_one n.toInt)
  | float width =>
    cases width with
    | bits32 => exact BinaryFloat.rational?_ofInt_iff BinaryFormat.single_roomy (inRange_single n)
    | bits64 => exact BinaryFloat.rational?_ofInt_iff BinaryFormat.double_roomy (inRange_double n)
  | string => exact absurd rfl hstring

/-- A column preserves the integers that it holds and no others. -/
theorem preservedIn_ofNumber_iff {v : Value} {n : Int64} (hv : v.integer? = some n.toInt)
    (column : Target) : v.PreservedIn (ofNumber column n) ↔ column.Holds n.toInt := by
  by_cases hstring : column = .string
  · subst hstring
    refine iff_of_true ?_ trivial
    rw [ofNumber, intText_eq_repr]
    exact .digits hv
  · rw [← number?_ofNumber_iff hstring]
    refine ⟨fun h => ?_, .number (Value.number?_of_integer? hv)⟩
    cases hw : ofNumber column n with
    | string s => cases column with
      | string => exact absurd rfl hstring
      | boolean | decimal => cases hw
      | integer width | float width => cases width <;> cases hw
    | _ =>
      rw [hw] at h
      cases h with
      | number hq hw =>
        rw [hw, ← hq, Value.number?_of_integer? hv]

theorem holds_truth (b : Bool) (column : Target) :
    column.Holds (if b then 1 else 0 : Int64).toInt := by
  generalize hn : (if b then 1 else 0 : Int64).toInt = n
  have hsmall : n = 0 ∨ n = 1 := by
    subst hn
    cases b
    · exact .inl rfl
    · exact .inr rfl
  have habs : n.natAbs < 2 := by omega
  cases column with
  | boolean => exact hsmall
  | integer width =>
    have hone : 1 < Nat.pow 2 (width.bits - 1) := by cases width <;> decide
    exact ⟨by omega, by omega⟩
  | float width =>
    cases width <;> exact BinaryFormat.represents_of_lt (Nat.lt_trans habs (by decide))
  | decimal | string => trivial

/-- Every column preserves truth values. -/
theorem preservedIn_ofTruth (b : Bool) (column : Target) :
    (Value.boolean b).PreservedIn (ofTruth column b) := by
  have hone : ((if b then 1 else 0 : Int64).toInt : ℚ) = if b then 1 else 0 := by
    cases b <;> rfl
  have hnumber (hstring : column ≠ .string) :
      (Value.boolean b).PreservedIn (ofNumber column (if b then 1 else 0)) := by
    refine .number rfl ?_
    rw [← hone]
    exact (number?_ofNumber_iff hstring _).mpr (holds_truth b column)
  cases column with
  | boolean => exact .number rfl rfl
  | string => exact .word b
  | integer | decimal | float => exact hnumber (by simp)

/-- Of the integers that a column holds, different ones give different values. -/
theorem eq_of_ofNumber_eq {column : Target} {n n' : Int64} (hn : column.Holds n.toInt)
    (hn' : column.Holds n'.toInt) (h : ofNumber column n = ofNumber column n') : n = n' := by
  apply Int64.toInt_inj.mp
  by_cases hstring : column = .string
  · subst hstring
    have htext : intText n.toInt = intText n'.toInt := Value.string.inj h
    rwa [intText_eq_repr, intText_eq_repr, Int.repr_inj] at htext
  · have hnumber := (number?_ofNumber_iff hstring n).mpr hn
    rw [h, (number?_ofNumber_iff hstring n').mpr hn', Option.some.injEq, Int.cast_inj] at hnumber
    exact hnumber.symm

theorem eq_of_ofTruth_eq {column : Target} {b b' : Bool}
    (h : ofTruth column b = ofTruth column b') : b = b' := by
  have hnumber (h : ofNumber column (if b then 1 else 0) = ofNumber column (if b' then 1 else 0)) :
      b = b' := by
    have heq := eq_of_ofNumber_eq (holds_truth b column) (holds_truth b' column) h
    revert heq
    cases b <;> cases b' <;> decide
  cases column with
  | boolean => exact Value.boolean.inj h
  | string =>
    have htext := Value.string.inj h
    revert htext
    cases b <;> cases b' <;> decide
  | integer | decimal | float => exact hnumber h

/-! ## Rows -/

theorem Source.eq_integer_of_of? {width : IntWidth} {row : Source}
    (h : Source.of? (.integer width) = some row) : row = .integer width ∧ width ≠ .bits64 := by
  cases width with
  | bits64 => cases h
  | _ => exact ⟨(Option.some.inj h).symm, by decide⟩

/-- What a row converts is a truth value, or an integer of the width of the row. -/
theorem apply_cases {c : Coercion} {v : Value} {source : DataType}
    (hrow : Source.of? source = some c.row) (hv : v.conformsTo source = true)
    (hnull : v.isNull = false) :
    (∃ b, c.row = .boolean ∧ v = .boolean b ∧ c.apply v = .ok (ofTruth c.column b)) ∨
      ∃ width n, c.row = .integer width ∧ source = .integer width ∧
        v = ofNumber (.integer width) n ∧ InWidth width n.toInt ∧
        c.apply v = .ok (ofNumber c.column n) := by
  cases source with
  | boolean =>
    have hboolean : c.row = .boolean := (Option.some.inj hrow).symm
    cases v with
    | boolean b => exact .inl ⟨b, hboolean, rfl, by simp only [apply, hboolean]⟩
    | null => cases hnull
    | _ => cases hv
  | integer width =>
    obtain ⟨hwidth, hbits⟩ := Source.eq_integer_of_of? hrow
    refine .inr ?_
    cases v with
    | tinyInt i =>
      obtain rfl : width = .bits8 := by simpa [Value.conformsTo] using hv
      refine ⟨_, i.toInt64, hwidth, rfl, by simp [ofNumber], ?_, by simp only [apply, hwidth]⟩
      rw [Int8.toInt_toInt64]
      exact ⟨i.le_toInt, i.toInt_lt⟩
    | smallInt i =>
      obtain rfl : width = .bits16 := by simpa [Value.conformsTo] using hv
      refine ⟨_, i.toInt64, hwidth, rfl, by simp [ofNumber], ?_, by simp only [apply, hwidth]⟩
      rw [Int16.toInt_toInt64]
      exact ⟨i.le_toInt, i.toInt_lt⟩
    | integer i =>
      obtain rfl : width = .bits32 := by simpa [Value.conformsTo] using hv
      refine ⟨_, i.toInt64, hwidth, rfl, by simp [ofNumber], ?_, by simp only [apply, hwidth]⟩
      rw [Int32.toInt_toInt64]
      exact ⟨i.le_toInt, i.toInt_lt⟩
    | bigInt i => exact absurd (by simpa [Value.conformsTo] using hv) hbits
    | null => cases hnull
    | _ => cases hv
  | _ => cases hrow

theorem InWidth.natAbs_le {width : IntWidth} {n : Int} (h : InWidth width n) :
    n.natAbs ≤ Nat.pow 2 (width.bits - 1) := by
  have := h.1
  have := h.2
  omega

/-- A cell of the matrix leads an integer of its row to a column that holds it, unless it turns
32-bit integers into 32-bit floating-point numbers. -/
theorem holds_of_hasCell {width : IntWidth} {column : Target} {n : Int}
    (hcell : hasCell (.integer width) column = true) (hbits : width ≠ .bits64)
    (hn : InWidth width n) (hexact : width = .bits32 → column ≠ .float .bits32) :
    column.Holds n := by
  have hrepresents {f : BinaryFormat} (h : Nat.pow 2 (width.bits - 1) < Nat.pow 2 f.precision) :
      f.Represents n :=
    BinaryFormat.represents_of_lt (Nat.lt_of_le_of_lt hn.natAbs_le h)
  cases column with
  | boolean => cases hcell
  | integer target =>
    have hpow := two_pow_le (Nat.sub_le_sub_right (of_decide_eq_true hcell) 1)
    have := hn.1
    have := hn.2
    exact ⟨by omega, by omega⟩
  | decimal | string => trivial
  | float target =>
    cases width with
    | bits8 | bits16 => cases target <;> exact hrepresents (by decide)
    | bits32 => cases target with
      | bits32 => exact absurd rfl (hexact rfl)
      | bits64 => exact hrepresents (by decide)
    | bits64 => exact absurd rfl hbits

/-! ## The matrix -/

section

variable {source target : DataType} {c : Coercion} {v : Value}

theorem Target.eq_float_of_of? {width : FloatWidth} (h : Target.of? target = some (.float width)) :
    target = .float width := by
  cases target with
  | float w =>
    obtain rfl := Target.float.inj (Option.some.inj h)
    rfl
  | _ => cases h

theorem holds_of_resolve {width : IntWidth} {n : Int} (h : resolve (.integer width) target = .ok c)
    (hn : InWidth width n)
    (hpair : (DataType.integer width, target) ≠ (.integer .bits32, .float .bits32)) :
    c.column.Holds n := by
  obtain ⟨hrow, hbits⟩ := Source.eq_integer_of_of? (row_of_resolve h)
  refine holds_of_hasCell (hrow ▸ c.populated) hbits hn fun hwidth hcolumn => hpair ?_
  have htarget := column_of_resolve h
  rw [hcolumn] at htarget
  rw [hwidth, Target.eq_float_of_of? htarget]

theorem preservedIn_of_apply (h : resolve source target = .ok c)
    (hpair : (source, target) ≠ (.integer .bits32, .float .bits32))
    (hv : v.conformsTo source = true) (hnull : v.isNull = false) {w : Value}
    (hw : c.apply v = .ok w) : v.PreservedIn w := by
  rcases apply_cases (row_of_resolve h) hv hnull with
    ⟨b, -, rfl, happly⟩ | ⟨width, n, -, rfl, rfl, hn, happly⟩ <;>
    obtain rfl := Except.ok.inj (happly.symm.trans hw)
  · exact preservedIn_ofTruth b c.column
  · rw [preservedIn_ofNumber_iff ((integer?_ofNumber_iff width n).mpr hn)]
    exact holds_of_resolve h hn hpair

/-- Away from the cell that rounds, different values stay different. -/
theorem eq_of_apply_eq (h : resolve source target = .ok c)
    (hpair : (source, target) ≠ (.integer .bits32, .float .bits32))
    (hv : v.conformsTo source = true) (hnull : v.isNull = false) {v' : Value}
    (hv' : v'.conformsTo source = true) (hnull' : v'.isNull = false)
    (heq : c.apply v = c.apply v') : v = v' := by
  have hrow := row_of_resolve h
  rcases apply_cases hrow hv hnull with
    ⟨b, hboolean, rfl, happly⟩ | ⟨width, n, hwidth, rfl, rfl, hn, happly⟩ <;>
    rcases apply_cases hrow hv' hnull' with
      ⟨b', hboolean', rfl, happly'⟩ | ⟨width', n', hwidth', hsource, rfl, hn', happly'⟩ <;>
    rw [happly, happly', Except.ok.injEq] at heq
  · rw [eq_of_ofTruth_eq heq]
  · rw [hboolean] at hwidth'
    cases hwidth'
  · rw [hboolean'] at hwidth
    cases hwidth
  · obtain rfl := DataType.integer.inj hsource
    rw [eq_of_ofNumber_eq (holds_of_resolve h hn hpair) (holds_of_resolve h hn' hpair) heq]

/-- From 32-bit integers to 32-bit floating-point numbers a conversion rounds. -/
theorem rounds_of_apply (h : resolve (.integer .bits32) (.float .bits32) = .ok c)
    (hv : v.conformsTo (.integer .bits32) = true) (hnull : v.isNull = false) {w : Value}
    (hw : c.apply v = .ok w) :
    ∃ n x, v.integer? = some n ∧ w = .real x ∧ x.IsNearest n ∧
      (v.PreservedIn w ↔ BinaryFormat.single.Represents n) := by
  have hrow := row_of_resolve h
  have hcolumn : c.column = .float .bits32 := (Option.some.inj (column_of_resolve h)).symm
  rcases apply_cases hrow hv hnull with
    ⟨b, hboolean, -⟩ | ⟨width, n, -, hsource, rfl, hn, happly⟩
  · rw [hboolean] at hrow
    cases hrow
  · have hinteger := (integer?_ofNumber_iff width n).mpr hn
    obtain rfl := Except.ok.inj (happly.symm.trans hw)
    refine ⟨n.toInt, .ofInt n.toInt, hinteger, by rw [hcolumn]; rfl,
      BinaryFloat.isNearest_ofInt BinaryFormat.single_roomy (inRange_single n), ?_⟩
    rw [preservedIn_ofNumber_iff hinteger, hcolumn]
    rfl

/-- Every conversion succeeds on the values of its source and yields a value of its target. From
32-bit integers to 32-bit floating-point numbers it rounds to the nearest number, ties to the even
significand, and so keeps the integers that are a 24-bit number times a power of two. In all other
cells it keeps every value, and different values stay different. -/
theorem apply_preserves (h : resolve source target = .ok c) (hv : v.conformsTo source = true)
    (hnull : v.isNull = false) :
    ∃ w, c.apply v = .ok w ∧ w.conformsTo target = true ∧
      ((source, target) ≠ (.integer .bits32, .float .bits32) →
        v.PreservedIn w ∧ ∀ v', v'.conformsTo source = true → v'.isNull = false →
          c.apply v' = .ok w → v' = v) ∧
      ((source, target) = (.integer .bits32, .float .bits32) →
        ∃ n x, v.integer? = some n ∧ w = .real x ∧ x.IsNearest n ∧
          (v.PreservedIn w ↔ BinaryFormat.single.Represents n)) := by
  obtain ⟨w, hw⟩ : ∃ w, c.apply v = .ok w := by
    rcases apply_cases (row_of_resolve h) hv hnull with
      ⟨b, -, -, happly⟩ | ⟨width, n, -, -, -, -, happly⟩ <;> exact ⟨_, happly⟩
  have hconforms := conformsTo_of_apply (column_of_resolve h) hw
  refine ⟨w, hw, hconforms, fun hpair => ⟨?_, ?_⟩, fun hpair => ?_⟩
  · exact preservedIn_of_apply h hpair hv hnull hw
  · intro v' hv' hnull' hw'
    exact eq_of_apply_eq h hpair hv' hnull' hv hnull (hw'.trans hw.symm)
  · obtain ⟨rfl, rfl⟩ := Prod.mk.inj hpair
    exact rounds_of_apply h hv hnull hw

end

theorem apply_preserves_smallInt :
    ∃ c w, resolve (.integer .bits16) (.integer .bits64) = .ok c ∧
      c.apply (.smallInt (-7)) = .ok w ∧ w.conformsTo (.integer .bits64) = true ∧
      (Value.smallInt (-7)).PreservedIn w := by
  have hresolve : resolve (.integer .bits16) (.integer .bits64) =
      .ok ⟨_, _, .integer .bits16, .integer .bits64, rfl⟩ := rfl
  obtain ⟨w, hw, hconforms, hkept, -⟩ :=
    apply_preserves hresolve (v := .smallInt (-7)) rfl rfl
  exact ⟨_, w, hresolve, hw, hconforms, (hkept (by simp)).1⟩

/-- The least positive integer that no 32-bit floating-point number is. It is rounded to its
neighbour below. -/
theorem apply_16777217 :
    ∃ c w, resolve (.integer .bits32) (.float .bits32) = .ok c ∧
      c.apply (.integer 16777217) = .ok w ∧ ¬ (Value.integer 16777217).PreservedIn w ∧
      c.apply (.integer 16777216) = .ok w := by
  have hrounded : (BinaryFloat.ofInt (16777217 : Int64).toInt : Single) =
      .ofInt (16777216 : Int64).toInt := by decide +kernel
  have hodd : ¬ BinaryFormat.single.Represents (16777217 : Int64).toInt := by
    rintro ⟨k, j, hkj, hk⟩
    have hwidth : k < 16777216 := hk
    have hvalue : 16777217 = k * Nat.pow 2 j := hkj
    cases j with
    | zero =>
      have hwide : 16777217 = k := hvalue.trans (Nat.mul_one k)
      omega
    | succ j =>
      have heven : 16777217 = k * Nat.pow 2 j * 2 := hvalue.trans (Nat.mul_assoc k _ 2).symm
      omega
  refine ⟨⟨_, _, .integer .bits32, .float .bits32, rfl⟩, .real (.ofInt (16777217 : Int64).toInt),
    rfl, rfl, ?_, ?_⟩
  · exact (preservedIn_ofNumber_iff rfl (.float .bits32)).not.mpr hodd
  · rw [hrounded]
    rfl

end Coercion

end StorePlan
