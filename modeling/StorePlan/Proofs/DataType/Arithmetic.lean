import StorePlan.RowExpr.Basic

/-
Types of arithmetic results. Among the types of numbers and of `NULL` the type
of two operands is associative, with that of `NULL` as its neutral element
(`wider_assoc`), and commutative but for two decimals that differ in precision
or scale, of which the left one is kept (`wider_comm`).

`Combines` is what operands come to in any nesting. For numbers that is what
they come to from left to right (`Combines.eq_foldl`). The other lemmas on it
hold of all types: a floating-point operand makes the result floating-point, of
a width that does not depend on the order (`Combines.eq_float`); without one
the first decimal is kept (`Combines.find?_isDecimal`); and without decimals
the operand in front is, if it is no number (`Combines.eq_head`). What such an
operand comes to in front of any others is `Combines.eq_of_cons`.
-/

namespace StorePlan

theorem IntWidth.max_comm (a b : IntWidth) : a.max b = b.max a := by
  cases a <;> cases b <;> rfl

theorem IntWidth.max_assoc (a b c : IntWidth) : (a.max b).max c = a.max (b.max c) := by
  cases a <;> cases b <;> cases c <;> rfl

theorem FloatWidth.max_comm (a b : FloatWidth) : a.max b = b.max a := by
  cases a <;> cases b <;> rfl

theorem FloatWidth.max_assoc (a b c : FloatWidth) : (a.max b).max c = a.max (b.max c) := by
  cases a <;> cases b <;> cases c <;> rfl

@[simp] theorem FloatWidth.max_bits64 (a : FloatWidth) : a.max .bits64 = .bits64 := by
  cases a <;> rfl

@[simp] theorem FloatWidth.bits64_max (a : FloatWidth) : FloatWidth.max .bits64 a = .bits64 := by
  cases a <;> rfl

theorem FloatWidth.max_eq_bits32_iff {a b : FloatWidth} :
    a.max b = .bits32 ↔ a = .bits32 ∧ b = .bits32 := by
  cases a <;> cases b <;> decide

namespace DataType

variable {t x y : DataType} {ts us : List DataType}

def isFloat : DataType → Bool
  | float _ => true
  | _ => false

def isDecimal : DataType → Bool
  | decimal .. => true
  | _ => false

/-- Whether the type is that of single-precision numbers, or of `NULL`. -/
def isSingle : DataType → Bool
  | float w => w = .bits32
  | null => true
  | _ => false

/-- The types of numbers, and the type of `NULL`. -/
inductive IsNumericOrNull : DataType → Prop where
  | null : IsNumericOrNull null
  | integer (w : IntWidth) : IsNumericOrNull (integer w)
  | decimal (precision scale : Option UInt16) : IsNumericOrNull (decimal precision scale)
  | float (w : FloatWidth) : IsNumericOrNull (float w)

theorem of_not_isNumericOrNull (h : ¬IsNumericOrNull t) :
    t.isFloat = false ∧ t.isDecimal = false ∧ t.isSingle = false := by
  cases t with
  | null => exact absurd .null h
  | decimal p s => exact absurd (.decimal p s) h
  | float w => exact absurd (.float w) h
  | _ => exact ⟨rfl, rfl, rfl⟩

/-! ## Two operands -/

@[simp] theorem null_wider (t : DataType) : null.wider t = t := by
  cases t <;> rfl

@[simp] theorem wider_null (t : DataType) : t.wider null = t := by
  cases t <;> rfl

theorem IsNumericOrNull.wider (hx : IsNumericOrNull x) (hy : IsNumericOrNull y) :
    IsNumericOrNull (x.wider y) := by
  cases hx <;> cases hy <;> constructor

/-- Only the operands on the right have to be numbers. -/
theorem wider_assoc (z : DataType) (hx : IsNumericOrNull x) (hy : IsNumericOrNull y) :
    (z.wider x).wider y = z.wider (x.wider y) := by
  cases hx <;> cases hy <;> cases z <;> simp [wider, IntWidth.max_assoc, FloatWidth.max_assoc]

/-- Numbers may be exchanged unless they are two different decimals. -/
theorem wider_comm (hx : IsNumericOrNull x) (hy : IsNumericOrNull y)
    (h : x.isDecimal = true → y.isDecimal = true → x = y) : x.wider y = y.wider x := by
  cases hx <;> cases hy <;>
    simp_all [wider, IntWidth.max_comm, FloatWidth.max_comm, isDecimal]

theorem wider_right_comm (z : DataType) (hx : IsNumericOrNull x) (hy : IsNumericOrNull y)
    (h : x.isDecimal = true → y.isDecimal = true → x = y) :
    (z.wider x).wider y = (z.wider y).wider x := by
  rw [wider_assoc z hx hy, wider_comm hx hy h, ← wider_assoc z hy hx]

theorem isFloat_wider (x y : DataType) : (x.wider y).isFloat = (x.isFloat || y.isFloat) := by
  cases x <;> cases y <;> rfl

theorem isSingle_wider (x y : DataType) : (x.wider y).isSingle = (x.isSingle && y.isSingle) := by
  cases x <;> cases y <;> simp [wider, isSingle, FloatWidth.max_eq_bits32_iff]

theorem eq_float_of_isFloat (h : t.isFloat = true) :
    t = float (if t.isSingle then .bits32 else .bits64) := by
  cases t with
  | float w => cases w <;> rfl
  | _ => cases h

/-- Of operands that are not floating-point, the first decimal is kept. -/
theorem filter_isDecimal_wider (hx : x.isFloat = false) (hy : y.isFloat = false) :
    (some (x.wider y)).filter isDecimal =
      ((some x).filter isDecimal).or ((some y).filter isDecimal) := by
  cases x <;> cases y <;> simp_all [wider, isFloat, isDecimal, Option.filter]

/-- What is no number is kept unless a decimal or a floating-point number follows. -/
theorem wider_eq_left (ht : ¬IsNumericOrNull t) (hfloat : y.isFloat = false)
    (hdecimal : y.isDecimal = false) : t.wider y = t := by
  cases t with
  | integer w => exact absurd (.integer w) ht
  | decimal p s => exact absurd (.decimal p s) ht
  | float w => exact absurd (.float w) ht
  | null => exact absurd .null ht
  | _ => cases y <;> simp_all [wider, isFloat, isDecimal]

/-! ## Operands from left to right -/

theorem isNumericOrNull_foldl (hx : IsNumericOrNull x) (h : ∀ t ∈ ts, IsNumericOrNull t) :
    IsNumericOrNull (ts.foldl wider x) := by
  induction ts generalizing x with
  | nil => exact hx
  | cons t rest ih =>
    obtain ⟨ht, hrest⟩ := List.forall_mem_cons.1 h
    exact ih (hx.wider ht) hrest

theorem foldl_wider (x : DataType) (h : ∀ t ∈ ts, IsNumericOrNull t) :
    ts.foldl wider x = x.wider (ts.foldl wider null) := by
  induction ts generalizing x with
  | nil => exact (wider_null x).symm
  | cons t rest ih =>
    obtain ⟨ht, hrest⟩ := List.forall_mem_cons.1 h
    have hsum : IsNumericOrNull (rest.foldl wider null) := isNumericOrNull_foldl .null hrest
    calc rest.foldl wider (x.wider t)
        = (x.wider t).wider (rest.foldl wider null) := ih (x.wider t) hrest
      _ = x.wider (t.wider (rest.foldl wider null)) := wider_assoc x ht hsum
      _ = x.wider (rest.foldl wider (null.wider t)) := by rw [null_wider, ← ih t hrest]

/-- The order of operands does not matter if decimals among them agree. -/
theorem foldl_wider_perm (hperm : ts.Perm us) (h : ∀ t ∈ ts, IsNumericOrNull t)
    (hdecimal : ∀ t ∈ ts, ∀ u ∈ ts, t.isDecimal = true → u.isDecimal = true → t = u) :
    ts.foldl wider null = us.foldl wider null :=
  hperm.foldl_eq'
    (fun x hx y hy z => wider_right_comm z (h x hx) (h y hy) (hdecimal x hx y hy)) null

/-! ## Operands in any nesting -/

/-- Operands of these types come to the type when they are taken together one run after the other,
and the results of runs likewise. -/
inductive Combines : List DataType → DataType → Prop where
  | nil : Combines [] null
  | single (t : DataType) : Combines [t] t
  | append {ts us : List DataType} {x y : DataType} :
    Combines ts x → Combines us y → Combines (ts ++ us) (x.wider y)

namespace Combines

theorem map_any {p : DataType → Bool} (hnull : p null = false)
    (hwider : ∀ x y : DataType, p (x.wider y) = (p x || p y)) (h : Combines ts x) :
    p x = ts.any p := by
  induction h with
  | nil => exact hnull
  | single t => simp
  | append _ _ ihx ihy => rw [hwider, ihx, ihy, List.any_append]

theorem map_all {p : DataType → Bool} (hnull : p null = true)
    (hwider : ∀ x y : DataType, p (x.wider y) = (p x && p y)) (h : Combines ts x) :
    p x = ts.all p := by
  induction h with
  | nil => exact hnull
  | single t => simp
  | append _ _ ihx ihy => rw [hwider, ihx, ihy, List.all_append]

theorem isFloat_eq (h : Combines ts x) : x.isFloat = ts.any isFloat := h.map_any rfl isFloat_wider

theorem isSingle_eq (h : Combines ts x) : x.isSingle = ts.all isSingle :=
  h.map_all rfl isSingle_wider

theorem eq_float (h : Combines ts x) (hfloat : ts.any isFloat = true) :
    x = float (if ts.all isSingle then .bits32 else .bits64) := by
  rw [← h.isSingle_eq]
  exact eq_float_of_isFloat (h.isFloat_eq.trans hfloat)

theorem find?_isDecimal (h : Combines ts x) (hfloat : ts.any isFloat = false) :
    ts.find? isDecimal = (some x).filter isDecimal := by
  induction h with
  | nil => rfl
  | single t => cases t <;> rfl
  | append hx hy ihx ihy =>
    rw [List.any_append, Bool.or_eq_false_iff] at hfloat
    rw [List.find?_append, ihx hfloat.1, ihy hfloat.2,
      filter_isDecimal_wider (hx.isFloat_eq.trans hfloat.1) (hy.isFloat_eq.trans hfloat.2)]

/-- Numbers come to the same in any nesting. -/
theorem eq_foldl (h : Combines ts x) (hts : ∀ t ∈ ts, IsNumericOrNull t) :
    x = ts.foldl wider null := by
  induction h with
  | nil => rfl
  | single t => exact (null_wider t).symm
  | append _ _ ihx ihy =>
    obtain ⟨hts, hus⟩ := List.forall_mem_append.1 hts
    rw [List.foldl_append, foldl_wider _ hus, ← ihx hts, ← ihy hus]

theorem eq_decimal (h : Combines ts x) (hfloat : ts.any isFloat = false)
    (hfirst : ts.find? isDecimal = some t) : x = t := by
  rw [h.find?_isDecimal hfloat, Option.filter_eq_some_iff] at hfirst
  exact Option.some.inj hfirst.1

theorem isDecimal_eq (h : Combines ts x) (hfloat : ts.any isFloat = false) :
    x.isDecimal = ts.any isDecimal := by
  have hfirst := congrArg Option.isSome (h.find?_isDecimal hfloat)
  rw [List.isSome_find?] at hfirst
  rw [hfirst]
  cases hx : x.isDecimal <;> simp [hx]

theorem eq_head (h : Combines ts x) (hhead : ts.head? = some t) (ht : ¬IsNumericOrNull t)
    (hfloat : ts.any isFloat = false) (hdecimal : ts.any isDecimal = false) : x = t := by
  induction h with
  | nil => cases hhead
  | single u => exact Option.some.inj hhead
  | @append ts us x y hx hy ihx ihy =>
    rw [List.any_append, Bool.or_eq_false_iff] at hfloat hdecimal
    cases ts with
    | nil =>
      -- An empty run comes to `NULL`, so the operand in front is that of the second run.
      have hnull : x = null := hx.eq_foldl (by simp)
      rw [hnull, null_wider]
      exact ihy hhead hfloat.2 hdecimal.2
    | cons u rest =>
      rw [ihx hhead hfloat.1 hdecimal.1]
      exact wider_eq_left ht (hy.isFloat_eq.trans hfloat.2)
        ((hy.isDecimal_eq hfloat.2).trans hdecimal.2)

/-- What is no number and stands in front is kept exactly if nothing behind decides instead. -/
theorem eq_left_iff (h : Combines (t :: ts) x) (ht : ¬IsNumericOrNull t) :
    x = t ↔ ∀ u ∈ ts, u.isFloat = false ∧ u.isDecimal = false := by
  obtain ⟨hfloat, hdecimal, -⟩ := of_not_isNumericOrNull ht
  constructor
  · rintro rfl
    have hfloats := h.isFloat_eq
    rw [hfloat, eq_comm] at hfloats
    have hdecimals := h.isDecimal_eq hfloats
    rw [hdecimal, eq_comm] at hdecimals
    rw [List.any_eq_false] at hfloats hdecimals
    exact fun u hu => ⟨Bool.eq_false_iff.2 (hfloats u (.tail _ hu)),
      Bool.eq_false_iff.2 (hdecimals u (.tail _ hu))⟩
  · intro hts
    exact h.eq_head rfl ht (by simpa [hfloat] using fun u hu => (hts u hu).1)
      (by simpa [hdecimal] using fun u hu => (hts u hu).2)

/-- With a type that is no number's in front, a floating-point number makes the result one of double
precision, and else the first decimal is kept. -/
theorem eq_of_cons (h : Combines (t :: ts) x) (ht : ¬IsNumericOrNull t) :
    x = if ts.any isFloat then float .bits64 else (ts.find? isDecimal).getD t := by
  obtain ⟨hfloat, hdecimal, hsingle⟩ := of_not_isNumericOrNull ht
  split
  case isTrue hfloats =>
    rw [h.eq_float (by simp [hfloats])]
    simp [hsingle]
  case isFalse hfloats =>
    have hnone : (t :: ts).any isFloat = false := by simpa [hfloat] using hfloats
    cases hfirst : ts.find? isDecimal with
    | some u => exact h.eq_decimal hnone (by simp [hdecimal, hfirst])
    | none =>
      refine (h.eq_left_iff ht).2 fun u hu => ⟨?_, ?_⟩
      · simpa using List.any_eq_false.1 hnone u (.tail _ hu)
      · simpa using List.find?_eq_none.1 hfirst u hu

end Combines

end DataType

end StorePlan
