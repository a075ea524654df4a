import StorePlan.Proofs.Document.Decoding
import StorePlan.Proofs.RowExpr.Meaning

/-
How a document store reads filter documents. It decides each condition on a
field with yes or no. `Store.ComparesAs` says that it compares the values of a
type with what operands stand for, and how it treats `NULL`. It does not speak
of literals: what of a literal is lost in its encoding, no store can compare
with.

`Store.ofInterpretation` is one store that compares the values of all types but
arrays in this way.
-/

namespace StorePlan

/-- Comparisons with `NULL` are unknown. -/
structure Interpretation.Strict (I : Interpretation) : Prop where
  equal : ∀ v w, v.isNull = true ∨ w.isNull = true → I.equal v w = .unknown
  less : ∀ v w, v.isNull = true ∨ w.isNull = true → I.less v w = .unknown
  lessOrEqual : ∀ v w, v.isNull = true ∨ w.isNull = true → I.lessOrEqual v w = .unknown
  like : ∀ v w, v.isNull = true ∨ w.isNull = true → I.like v w = .unknown

namespace Interpretation.Strict

variable {I : Interpretation} {v w : Value}

theorem greater (h : I.Strict) (hnull : v.isNull = true ∨ w.isNull = true) :
    I.greater v w = .unknown := by
  rw [← I.less_mirror, h.less w v hnull.symm]

theorem greaterOrEqual (h : I.Strict) (hnull : v.isNull = true ∨ w.isNull = true) :
    I.greaterOrEqual v w = .unknown := by
  rw [← I.lessOrEqual_mirror, h.lessOrEqual w v hnull.symm]

/-- `NULL` is not known to be one of several values. -/
theorem isIn (h : I.Strict) (hnull : v.isNull = true) {ws : List Value} (hne : ws ≠ []) :
    I.isIn v ws = .unknown := by
  induction ws with
  | nil => exact absurd rfl hne
  | cons w rest ih =>
    have hstep : I.isIn v (w :: rest) = (I.equal v w).or (I.isIn v rest) := rfl
    rw [hstep, h.equal v w (.inl hnull)]
    cases rest with
    | nil => rfl
    | cons x others => rw [ih (by simp)]; rfl

end Interpretation.Strict

namespace Document

/-- The comparisons of a document store, of a field's value with an operand. -/
structure Store where
  equal : Value → Json → Bool
  greater : Value → Json → Bool
  less : Value → Json → Bool
  greaterOrEqual : Value → Json → Bool
  lessOrEqual : Value → Json → Bool
  regex : Value → String → Bool

namespace Store

variable (S : Store)

/-- Whether a value meets one operator that is no `$not`. -/
def meetsOperator (v : Value) (name : String) (operand : Json) : Bool :=
  match name, operand with
  | "$eq", j => S.equal v j
  | "$ne", j => !S.equal v j
  | "$in", .array js => js.any (S.equal v)
  | "$nin", .array js => !js.any (S.equal v)
  | "$gt", j => S.greater v j
  | "$lt", j => S.less v j
  | "$gte", j => S.greaterOrEqual v j
  | "$lte", j => S.lessOrEqual v j
  | "$regex", .string pattern => S.regex v pattern
  | _, _ => false

mutual

/-- Whether a value meets all operators of a condition. -/
def meets (v : Value) : Json → Bool
  | .object fields => meetsAll v fields
  | _ => false
termination_by structural j => j

def meetsAll (v : Value) : List (String × Json) → Bool
  | [] => true
  | (name, operand) :: rest =>
    (if name = "$not" then !meets v operand else S.meetsOperator v name operand) && meetsAll v rest
termination_by structural fields => fields

end

mutual

/-- Whether a document with these fields satisfies a filter document. The connectives stand over
lists of filter documents, and conditions on fields are objects. -/
def satisfies (env : String → Value) : Json → Bool
  | .object fields => satisfiesFields env fields
  | _ => false
termination_by structural j => j

def satisfiesFields (env : String → Value) : List (String × Json) → Bool
  | [] => true
  | (name, .array items) :: rest =>
    (if name = "$and" then satisfiesAll env items
      else if name = "$or" then satisfiesAny env items else false) && satisfiesFields env rest
  | (name, condition) :: rest => S.meets (env name) condition && satisfiesFields env rest
termination_by structural fields => fields

def satisfiesAll (env : String → Value) : List Json → Bool
  | [] => true
  | j :: rest => satisfies env j && satisfiesAll env rest
termination_by structural js => js

def satisfiesAny (env : String → Value) : List Json → Bool
  | [] => false
  | j :: rest => satisfies env j || satisfiesAny env rest
termination_by structural js => js

end

/-- The store compares a value with an operand as an interpretation compares it with another value:
`$eq` finds `NULL` equal to `NULL`, and the other operators hold of no `NULL`. -/
structure Compares (I : Interpretation) (v w : Value) (j : Json) : Prop where
  equal : S.equal v j = true ↔ (v.isNull = true ∧ w.isNull = true) ∨ I.equal v w = .holds
  greater : S.greater v j = true ↔ v.isNull = false ∧ I.greater v w = .holds
  less : S.less v j = true ↔ v.isNull = false ∧ I.less v w = .holds
  greaterOrEqual : S.greaterOrEqual v j = true ↔ v.isNull = false ∧ I.greaterOrEqual v w = .holds
  lessOrEqual : S.lessOrEqual v j = true ↔ v.isNull = false ∧ I.lessOrEqual v w = .holds

/-- The store compares the values of a type with what operands and regular expressions stand for. -/
structure ComparesAs (I : Interpretation) (t : DataType) : Prop where
  operand : ∀ {v w j}, v.conformsTo t = true → decode t j = some w → S.Compares I v w j
  regex : ∀ {v regex pattern}, v.conformsTo t = true → likePattern? regex = some pattern →
    (S.regex v regex = true ↔ v.isNull = false ∧ I.like v (.string pattern) = .holds)

/-- The store compares a value with a literal, by the literal's encoding. -/
structure ComparesWith (I : Interpretation) (v w : Value) : Prop where
  operand : ∀ {j}, encode w = .ok j → S.Compares I v w j
  regex : ∀ {pattern}, w = .string pattern →
    (S.regex v (regexOfLike pattern) = true ↔ v.isNull = false ∧ I.like v w = .holds)

variable {S} {I : Interpretation} {t : DataType} {v w : Value} {j : Json}

/-- The encoding of a literal of whole milliseconds stands for the literal, so the store compares
with the literal itself. -/
theorem ComparesAs.comparesWith (h : S.ComparesAs I t) (hv : v.conformsTo t = true)
    (hw : w.conformsTo t = true) (hwhole : w.toMilliseconds = w) : S.ComparesWith I v w where
  operand hj := h.operand hv (by rw [decode_encode w hw hj, hwhole])
  regex := by
    rintro pattern rfl
    exact h.regex hv (likePattern?_regexOfLike pattern)

/-! ## A store for all types but arrays -/

/-- Compares a value with what the operand stands for among the values of the same type. -/
def ofInterpretation (I : Interpretation) : Store where
  equal v j := (decode v.naturalType j).any fun w => v.isNull && w.isNull || I.equal v w = .holds
  greater v j := (decode v.naturalType j).any (I.greater v · = .holds)
  less v j := (decode v.naturalType j).any (I.less v · = .holds)
  greaterOrEqual v j := (decode v.naturalType j).any (I.greaterOrEqual v · = .holds)
  lessOrEqual v j := (decode v.naturalType j).any (I.lessOrEqual v · = .holds)
  regex v regex := (likePattern? regex).any fun pattern => I.like v (.string pattern) = .holds

/-- A comparison that is unknown of `NULL`, with what an operand stands for. -/
theorem any_decode_iff {compare : Value → Truth}
    (hnull : v.isNull = true → ∀ w, compare w = .unknown) (ht : ∀ component, t ≠ .array component)
    (hv : v.conformsTo t = true) (hw : decode t j = some w) :
    (decode v.naturalType j).any (compare · = .holds) = true ↔
      v.isNull = false ∧ compare w = .holds := by
  cases h : v.isNull with
  | false => simp [decode_naturalType h ht hv, hw]
  | true => simp [hnull h]

theorem equal_ofInterpretation_iff (hI : I.Strict) (ht : ∀ component, t ≠ .array component)
    (hv : v.conformsTo t = true) (hw : decode t j = some w) :
    (ofInterpretation I).equal v j = true ↔
      (v.isNull = true ∧ w.isNull = true) ∨ I.equal v w = .holds := by
  change (decode v.naturalType j).any _ = true ↔ _
  cases h : v.isNull with
  | false => simp [decode_naturalType h ht hv, hw]
  | true =>
    have hunknown (w : Value) : I.equal v w = .unknown := hI.equal v w (.inl h)
    obtain rfl : v = .null := by cases v <;> first | rfl | cases h
    by_cases hj : j = .null
    · subst hj
      obtain rfl := Option.some.inj ((decode_null t).symm.trans hw)
      simp [decode_null, Value.isNull]
    · have hnone : decode .null j = none := decode_eq_decodeScalar (by simp) hj
      simp [Value.naturalType, hnone, hunknown, isNull_of_decode ht hj hw]

/-- The store compares the values of each type but arrays with what operands stand for. -/
theorem comparesAs_ofInterpretation (hI : I.Strict) (ht : ∀ component, t ≠ .array component) :
    (ofInterpretation I).ComparesAs I t where
  operand hv hw := {
    equal := equal_ofInterpretation_iff hI ht hv hw
    greater := any_decode_iff (fun h _ => hI.greater (.inl h)) ht hv hw
    less := any_decode_iff (fun h _ => hI.less _ _ (.inl h)) ht hv hw
    greaterOrEqual := any_decode_iff (fun h _ => hI.greaterOrEqual (.inl h)) ht hv hw
    lessOrEqual := any_decode_iff (fun h _ => hI.lessOrEqual _ _ (.inl h)) ht hv hw }
  regex {v regex pattern} hv hpattern := by
    simp only [ofInterpretation, hpattern]
    cases h : v.isNull with
    | false => simp
    | true => simp [hI.like v _ (.inl h)]

end Store

end Document

end StorePlan
