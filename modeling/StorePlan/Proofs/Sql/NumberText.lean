import StorePlan.Proofs.Number.Text
import StorePlan.Proofs.Sql.Numeral

/-
The texts of numbers: digits with at most one point among them, perhaps behind
a sign. Integers and decimals have such a text, and so has every finite binary
number where it is written without an exponent.
-/

namespace StorePlan.Sql

open Number Text

/-- Digits with at most one point among them, perhaps behind a sign. -/
def isSigned : List Char → Bool
  | '+' :: cs | '-' :: cs | cs => isMantissa cs

section Signs

variable {cs : List Char}

theorem isSigned_of_isMantissa (h : isMantissa cs = true) : isSigned cs = true := by
  unfold isSigned
  split
  · cases h
  · cases h
  · exact h

/-- A sign in front of negative numbers only. -/
theorem isSigned_of_negative {negative : Prop} [Decidable negative] (h : isMantissa cs = true) :
    isSigned ((if negative then ['-'] else []) ++ cs) = true := by
  split_ifs
  · exact h
  · exact isSigned_of_isMantissa h

end Signs

section Mantissas

variable {ds fraction : List Char}

theorem isMantissa_of_digits (hne : ds ≠ []) (h : ∀ c ∈ ds, isDigit c = true) :
    isMantissa ds = true := by
  have hdrop : ds.dropWhile isDigit = [] := List.dropWhile_eq_nil_iff.2 h
  rw [isMantissa, hdrop]
  simpa using hne

theorem isMantissa_of_point (hne : ds ≠ []) (h : ∀ c ∈ ds, isDigit c = true)
    (hfraction : ∀ c ∈ fraction, isDigit c = true) : isMantissa (ds ++ '.' :: fraction) = true := by
  have hdrop : (ds ++ '.' :: fraction).dropWhile isDigit = '.' :: fraction := by
    rw [List.dropWhile_append_of_pos h, List.dropWhile_cons_of_neg (by decide)]
  have hpoint : ds ++ '.' :: fraction ≠ ['.'] := by
    obtain ⟨d, rest, rfl⟩ := List.exists_cons_of_ne_nil hne
    simp
  rw [isMantissa, hdrop]
  simpa [hpoint] using hfraction

/-- Digits with a point in front of the last ones, unless there are none of these. -/
theorem isMantissa_split {behind : Nat} (h : ∀ c ∈ ds, isDigit c = true)
    (hlt : behind < ds.length) :
    isMantissa (ds.take (ds.length - behind) ++
      if behind = 0 then [] else '.' :: ds.drop (ds.length - behind)) = true := by
  have hne : ds.take (ds.length - behind) ≠ [] := by
    rw [ne_eq, List.take_eq_nil_iff, ← List.length_eq_zero_iff]
    omega
  have htake : ∀ c ∈ ds.take (ds.length - behind), isDigit c = true :=
    fun c hc => h c (List.mem_of_mem_take hc)
  split_ifs
  · rw [List.append_nil]
    exact isMantissa_of_digits hne htake
  · exact isMantissa_of_point hne htake fun c hc => h c (List.mem_of_mem_drop hc)

end Mantissas

/-! ## Integers and decimals -/

theorem isSigned_intText (i : Int) : isSigned (intText i).toList = true := by
  have hdigits : isMantissa (digits i.natAbs) = true :=
    isMantissa_of_digits (digits_ne_nil _) fun _ => isDigit_of_mem_digits
  rw [toList_intText]
  exact isSigned_of_negative hdigits

theorem isSigned_decimalText (x : Decimal) : isSigned x.text.toList = true := by
  rw [Decimal.text, String.toList_ofList, List.append_assoc]
  exact isSigned_of_negative (isMantissa_split isDigit_of_mem_paddedDigits x.scale_lt_length)

/-! ## Binary numbers -/

theorem isMantissa_positionalText (x : DecimalDigits) :
    isMantissa (positionalText false x) = true := by
  have hdigits : ∀ c ∈ digits x.digits, isDigit c = true := fun _ => isDigit_of_mem_digits
  unfold positionalText
  simp only [Bool.false_eq_true, if_false, List.append_nil]
  generalize (if x.digits = 0 then 0 else x.exponent.toNat) = zeros
  split_ifs with hexponent hpoint
  · exact isMantissa_of_digits (by simp [digits_ne_nil])
      (List.forall_mem_append.2 ⟨hdigits, isDigit_of_mem_zeros⟩)
  · have hbehind : (-x.exponent).toNat ≠ 0 := by omega
    have hsplit := isMantissa_split hdigits hpoint
    rwa [if_neg hbehind] at hsplit
  · have hzero : ∀ c ∈ ['0'], isDigit c = true := List.forall_mem_singleton.2 rfl
    exact isMantissa_of_point (List.cons_ne_nil _ _) hzero
      (List.forall_mem_append.2 ⟨isDigit_of_mem_zeros, hdigits⟩)

/-- A finite number without an exponent. -/
theorem isSigned_plainText {f : BinaryFormat} {x : BinaryFloat f} (h : x.isFinite = true) :
    isSigned (x.text .plain).toList = true := by
  cases x with
  | nan => cases h
  | infinite negative => cases h
  | finite negative m =>
    rw [BinaryFloat.text, String.toList_ofList]
    exact isSigned_of_negative (isMantissa_positionalText _)

end StorePlan.Sql
