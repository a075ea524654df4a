import StorePlan.Proofs.DataType.RoundTrip
import StorePlan.Proofs.Sql.CastTarget

/-
Casts to decimals with a precision and a scale. The limit of a dialect is kept
by the precision alone: the scale is written as it is, so the target is a
decimal with more digits behind the point than it has digits as soon as the
scale is above the limit (`exists_castTarget_decimal`).

What a target asks for is read off its text, by the reader of the names of
types.
-/

namespace StorePlan

open Text

namespace DataType

/-! ## Reading a target -/

theorem digitsParameter?_blank_digits (n : UInt16) :
    digitsParameter? (' ' :: digits n.toNat) = some n := by
  have htrim : trim (' ' :: digits n.toNat) = digits n.toNat := by
    rw [trim, List.dropWhile_cons_of_pos (by decide)]
    exact trim_digits n.toNat
  have hdigits := digitsParameter?_digits n
  rw [digitsParameter?, trim_digits] at hdigits
  rw [digitsParameter?, htrim, hdigits]

/-- A target is read as the decimal type with its two numbers. -/
theorem read_decimalTarget (precision scale : UInt16) :
    read ("DECIMAL(" ++ natText precision.toNat ++ ", " ++ natText scale.toNat ++ ")") =
      .ok (some (decimal (some precision) (some scale))) := by
  let parameters := digits precision.toNat ++ ',' :: ' ' :: digits scale.toNat
  have hcapital : ∀ c ∈ parameters, IsCapital c :=
    List.forall_mem_append.2 ⟨isCapital_of_mem_digits, List.forall_mem_cons.2 ⟨by decide,
      List.forall_mem_cons.2 ⟨by decide, isCapital_of_mem_digits⟩⟩⟩
  have htext :
      ("DECIMAL(" ++ natText precision.toNat ++ ", " ++ natText scale.toNat ++ ")").toList =
        "DECIMAL".toList ++ '(' :: (parameters ++ [')']) := by
    simp [parameters, natText, String.toList_append]
  have hpieces : pieces ',' parameters = [digits precision.toNat, ' ' :: digits scale.toNat] := by
    have hbehind : ∀ c ∈ ' ' :: digits scale.toNat, (c == ',') = false :=
      List.forall_mem_cons.2 ⟨by decide, comma_not_mem_digits _⟩
    simp [parameters, pieces, List.splitOnP_append_cons_of_forall_mem (comma_not_mem_digits _),
      List.splitOnP_eq_singleton hbehind]
  have hread : ofParameters? "DECIMAL" parameters =
      some (decimal (some precision) (some scale)) := by
    simp [ofParameters?, hpieces, digitsParameter?_digits, digitsParameter?_blank_digits]
  have hplain := isPlain_applied (by decide : IsPlain "DECIMAL".toList) hcapital
  rw [read, htext, hplain.trim_eq, hplain.upper_eq]
  exact readUpper_applied (by simp) hcapital hread

end DataType

namespace Sql.Dialect

/-! ## The limit -/

variable {d : Dialect} {t : DataType}

theorem clamp_le (d : Dialect) (t : DataType) (n : Nat) : d.clamp t n ≤ n := by
  unfold clamp
  split
  · exact Nat.min_le_left _ _
  · exact Nat.le_refl n

theorem le_clamp_iff {most m n : Nat} (h : d.maxPrecision? t = some most) :
    m ≤ d.clamp t n ↔ m ≤ n ∧ m ≤ most := by
  rw [clamp, h]
  exact Nat.le_min

/-! ## The target -/

theorem text_castTarget_decimal (d : Dialect) (p s : UInt16) :
    ∃ target, d.castTarget (.decimal (some p) (some s)) = .ok target ∧
      target.text = "DECIMAL(" ++ natText (d.clamp (.decimal (some p) (some s)) p.toNat) ++ ", " ++
        natText s.toNat ++ ")" := by
  refine ⟨_, by cases d <;> rfl, CastTarget.text_eq_token fun c hc => ?_⟩
  have hfirst : 'D' = c := by simpa [CastTarget.standard, String.toList_append] using hc
  exact hfirst ▸ by decide

/-- The target of a decimal is a decimal whose precision is neither above the one asked for nor
above the limit. Its scale is within its precision if the one asked for is, and is within the
limit. -/
theorem exists_castTarget_decimal (d : Dialect) (p s : UInt16) :
    ∃ (target : CastTarget) (p' s' : UInt16) (most : Nat),
      d.castTarget (.decimal (some p) (some s)) = .ok target ∧
      target.text = "DECIMAL(" ++ natText p'.toNat ++ ", " ++ natText s'.toNat ++ ")" ∧
      DataType.read target.text = .ok (some (.decimal (some p') (some s'))) ∧
      d.maxPrecision? (.decimal (some p) (some s)) = some most ∧
      p' ≤ p ∧ p'.toNat ≤ most ∧ (s' ≤ p' ↔ s ≤ p ∧ s.toNat ≤ most) := by
  obtain ⟨target, htarget, htext⟩ := text_castTarget_decimal d p s
  obtain ⟨most, hmost⟩ : ∃ most, d.maxPrecision? (.decimal (some p) (some s)) = some most :=
    ⟨_, rfl⟩
  have hle := clamp_le d (.decimal (some p) (some s)) p.toNat
  obtain ⟨p', hp'⟩ : ∃ p' : UInt16,
      p'.toNat = d.clamp (.decimal (some p) (some s)) p.toNat :=
    ⟨_, UInt16.toNat_ofNat_of_lt' (Nat.lt_of_le_of_lt hle p.toNat_lt)⟩
  rw [← hp'] at htext hle
  refine ⟨target, p', s, most, htarget, htext, ?_, hmost, UInt16.le_iff_toNat_le.2 hle, ?_, ?_⟩
  · rw [htext]
    exact DataType.read_decimalTarget p' s
  · rw [hp']
    exact ((le_clamp_iff hmost).1 (Nat.le_refl _)).2
  · rw [UInt16.le_iff_toNat_le, UInt16.le_iff_toNat_le, hp', le_clamp_iff hmost]

/-- With twenty-five of thirty digits behind the point, nineteen digits are left for twenty-five
behind the point. -/
theorem not_le_castTarget_decimal_30_25 :
    (25 : UInt16) ≤ 30 ∧
      ¬∃ (target : CastTarget) (p' s' : UInt16),
        ansi.castTarget (.decimal (some 30) (some 25)) = .ok target ∧
        target.text = "DECIMAL(" ++ natText p'.toNat ++ ", " ++ natText s'.toNat ++ ")" ∧
        s' ≤ p' := by
  refine ⟨by decide, ?_⟩
  rintro ⟨target, p', s', htarget, htext, hle⟩
  have hread := DataType.read_decimalTarget 19 25
  have hread' := DataType.read_decimalTarget p' s'
  cases htarget
  rw [← htext] at hread'
  cases hread.symm.trans hread'
  exact absurd hle (by decide)

end Sql.Dialect

end StorePlan
