import Mathlib.Algebra.Order.Field.Basic
import Mathlib.Algebra.Order.Ring.Rat
import Mathlib.Data.Nat.Dist
import StorePlan.Number.Binary

/-
What rounding to a binary format gives.

A ratio `num / den` and a magnitude are compared in units of
`1 / (den * 2^scale)`, where both are natural numbers: `num * 2^scale` and
`units * den`. So `Nat.dist` of those two is how far the magnitude lies from
the ratio, with no rational arithmetic.

* `Magnitude.dist_ofRatio?_le`: no magnitude of the format is nearer to the
  ratio than its rounding, and `Magnitude.even_of_tie`: of two that are
  equally near it is the one with the even significand.
* `Magnitude.exists_ofRatio?`: a ratio in the range of the format has a
  rounding.
* `Magnitude.units_ofRatio?_one_iff`: a natural number is its own rounding
  exactly when, without the powers of two in it, it fits the significand.
* `BinaryFloat.isNearest_ofInt`, `BinaryFloat.rational?_ofInt_iff`: the same
  of integers, as rational numbers.
-/

namespace StorePlan.Number

theorem two_pow_add (m n : Nat) : Nat.pow 2 (m + n) = Nat.pow 2 m * Nat.pow 2 n :=
  Nat.pow_add 2 m n

theorem two_pow_le {m n : Nat} (h : m ≤ n) : Nat.pow 2 m ≤ Nat.pow 2 n :=
  Nat.pow_le_pow_right (by decide) h

theorem two_pow_pos (n : Nat) : 0 < Nat.pow 2 n := Nat.two_pow_pos n

/-! ## The nearest natural number -/

section

variable {num den : Nat}

theorem divHalfEven_cases (num den : Nat) :
    (divHalfEven num den = num / den ∧ 2 * (num % den) ≤ den) ∨
      (divHalfEven num den = num / den + 1 ∧ den ≤ 2 * (num % den)) := by
  unfold divHalfEven
  dsimp only
  split
  · exact .inl ⟨rfl, by omega⟩
  · split
    · exact .inr ⟨rfl, by omega⟩
    · split
      · exact .inl ⟨rfl, by omega⟩
      · exact .inr ⟨rfl, by omega⟩

theorem divHalfEven_mul (hden : 0 < den) (k : Nat) : divHalfEven (k * den) den = k := by
  simp [divHalfEven, hden]

/-- Only the ratio counts. -/
theorem divHalfEven_mul_right (num den : Nat) {k : Nat} (hk : 0 < k) :
    divHalfEven (num * k) (den * k) = divHalfEven num den := by
  have hlow : 2 * (num % den * k) < den * k ↔ 2 * (num % den) < den := by
    rw [← Nat.mul_assoc, Nat.mul_lt_mul_right hk]
  have hhigh : den * k < 2 * (num % den * k) ↔ den < 2 * (num % den) := by
    rw [← Nat.mul_assoc, Nat.mul_lt_mul_right hk]
  unfold divHalfEven
  simp only [Nat.mul_div_mul_right _ _ hk, Nat.mul_mod_mul_right, hlow, hhigh]

/-- Where a multiple of `d` lies, seen from the two neighbouring multiples `q * d` and
`(q + 1) * d`. -/
theorem mul_cases (k q d : Nat) :
    k * d + d ≤ q * d ∨ k = q ∨ k = q + 1 ∨ q * d + 2 * d ≤ k * d := by
  rcases Nat.lt_trichotomy k q with h | h | h
  · exact .inl (by simpa [Nat.succ_mul] using Nat.mul_le_mul_right d h)
  · exact .inr (.inl h)
  · rcases Nat.eq_or_lt_of_le h with h | h
    · exact .inr (.inr (.inl h.symm))
    · refine .inr (.inr (.inr ?_))
      have := Nat.mul_le_mul_right d h
      rw [Nat.succ_mul, Nat.succ_mul] at this
      omega

/-- No multiple of the denominator is nearer to the numerator. -/
theorem dist_divHalfEven_le (num : Nat) (hden : 0 < den) (k : Nat) :
    Nat.dist num (divHalfEven num den * den) ≤ Nat.dist num (k * den) := by
  have hdiv : num / den * den + num % den = num := Nat.div_add_mod' num den
  have hmod := Nat.mod_lt num hden
  have hnext : (num / den + 1) * den = num / den * den + den := Nat.succ_mul _ _
  unfold Nat.dist
  rcases divHalfEven_cases num den with ⟨he, hle⟩ | ⟨he, hle⟩ <;> rw [he] <;>
    rcases mul_cases k (num / den) den with h | rfl | rfl | h <;> omega

/-- A quotient that lies in the middle is rounded to the even neighbour. -/
theorem divHalfEven_even_of_tie (hden : 0 < den) {k : Nat} (hk : k ≠ divHalfEven num den)
    (htie : Nat.dist num (k * den) = Nat.dist num (divHalfEven num den * den)) :
    divHalfEven num den % 2 = 0 := by
  have hdiv : num / den * den + num % den = num := Nat.div_add_mod' num den
  have hmod := Nat.mod_lt num hden
  have hnext : (num / den + 1) * den = num / den * den + den := Nat.succ_mul _ _
  -- Only the other neighbour can be as near, and then twice the remainder is the denominator.
  have hhalf : 2 * (num % den) = den := by
    unfold Nat.dist at htie
    rcases divHalfEven_cases num den with ⟨he, hle⟩ | ⟨he, hle⟩ <;> rw [he] at htie hk <;>
      rcases mul_cases k (num / den) den with h | rfl | rfl | h <;> omega
  unfold divHalfEven
  dsimp only
  rw [if_neg (by omega), if_neg (by omega)]
  split <;> omega

end

/-- A format with room to round in: a significand of two bits or more, and more than one exponent
at which it has its full width. -/
structure BinaryFormat.Roomy (f : BinaryFormat) : Prop where
  precision : 2 ≤ f.precision
  maxStep : 0 < f.maxStep

theorem BinaryFormat.single_roomy : BinaryFormat.single.Roomy := ⟨by decide, by decide⟩

theorem BinaryFormat.double_roomy : BinaryFormat.double.Roomy := ⟨by decide, by decide⟩

namespace Magnitude

variable {f : BinaryFormat}

/-! ## The step of a ratio -/

/-- The step at which the whole part of the ratio just fits the significand. -/
def stepOf (f : BinaryFormat) (num den : Nat) : Nat :=
  (num * Nat.pow 2 f.scale / den).log2 + 1 - f.precision

/-- That step in units of `1 / (den * 2^scale)`. -/
def stepUnits (f : BinaryFormat) (num den : Nat) : Nat := den * Nat.pow 2 (stepOf f num den)

/-- The multiple of that step that is nearest to the ratio. -/
def nearestMultiple (f : BinaryFormat) (num den : Nat) : Nat :=
  divHalfEven (num * Nat.pow 2 f.scale) (stepUnits f num den)

theorem stepUnits_one (f : BinaryFormat) (n : Nat) :
    stepUnits f n 1 = Nat.pow 2 (stepOf f n 1) :=
  Nat.one_mul _

section

variable {num den : Nat} (hf : f.Roomy) (hden : 0 < den)

include hden in
theorem stepUnits_pos (f : BinaryFormat) (num : Nat) : 0 < stepUnits f num den :=
  Nat.mul_pos hden (two_pow_pos _)

include hden in
theorem lt_stepUnits (f : BinaryFormat) (num : Nat) :
    num * Nat.pow 2 f.scale < Nat.pow 2 f.precision * stepUnits f num den := by
  have hlog : num * Nat.pow 2 f.scale / den < Nat.pow 2 (stepOf f num den + f.precision) :=
    Nat.lt_of_lt_of_le Nat.lt_log2_self (two_pow_le (by unfold stepOf; omega))
  rw [Nat.div_lt_iff_lt_mul hden, two_pow_add] at hlog
  calc num * Nat.pow 2 f.scale
      < Nat.pow 2 (stepOf f num den) * Nat.pow 2 f.precision * den := hlog
    _ = Nat.pow 2 f.precision * stepUnits f num den := by rw [stepUnits]; ac_rfl

include hf hden in
theorem stepUnits_le (hstep : stepOf f num den ≠ 0) :
    Nat.pow 2 (f.precision - 1) * stepUnits f num den ≤ num * Nat.pow 2 f.scale := by
  have hprecision := hf.precision
  have hlog : (num * Nat.pow 2 f.scale / den).log2 = stepOf f num den + (f.precision - 1) := by
    unfold stepOf at hstep ⊢
    omega
  have hquotient : num * Nat.pow 2 f.scale / den ≠ 0 := by
    intro h
    rw [h, Nat.log2_zero] at hlog
    omega
  have hle : Nat.pow 2 (stepOf f num den + (f.precision - 1)) ≤ num * Nat.pow 2 f.scale / den :=
    hlog ▸ Nat.log2_self_le hquotient
  rw [Nat.le_div_iff_mul_le hden, two_pow_add] at hle
  calc Nat.pow 2 (f.precision - 1) * stepUnits f num den
      = Nat.pow 2 (stepOf f num den) * Nat.pow 2 (f.precision - 1) * den := by
        rw [stepUnits]; ac_rfl
    _ ≤ num * Nat.pow 2 f.scale := hle

include hden in
theorem nearestMultiple_le (f : BinaryFormat) (num : Nat) :
    nearestMultiple f num den ≤ Nat.pow 2 f.precision := by
  have hlt : num * Nat.pow 2 f.scale / stepUnits f num den < Nat.pow 2 f.precision :=
    (Nat.div_lt_iff_lt_mul (stepUnits_pos hden f num)).mpr (lt_stepUnits hden f num)
  unfold nearestMultiple
  rcases divHalfEven_cases (num * Nat.pow 2 f.scale) (stepUnits f num den) with
    ⟨he, -⟩ | ⟨he, -⟩ <;> omega

include hf hden in
theorem le_nearestMultiple (hstep : stepOf f num den ≠ 0) :
    Nat.pow 2 (f.precision - 1) ≤ nearestMultiple f num den := by
  have hle : Nat.pow 2 (f.precision - 1) ≤ num * Nat.pow 2 f.scale / stepUnits f num den :=
    (Nat.le_div_iff_mul_le (stepUnits_pos hden f num)).mpr (stepUnits_le hf hden hstep)
  unfold nearestMultiple
  rcases divHalfEven_cases (num * Nat.pow 2 f.scale) (stepUnits f num den) with
    ⟨he, -⟩ | ⟨he, -⟩ <;> omega

/-! ## What the rounding is -/

/-- Significand and step of the rounding. A multiple that is one bit too wide is a power of two
and moves to the next step. -/
def rounded (f : BinaryFormat) (num den : Nat) : Nat × Nat :=
  if nearestMultiple f num den = Nat.pow 2 f.precision then
    (Nat.pow 2 (f.precision - 1), stepOf f num den + 1)
  else (nearestMultiple f num den, stepOf f num den)

theorem ofRatio?_eq (f : BinaryFormat) (num den : Nat) :
    ofRatio? f num den =
      if h : f.Canonical (rounded f num den).1 (rounded f num den).2 then some ⟨_, _, h⟩
      else none :=
  rfl

/-- Only the ratio counts. -/
theorem ofRatio?_mul_right (f : BinaryFormat) (num den : Nat) {k : Nat} (hk : 0 < k) :
    ofRatio? f (num * k) (den * k) = ofRatio? f num den := by
  have hstep : stepOf f (num * k) (den * k) = stepOf f num den := by
    rw [stepOf, Nat.mul_right_comm, Nat.mul_div_mul_right _ _ hk, stepOf]
  have hmultiple : nearestMultiple f (num * k) (den * k) = nearestMultiple f num den := by
    rw [nearestMultiple, stepUnits, hstep, Nat.mul_right_comm, Nat.mul_right_comm den,
      divHalfEven_mul_right _ _ hk, nearestMultiple, stepUnits]
  have hrounded : rounded f (num * k) (den * k) = rounded f num den := by
    rw [rounded, hstep, hmultiple, rounded]
  rw [ofRatio?_eq, ofRatio?_eq]
  simp only [hrounded]

include hf in
/-- The rounding is the nearest multiple of the step, and no less even. -/
theorem rounded_spec :
    (rounded f num den).1 * Nat.pow 2 (rounded f num den).2 =
        nearestMultiple f num den * Nat.pow 2 (stepOf f num den) ∧
      (nearestMultiple f num den % 2 = 0 → (rounded f num den).1 % 2 = 0) := by
  obtain ⟨p, hp⟩ : ∃ p, f.precision = p + 2 := ⟨f.precision - 2, by have := hf.precision; omega⟩
  unfold rounded
  split
  case isTrue hcarry =>
    have hpred : p + 2 - 1 = p + 1 := by omega
    rw [hcarry, hp, hpred]
    refine ⟨?_, fun _ => ?_⟩
    · rw [← two_pow_add, ← two_pow_add]
      congr 1
      omega
    · rw [two_pow_add]
      exact Nat.mul_mod_left _ _
  case isFalse => exact ⟨rfl, id⟩

include hf hden in
theorem canonical_rounded (hstep : stepOf f num den < f.maxStep) :
    f.Canonical (rounded f num den).1 (rounded f num den).2 := by
  have hprecision := hf.precision
  unfold rounded
  split
  case isTrue => exact ⟨Nat.pow_lt_pow_right (by decide) (by omega), hstep, .inr (Nat.le_refl _)⟩
  case isFalse hcarry =>
    refine ⟨Nat.lt_of_le_of_ne (nearestMultiple_le hden f num) hcarry, Nat.le_of_lt hstep, ?_⟩
    rcases Nat.eq_zero_or_pos (stepOf f num den) with hzero | hpos
    · exact .inl hzero
    · exact .inr (le_nearestMultiple hf hden (Nat.ne_of_gt hpos))

include hf in
theorem units_ofRatio? {x : Magnitude f} (h : ofRatio? f num den = some x) :
    x.units = nearestMultiple f num den * Nat.pow 2 (stepOf f num den) ∧
      (nearestMultiple f num den % 2 = 0 → x.significand % 2 = 0) := by
  rw [ofRatio?_eq] at h
  split at h
  · obtain rfl := Option.some.inj h
    exact rounded_spec hf
  · cases h

include hf hden in
/-- A ratio below the last binade of the format has a rounding. -/
theorem exists_ofRatio? (hlt : num * Nat.pow 2 f.scale <
      Nat.pow 2 (f.precision - 1) * (den * Nat.pow 2 f.maxStep)) :
    ∃ x, ofRatio? f num den = some x := by
  have hstep : stepOf f num den < f.maxStep := by
    by_contra hge
    have hmaxStep := hf.maxStep
    have hratio : Nat.pow 2 (f.precision - 1) * stepUnits f num den ≤ num * Nat.pow 2 f.scale :=
      stepUnits_le hf hden (by omega)
    have hlast : Nat.pow 2 (f.precision - 1) * (den * Nat.pow 2 f.maxStep) ≤
        Nat.pow 2 (f.precision - 1) * stepUnits f num den :=
      Nat.mul_le_mul_left _ (Nat.mul_le_mul_left den (two_pow_le (Nat.le_of_not_lt hge)))
    omega
  exact ⟨_, dif_pos (canonical_rounded hf hden hstep)⟩

/-! ## Nearest, and ties to even -/

include hf in
/-- In units of a step a magnitude is a whole number, or less than a significand of full width. -/
theorem units_cases (y : Magnitude f) (step : Nat) :
    (∃ k, y.units = k * Nat.pow 2 step) ∨
      (step ≠ 0 ∧ y.units < Nat.pow 2 (f.precision - 1) * Nat.pow 2 step) := by
  have hprecision := hf.precision
  unfold units
  rcases Nat.lt_or_ge y.step step with h | h
  · refine .inr ⟨by omega, ?_⟩
    calc y.significand * Nat.pow 2 y.step
        < Nat.pow 2 f.precision * Nat.pow 2 y.step :=
          Nat.mul_lt_mul_of_pos_right y.canonical.1 (two_pow_pos _)
      _ ≤ Nat.pow 2 (f.precision - 1) * Nat.pow 2 step := by
          rw [← two_pow_add, ← two_pow_add]
          exact two_pow_le (by omega)
  · refine .inl ⟨y.significand * Nat.pow 2 (y.step - step), ?_⟩
    rw [Nat.mul_assoc, ← two_pow_add, Nat.sub_add_cancel h]

/-- How far a magnitude lies from a ratio, in units of `1 / (den * 2^scale)`. -/
def distTo (y : Magnitude f) (num den : Nat) : Nat :=
  Nat.dist (num * Nat.pow 2 f.scale) (y.units * den)

include hf in
theorem distTo_ofRatio? {x : Magnitude f} (h : ofRatio? f num den = some x) :
    x.distTo num den =
      Nat.dist (num * Nat.pow 2 f.scale) (nearestMultiple f num den * stepUnits f num den) := by
  rw [distTo, (units_ofRatio? hf h).1, stepUnits]
  congr 1
  ac_rfl

include hf hden in
/-- A magnitude off the grid of the step is farther from the ratio than the rounding. -/
theorem distTo_lt_of_lt {x y : Magnitude f} (h : ofRatio? f num den = some x)
    (hstep : stepOf f num den ≠ 0)
    (hy : y.units < Nat.pow 2 (f.precision - 1) * Nat.pow 2 (stepOf f num den)) :
    x.distTo num den < y.distTo num den := by
  have hratio := stepUnits_le hf hden hstep
  have hnearest := dist_divHalfEven_le (num * Nat.pow 2 f.scale) (stepUnits_pos hden f num)
    (Nat.pow 2 (f.precision - 1))
  have hbelow : y.units * den < Nat.pow 2 (f.precision - 1) * stepUnits f num den := by
    rw [stepUnits, Nat.mul_left_comm, Nat.mul_comm den]
    exact Nat.mul_lt_mul_of_pos_right hy hden
  rw [distTo_ofRatio? hf h]
  unfold nearestMultiple distTo
  unfold Nat.dist at hnearest ⊢
  omega

include hf hden in
/-- No magnitude of the format is nearer to a ratio than the rounding of the ratio. -/
theorem distTo_ofRatio?_le {x : Magnitude f} (h : ofRatio? f num den = some x) (y : Magnitude f) :
    x.distTo num den ≤ y.distTo num den := by
  rcases units_cases hf y (stepOf f num den) with ⟨k, hk⟩ | ⟨hstep, hy⟩
  · rw [distTo_ofRatio? hf h, distTo, hk, Nat.mul_assoc, Nat.mul_comm _ den]
    exact dist_divHalfEven_le _ (stepUnits_pos hden f num) k
  · exact Nat.le_of_lt (distTo_lt_of_lt hf hden h hstep hy)

include hf hden in
/-- Where another magnitude is as near as the rounding, the rounding has the even significand. -/
theorem even_of_tie {x y : Magnitude f} (h : ofRatio? f num den = some x)
    (hne : y.units ≠ x.units) (htie : y.distTo num den = x.distTo num den) :
    x.significand % 2 = 0 := by
  obtain ⟨hunits, heven⟩ := units_ofRatio? hf h
  rcases units_cases hf y (stepOf f num den) with ⟨k, hk⟩ | ⟨hstep, hy⟩
  · apply heven
    refine divHalfEven_even_of_tie (stepUnits_pos hden f num) (k := k) ?_ ?_
    · rintro rfl
      exact hne (hk.trans hunits.symm)
    · rw [distTo_ofRatio? hf h, distTo, hk, Nat.mul_assoc, Nat.mul_comm _ den] at htie
      exact htie
  · exact absurd htie.symm (Nat.ne_of_lt (distTo_lt_of_lt hf hden h hstep hy))

end

/-! ## Natural numbers -/

theorem exists_width_of_units {n : Nat} {x : Magnitude f} (h : x.units = n * Nat.pow 2 f.scale) :
    ∃ k j, n = k * Nat.pow 2 j ∧ k < Nat.pow 2 f.precision := by
  unfold units at h
  rcases Nat.lt_or_ge x.step f.scale with hlt | hge
  · -- The unit is a fraction, so the number itself is no wider than the significand.
    refine ⟨n, 0, (Nat.mul_one n).symm, Nat.lt_of_le_of_lt ?_ x.canonical.1⟩
    apply Nat.le_of_mul_le_mul_right _ (two_pow_pos x.step)
    rw [h]
    exact Nat.mul_le_mul_left n (two_pow_le (Nat.le_of_lt hlt))
  · refine ⟨x.significand, x.step - f.scale, ?_, x.canonical.1⟩
    apply Nat.eq_of_mul_eq_mul_right (two_pow_pos f.scale)
    rw [Nat.mul_assoc, ← two_pow_add, Nat.sub_add_cancel hge, h]

/-- The step of a number divides the powers of two in it, as far as the rest fits the
significand. -/
theorem stepOf_le (hf : f.Roomy) {k : Nat} (hk : k < Nat.pow 2 f.precision) (j : Nat) :
    stepOf f (k * Nat.pow 2 j) 1 ≤ j + f.scale := by
  have hprecision := hf.precision
  by_contra hlt
  have hratio : Nat.pow 2 (f.precision - 1) * stepUnits f (k * Nat.pow 2 j) 1 ≤
      k * Nat.pow 2 j * Nat.pow 2 f.scale :=
    stepUnits_le hf Nat.one_pos (by omega)
  have hsmall : k * Nat.pow 2 j * Nat.pow 2 f.scale <
      Nat.pow 2 (f.precision + (j + f.scale)) := by
    rw [Nat.mul_assoc, ← two_pow_add j, two_pow_add f.precision]
    exact Nat.mul_lt_mul_of_pos_right hk (two_pow_pos _)
  have hlarge : Nat.pow 2 (f.precision + (j + f.scale)) ≤
      Nat.pow 2 (f.precision - 1) * stepUnits f (k * Nat.pow 2 j) 1 := by
    rw [stepUnits_one, ← two_pow_add]
    exact two_pow_le (by omega)
  omega

/-- A natural number is its own rounding exactly when it is a number of the significand's width
times a power of two. -/
theorem units_ofRatio?_one_iff (hf : f.Roomy) {n : Nat} {x : Magnitude f}
    (h : ofRatio? f n 1 = some x) :
    x.units = n * Nat.pow 2 f.scale ↔
      ∃ k j, n = k * Nat.pow 2 j ∧ k < Nat.pow 2 f.precision := by
  refine ⟨exists_width_of_units, ?_⟩
  rintro ⟨k, j, rfl, hk⟩
  have hstep := stepOf_le hf hk j
  have hmultiple : k * Nat.pow 2 j * Nat.pow 2 f.scale =
      k * Nat.pow 2 (j + f.scale - stepOf f (k * Nat.pow 2 j) 1) *
        stepUnits f (k * Nat.pow 2 j) 1 := by
    rw [stepUnits_one, Nat.mul_assoc, Nat.mul_assoc, ← two_pow_add, ← two_pow_add,
      Nat.sub_add_cancel hstep]
  have hnearest : nearestMultiple f (k * Nat.pow 2 j) 1 =
      k * Nat.pow 2 (j + f.scale - stepOf f (k * Nat.pow 2 j) 1) := by
    unfold nearestMultiple
    rw [hmultiple]
    exact divHalfEven_mul (stepUnits_pos Nat.one_pos f _) _
  rw [(units_ofRatio? hf h).1, hnearest, hmultiple, stepUnits_one]

end Magnitude

/-! ## Signed numbers -/

/-- The integer is a number of the significand's width times a power of two. -/
def BinaryFormat.Represents (f : BinaryFormat) (n : Int) : Prop :=
  ∃ k j, n.natAbs = k * Nat.pow 2 j ∧ k < Nat.pow 2 f.precision

theorem BinaryFormat.represents_of_lt {f : BinaryFormat} {n : Int}
    (h : n.natAbs < Nat.pow 2 f.precision) : f.Represents n :=
  ⟨n.natAbs, 0, (Nat.mul_one _).symm, h⟩

namespace BinaryFloat

variable {f : BinaryFormat}

/-- A magnitude with its sign, in units of the format's least positive number. -/
def signedUnits (negative : Bool) (m : Magnitude f) : Int := if negative then -m.units else m.units

/-- The rational number that is stored, `none` for an infinity and for what is no number. -/
def rational? : BinaryFloat f → Option ℚ
  | .finite negative m => some (mkRat (signedUnits negative m) (Nat.pow 2 f.scale))
  | _ => none

/-- `x` is a number of the format than which none is nearer to `q`, and where another one is as
near, `x` is the one with the even significand. -/
def IsNearest (x : BinaryFloat f) (q : ℚ) : Prop :=
  ∃ negative m r, x = .finite negative m ∧ x.rational? = some r ∧
    ∀ (y : BinaryFloat f) s, y.rational? = some s →
      |q - r| ≤ |q - s| ∧ (|q - s| = |q - r| → s ≠ r → m.significand % 2 = 0)

theorem abs_sub_mkRat (n a : Int) {d : Nat} (hd : 0 < d) :
    |(n : ℚ) - mkRat a d| = ((n * d - a).natAbs : ℚ) / d := by
  have hd' : (0 : ℚ) < d := by exact_mod_cast hd
  rw [Rat.mkRat_eq_div, eq_div_iff hd'.ne', ← abs_of_pos hd', ← abs_mul, sub_mul, abs_of_pos hd',
    div_mul_cancel₀ _ hd'.ne', Nat.cast_natAbs]
  push_cast
  rfl

/-- How far a signed magnitude lies from an integer, in units of `1 / 2^scale`. -/
def distToInt (negative : Bool) (y : Magnitude f) (n : Int) : Nat :=
  (n * Nat.pow 2 f.scale - signedUnits negative y).natAbs

theorem abs_sub_signedUnits (negative : Bool) (y : Magnitude f) (n : Int) :
    |(n : ℚ) - mkRat (signedUnits negative y) (Nat.pow 2 f.scale)| =
      (distToInt negative y n : ℚ) / (Nat.pow 2 f.scale : Nat) :=
  abs_sub_mkRat n _ (two_pow_pos _)

theorem mul_eq_signed (n : Int) (unit : Nat) :
    n * unit = if n < 0 then -((n.natAbs * unit : Nat) : Int) else (n.natAbs * unit : Nat) := by
  split
  case isTrue h =>
    rw [Nat.cast_mul, ← Int.neg_mul, Int.ofNat_natAbs_of_nonpos (by omega), Int.neg_neg]
  case isFalse h => rw [Nat.cast_mul, Int.natAbs_of_nonneg (by omega)]

theorem distToInt_sameSign (y : Magnitude f) (n : Int) :
    distToInt (decide (n < 0)) y n = y.distTo n.natAbs 1 := by
  unfold distToInt signedUnits Magnitude.distTo Nat.dist
  rw [mul_eq_signed]
  simp only [decide_eq_true_eq]
  split <;> omega

theorem distToInt_otherSign {negative : Bool} {n : Int} (hsign : negative ≠ decide (n < 0))
    (y : Magnitude f) :
    distToInt negative y n = n.natAbs * Nat.pow 2 f.scale + y.units := by
  unfold distToInt signedUnits
  rw [mul_eq_signed]
  by_cases h : n < 0
  · obtain rfl : negative = false := by simpa [h] using hsign
    simp only [h, ↓reduceIte, Bool.false_eq_true]
    omega
  · obtain rfl : negative = true := by simpa [h] using hsign
    simp only [h, ↓reduceIte]
    omega

/-- A number of the other sign is no nearer to an integer than zero is. -/
theorem exists_sameSign (negative : Bool) (y : Magnitude f) (n : Int) :
    ∃ y' : Magnitude f, y'.distTo n.natAbs 1 ≤ distToInt negative y n ∧
      (y'.distTo n.natAbs 1 = distToInt negative y n →
        signedUnits (decide (n < 0)) y' = signedUnits negative y) := by
  by_cases hsign : negative = decide (n < 0)
  · subst hsign
    exact ⟨y, Nat.le_of_eq (distToInt_sameSign y n).symm, fun _ => rfl⟩
  · have hunits : (Magnitude.zero : Magnitude f).units = 0 := Nat.zero_mul _
    have hzero : (Magnitude.zero : Magnitude f).distTo n.natAbs 1 =
        n.natAbs * Nat.pow 2 f.scale := by
      rw [Magnitude.distTo, hunits, Nat.zero_mul, Nat.dist_zero_right]
    rw [distToInt_otherSign hsign]
    refine ⟨Magnitude.zero, by omega, fun heq => ?_⟩
    have hyunits : y.units = 0 := by omega
    simp [signedUnits, hunits, hyunits]

theorem ofInt_of_some {n : Int} {m : Magnitude f} (h : Magnitude.ofRatio? f n.natAbs 1 = some m) :
    (ofInt n : BinaryFloat f) = .finite (decide (n < 0)) m := by
  rw [ofInt, ofRatio, h]

/-- The integers below the last binade of the format. -/
def InRange (f : BinaryFormat) (n : Int) : Prop :=
  n.natAbs * Nat.pow 2 f.scale < Nat.pow 2 (f.precision - 1 + f.maxStep)

theorem InRange.exists_ofRatio? (hf : f.Roomy) {n : Int} (hn : InRange f n) :
    ∃ m, Magnitude.ofRatio? f n.natAbs 1 = some m :=
  Magnitude.exists_ofRatio? hf Nat.one_pos (by rwa [Nat.one_mul, ← two_pow_add])

/-- An integer in range is rounded to the nearest number of the format, ties to even. -/
theorem isNearest_ofInt (hf : f.Roomy) {n : Int} (hn : InRange f n) :
    (ofInt n : BinaryFloat f).IsNearest n := by
  obtain ⟨m, hm⟩ := hn.exists_ofRatio? hf
  have hunit : (0 : ℚ) < (Nat.pow 2 f.scale : Nat) := by exact_mod_cast two_pow_pos f.scale
  refine ⟨decide (n < 0), m, _, ofInt_of_some hm, by rw [ofInt_of_some hm]; rfl, ?_⟩
  intro y s hy
  cases y with
  | nan | infinite => cases hy
  | finite negative y =>
    obtain rfl := Option.some.inj hy
    obtain ⟨y', hle, heq⟩ := exists_sameSign negative y n
    have hnearest := Magnitude.distTo_ofRatio?_le hf Nat.one_pos hm y'
    rw [abs_sub_signedUnits, abs_sub_signedUnits, div_le_div_iff_of_pos_right hunit,
      div_left_inj' hunit.ne', Nat.cast_le, Nat.cast_inj, distToInt_sameSign]
    refine ⟨hnearest.trans hle, fun htie hne => ?_⟩
    have hsame : y'.distTo n.natAbs 1 = distToInt negative y n :=
      Nat.le_antisymm hle (htie ▸ hnearest)
    refine Magnitude.even_of_tie hf Nat.one_pos hm (y := y') ?_ (hsame.trans htie)
    intro hunits
    apply hne
    rw [← heq hsame, signedUnits, signedUnits, hunits]

/-- An integer in range is rounded to itself exactly when the format represents it. -/
theorem rational?_ofInt_iff (hf : f.Roomy) {n : Int} (hn : InRange f n) :
    (ofInt n : BinaryFloat f).rational? = some (n : ℚ) ↔ f.Represents n := by
  obtain ⟨m, hm⟩ := hn.exists_ofRatio? hf
  have hunit : (0 : ℚ) < (Nat.pow 2 f.scale : Nat) := by exact_mod_cast two_pow_pos f.scale
  rw [BinaryFormat.Represents, ← Magnitude.units_ofRatio?_one_iff hf hm, ofInt_of_some hm,
    rational?, Option.some.injEq, eq_comm, ← sub_eq_zero, ← abs_eq_zero, abs_sub_signedUnits,
    div_eq_zero_iff, or_iff_left hunit.ne', Nat.cast_eq_zero, distToInt_sameSign,
    Magnitude.distTo, Nat.mul_one]
  unfold Nat.dist
  omega

end BinaryFloat

end StorePlan.Number
