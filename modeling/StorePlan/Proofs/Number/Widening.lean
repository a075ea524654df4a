import StorePlan.Proofs.Number.Shortest

/-
Conversion to a wider format. A number of 32 bits is among those of 64 bits, and
a number of either is its own rounding, so nothing becomes infinite and what is
converted back is what it was (`BinaryFloat.convert_convert`).
-/

namespace StorePlan.Number

/-- The other format has room for the significands, the least positive number and the greatest
numbers of this one. -/
structure BinaryFormat.FitsIn (f g : BinaryFormat) : Prop where
  precision : f.precision ≤ g.precision
  scale : f.scale ≤ g.scale
  range : f.precision + f.maxStep + (g.scale - f.scale) ≤ g.precision - 1 + g.maxStep

theorem BinaryFormat.single_fitsIn_double : BinaryFormat.single.FitsIn .double :=
  ⟨by decide, by decide, by decide⟩

variable {f g : BinaryFormat}

namespace Magnitude

theorem units_lt (x : Magnitude f) : x.units < Nat.pow 2 (f.precision + x.step) := by
  rw [two_pow_add]
  exact Nat.mul_lt_mul_of_pos_right x.canonical.1 (two_pow_pos _)

theorem stepOf_units (hf : f.Roomy) (x : Magnitude f) :
    stepOf f x.units (Nat.pow 2 f.scale) = x.step := by
  have hprecision := hf.precision
  have hunits := x.units_lt
  rw [stepOf, Nat.mul_div_cancel _ (two_pow_pos _)]
  by_cases hzero : x.units = 0
  · rcases x.canonical.2.2 with hstep | hfull
    · rw [hzero, hstep, Nat.log2_zero]
      omega
    · have hpos : 0 < x.units :=
        Nat.mul_pos (Nat.lt_of_lt_of_le (two_pow_pos _) hfull) (two_pow_pos _)
      omega
  · have hlt : x.units.log2 < f.precision + x.step := (Nat.log2_lt hzero).2 hunits
    rcases x.canonical.2.2 with hstep | hfull
    · omega
    · have hle : Nat.pow 2 (f.precision - 1 + x.step) ≤ x.units := by
        rw [two_pow_add]
        exact Nat.mul_le_mul_right _ hfull
      have hlog : f.precision - 1 + x.step ≤ x.units.log2 := (Nat.le_log2 hzero).2 hle
      omega

/-- A magnitude is its own rounding. -/
theorem ofRatio?_units (hf : f.Roomy) (x : Magnitude f) :
    ofRatio? f x.units (Nat.pow 2 f.scale) = some x := by
  have hmultiple : nearestMultiple f x.units (Nat.pow 2 f.scale) = x.significand := by
    have hproduct : x.units * Nat.pow 2 f.scale =
        x.significand * stepUnits f x.units (Nat.pow 2 f.scale) := by
      rw [stepUnits, stepOf_units hf, units]
      ac_rfl
    rw [nearestMultiple, hproduct, divHalfEven_mul (stepUnits_pos (two_pow_pos _) f _)]
  have hrounded : rounded f x.units (Nat.pow 2 f.scale) = (x.significand, x.step) := by
    rw [rounded, hmultiple, stepOf_units hf, if_neg (Nat.ne_of_lt x.canonical.1)]
  rw [ofRatio?_eq, hrounded, dif_pos x.canonical]

/-- A ratio that is a multiple of its step is its own rounding. -/
theorem units_mul_of_dvd (hg : g.Roomy) {num den k : Nat} {y : Magnitude g} (hden : 0 < den)
    (h : ofRatio? g num den = some y) (hk : num * Nat.pow 2 g.scale = k * stepUnits g num den) :
    y.units * den = num * Nat.pow 2 g.scale := by
  have hnearest : nearestMultiple g num den = k := by
    rw [nearestMultiple, hk, divHalfEven_mul (stepUnits_pos hden g num)]
  rw [(units_ofRatio? hg h).1, hnearest, hk, stepUnits]
  ac_rfl

/-- In a format with room for it, a magnitude is its own rounding. -/
theorem exists_units_eq (hg : g.Roomy) (hfit : f.FitsIn g) (x : Magnitude f) :
    ∃ y, ofRatio? g x.units (Nat.pow 2 f.scale) = some y ∧
      y.units = x.units * Nat.pow 2 (g.scale - f.scale) := by
  obtain ⟨hprecision, hscale, hrange⟩ := hfit
  have hroom := hg.precision
  have hstep := x.canonical.2.1
  have hden := two_pow_pos f.scale
  have hsplit : Nat.pow 2 g.scale = Nat.pow 2 (g.scale - f.scale) * Nat.pow 2 f.scale := by
    rw [← two_pow_add, Nat.sub_add_cancel hscale]
  have hlarge : x.units * Nat.pow 2 g.scale < Nat.pow 2 (f.precision + x.step + g.scale) := by
    rw [two_pow_add _ g.scale]
    exact Nat.mul_lt_mul_of_pos_right x.units_lt (two_pow_pos _)
  obtain ⟨y, hy⟩ : ∃ y, ofRatio? g x.units (Nat.pow 2 f.scale) = some y := by
    refine exists_ofRatio? hg hden (Nat.lt_of_lt_of_le hlarge ?_)
    rw [← two_pow_add, ← two_pow_add]
    exact two_pow_le (by omega)
  have hstepOf : stepOf g x.units (Nat.pow 2 f.scale) ≤ x.step + (g.scale - f.scale) := by
    by_contra hlt
    have hratio : Nat.pow 2 (g.precision - 1) * stepUnits g x.units (Nat.pow 2 f.scale) ≤
        x.units * Nat.pow 2 g.scale := stepUnits_le hg hden (by omega)
    have hwide := two_pow_le (m := f.precision + x.step + g.scale)
      (n := g.precision - 1 + (f.scale + stepOf g x.units (Nat.pow 2 f.scale))) (by omega)
    rw [stepUnits, ← two_pow_add, ← two_pow_add] at hratio
    omega
  have hmultiple : x.units * Nat.pow 2 g.scale =
      x.significand * Nat.pow 2 (x.step + (g.scale - f.scale) -
        stepOf g x.units (Nat.pow 2 f.scale)) * stepUnits g x.units (Nat.pow 2 f.scale) := by
    have hpower := two_pow_add (x.step + (g.scale - f.scale) -
      stepOf g x.units (Nat.pow 2 f.scale)) (stepOf g x.units (Nat.pow 2 f.scale))
    rw [Nat.sub_add_cancel hstepOf, two_pow_add] at hpower
    calc x.units * Nat.pow 2 g.scale
        = x.significand * (Nat.pow 2 x.step * Nat.pow 2 (g.scale - f.scale)) *
            Nat.pow 2 f.scale := by rw [hsplit, units]; ac_rfl
      _ = _ := by rw [hpower, stepUnits]; ac_rfl
  refine ⟨y, hy, Nat.eq_of_mul_eq_mul_right hden ?_⟩
  rw [units_mul_of_dvd hg hden hy hmultiple, hsplit, Nat.mul_assoc]

end Magnitude

namespace BinaryFloat

theorem convert_finite (hg : g.Roomy) (hfit : f.FitsIn g) (negative : Bool) (m : Magnitude f) :
    ∃ n : Magnitude g, (finite negative m).convert = finite negative n ∧
      n.units = m.units * Nat.pow 2 (g.scale - f.scale) := by
  obtain ⟨n, hn, hunits⟩ := Magnitude.exists_units_eq hg hfit m
  exact ⟨n, by rw [convert, ofRatio, hn], hunits⟩

theorem isFinite_convert (hg : g.Roomy) (hfit : f.FitsIn g) (x : BinaryFloat f) :
    (x.convert : BinaryFloat g).isFinite = x.isFinite := by
  cases x with
  | nan | infinite => rfl
  | finite negative m =>
    obtain ⟨n, hn, -⟩ := convert_finite hg hfit negative m
    rw [hn]
    rfl

/-- A number is what its conversion to a wider format is converted back to. -/
theorem convert_convert (hf : f.Roomy) (hg : g.Roomy) (hfit : f.FitsIn g) {x : BinaryFloat f}
    (hx : x.isFinite = true) : ((x.convert : BinaryFloat g).convert : BinaryFloat f) = x := by
  cases x with
  | nan | infinite => cases hx
  | finite negative m =>
    obtain ⟨n, hn, hunits⟩ := convert_finite hg hfit negative m
    have hscale : Nat.pow 2 g.scale = Nat.pow 2 f.scale * Nat.pow 2 (g.scale - f.scale) := by
      rw [← two_pow_add, Nat.add_sub_cancel' hfit.scale]
    rw [hn, convert, ofRatio, hunits, hscale, Magnitude.ofRatio?_mul_right f _ _ (two_pow_pos _),
      Magnitude.ofRatio?_units hf]

/-- No two numbers become one. -/
theorem convert_inj (hf : f.Roomy) (hg : g.Roomy) (hfit : f.FitsIn g) {x y : BinaryFloat f}
    (hx : x.isFinite = true) (hy : y.isFinite = true)
    (h : (x.convert : BinaryFloat g) = y.convert) : x = y := by
  rw [← convert_convert hf hg hfit hx, h, convert_convert hf hg hfit hy]

end BinaryFloat

end StorePlan.Number
