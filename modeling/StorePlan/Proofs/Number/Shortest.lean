import Mathlib.Algebra.Order.Field.Power
import Mathlib.Tactic.FieldSimp
import Mathlib.Tactic.Linarith
import Mathlib.Tactic.Ring
import StorePlan.Number.Shortest
import StorePlan.Proofs.Number.Rounding

/-
What the shortest digits of a magnitude stand for.

The rational numbers that round to a magnitude are those in its interval
(`Magnitude.Rounds`). No number is in the intervals of two magnitudes
(`Magnitude.eq_of_rounds`), and the shortest digits stand for one in the
interval (`Magnitude.rounds_shortest`), so no two magnitudes share them. For the
latter the search has to end with a hit: with seventeen digits the grid is
finer than the interval is wide, and one of the two points next to the magnitude
lies in it.
-/

namespace StorePlan.Number

/-! ## Digits as rational numbers -/

/-- The number that the digits stand for. -/
def DecimalDigits.value (x : DecimalDigits) : ℚ := x.digits * 10 ^ x.exponent

theorem DecimalDigits.value_trimZeros (fuel : Nat) (x : DecimalDigits) :
    (x.trimZeros fuel).value = x.value := by
  induction fuel generalizing x with
  | zero => rfl
  | succ fuel ih =>
    unfold trimZeros
    split_ifs with h
    · have hdigits : (x.digits : ℚ) = (x.digits / 10 : Nat) * 10 := by
        exact_mod_cast (Nat.div_mul_cancel (Nat.dvd_of_mod_eq_zero h.2)).symm
      rw [ih, value, value, zpow_add_one₀ (by norm_num), hdigits]
      ring
    · rfl

/-! ## Intervals -/

namespace Magnitude

variable {f : BinaryFormat} {x y : Magnitude f} {q : ℚ}

namespace Interval

/-- The numbers in an interval, in quarter units. -/
def Holds (i : Interval) (r : ℚ) : Prop :=
  if i.closed then i.low ≤ r ∧ r ≤ i.high else i.low < r ∧ r < i.high

theorem covers_iff {i : Interval} {den up point : Nat} (hden : 0 < den) :
    i.covers den up point = true ↔ i.Holds (point * up / den) := by
  have hpos : (0 : ℚ) < den := by exact_mod_cast hden
  unfold covers Holds
  split_ifs <;> rw [Bool.and_eq_true, decide_eq_true_eq, decide_eq_true_eq]
  · rw [le_div_iff₀ hpos, div_le_iff₀ hpos]
    exact_mod_cast Iff.rfl
  · rw [lt_div_iff₀ hpos, div_lt_iff₀ hpos]
    exact_mod_cast Iff.rfl

theorem covers_of_lt {i : Interval} {den up point : Nat} (hlow : i.low * den < point * up)
    (hhigh : point * up < i.high * den) : i.covers den up point = true := by
  unfold covers
  split_ifs <;> simp [hlow, hhigh, Nat.le_of_lt]

/-- An interval ends where another starts, or before, and where they meet one of the two does not
include its ends. -/
def Precedes (i j : Interval) : Prop :=
  i.high ≤ j.low ∧ (i.high = j.low → ¬(i.closed = true ∧ j.closed = true))

theorem low_le_high {i j : Interval} {r : ℚ} (hi : i.Holds r) (hj : j.Holds r) :
    i.low ≤ j.high ∧ (i.low = j.high → i.closed = true ∧ j.closed = true) := by
  unfold Holds at hi hj
  have hle : (i.low : ℚ) ≤ j.high := by
    split_ifs at hi hj <;> linarith [hi.1, hj.2]
  refine ⟨by exact_mod_cast hle, fun heq => ?_⟩
  have heq' : (i.low : ℚ) = j.high := by exact_mod_cast heq
  split_ifs at hi hj with hi' hj' hj' <;>
    first | exact ⟨hi', hj'⟩ | (exfalso; linarith [hi.1, hj.2])

end Interval

/-- The number rounds to the magnitude. -/
def Rounds (x : Magnitude f) (q : ℚ) : Prop := x.interval.Holds (4 * 2 ^ f.scale * q)

/-! ## One magnitude for a number -/

theorem two_pow_succ (n : Nat) : Nat.pow 2 (n + 1) = 2 * Nat.pow 2 n := by
  rw [two_pow_add, Nat.mul_comm]

/-- The lower end of an interval, which is nearer at the start of a binade. -/
theorem low_cases (x : Magnitude f) :
    (x.interval.low = 4 * x.units - 2 * Nat.pow 2 x.step ∧
        (x.step = 0 ∨ x.significand ≠ Nat.pow 2 (f.precision - 1))) ∨
      (x.interval.low = 4 * x.units - Nat.pow 2 x.step ∧
        x.significand = Nat.pow 2 (f.precision - 1)) := by
  unfold interval
  dsimp only
  split_ifs with h
  · exact .inr ⟨rfl, h.2⟩
  · exact .inl ⟨rfl, by tauto⟩

theorem high_eq (x : Magnitude f) : x.interval.high = 4 * x.units + 2 * Nat.pow 2 x.step := rfl

theorem closed_iff (x : Magnitude f) : x.interval.closed = true ↔ x.significand % 2 = 0 := by
  simp [interval]

/-- With one step, intervals meet where the significands follow each other, and then one of the two
is odd. -/
theorem precedes_of_step_eq (heq : x.step = y.step) (h : x.significand < y.significand) :
    x.interval.Precedes y.interval := by
  have hgap : 0 < Nat.pow 2 y.step := two_pow_pos _
  obtain ⟨k, hk⟩ : ∃ k, y.significand = x.significand + 1 + k := Nat.exists_eq_add_of_le h
  have hmore : y.significand * Nat.pow 2 y.step =
      x.significand * Nat.pow 2 y.step + Nat.pow 2 y.step + k * Nat.pow 2 y.step := by
    rw [hk]
    ring
  have hstep : k ≠ 0 → Nat.pow 2 y.step ≤ k * Nat.pow 2 y.step :=
    fun hk => Nat.le_mul_of_pos_left _ (Nat.pos_of_ne_zero hk)
  have hlow := low_cases y
  rw [Interval.Precedes, closed_iff, closed_iff, high_eq, heq]
  unfold units at hlow ⊢
  rw [heq]
  omega

section Disjoint

variable (hf : f.Roomy)

include hf

theorem two_pow_precision : Nat.pow 2 f.precision = 2 * Nat.pow 2 (f.precision - 1) := by
  have hprecision := hf.precision
  rw [← two_pow_succ, Nat.sub_add_cancel (by omega)]

/-- A magnitude with a greater step is the greater one. -/
theorem units_lt_of_step_lt (h : x.step < y.step) : x.units < y.units := by
  have hsignificand : Nat.pow 2 (f.precision - 1) ≤ y.significand :=
    y.canonical.2.2.resolve_left (by omega)
  calc x.units < Nat.pow 2 f.precision * Nat.pow 2 x.step :=
        Nat.mul_lt_mul_of_pos_right x.canonical.1 (two_pow_pos _)
    _ = Nat.pow 2 (f.precision - 1) * Nat.pow 2 (x.step + 1) := by
        rw [two_pow_precision hf, two_pow_succ]
        ring
    _ ≤ y.units := Nat.mul_le_mul hsignificand (two_pow_le h)

theorem eq_of_units (h : x.units = y.units) : x = y := by
  have hstep : x.step = y.step := by
    rcases Nat.lt_trichotomy x.step y.step with hlt | heq | hgt
    · exact absurd h (Nat.ne_of_lt (units_lt_of_step_lt hf hlt))
    · exact heq
    · exact absurd h.symm (Nat.ne_of_lt (units_lt_of_step_lt hf hgt))
  obtain ⟨m, s, _⟩ := x
  obtain ⟨n, t, _⟩ := y
  obtain rfl : s = t := hstep
  obtain rfl : m = n := Nat.eq_of_mul_eq_mul_right (two_pow_pos s) h
  rfl

/-- A greater step is a multiple of twice the smaller one, so even the least significand takes the
interval past the other. -/
theorem precedes_of_step_lt (hlt : x.step < y.step) : x.interval.Precedes y.interval := by
  have hgap : 0 < Nat.pow 2 x.step := two_pow_pos _
  obtain ⟨j, hj⟩ : ∃ j, Nat.pow 2 y.step = 2 * (Nat.pow 2 x.step * (j + 1)) := by
    refine ⟨Nat.pow 2 (y.step - (x.step + 1)) - 1, ?_⟩
    rw [Nat.sub_add_cancel (two_pow_pos _), ← two_pow_add, ← two_pow_succ]
    congr 1
    omega
  obtain ⟨a, ha⟩ : ∃ a, 2 * Nat.pow 2 (f.precision - 1) = x.significand + 1 + a :=
    Nat.exists_eq_add_of_le (by rw [← two_pow_precision hf]; exact x.canonical.1)
  obtain ⟨b, hb⟩ : ∃ b, y.significand = Nat.pow 2 (f.precision - 1) + b :=
    Nat.exists_eq_add_of_le (y.canonical.2.2.resolve_left (by omega))
  have hleast : 2 * (Nat.pow 2 (f.precision - 1) * Nat.pow 2 y.step) =
      2 * (x.significand * Nat.pow 2 x.step + Nat.pow 2 x.step + a * Nat.pow 2 x.step +
        (x.significand * Nat.pow 2 x.step + Nat.pow 2 x.step + a * Nat.pow 2 x.step) * j) := by
    rw [← Nat.mul_assoc, ha, hj]
    ring
  have hmore : y.significand * Nat.pow 2 y.step =
      Nat.pow 2 (f.precision - 1) * Nat.pow 2 y.step + b * Nat.pow 2 y.step := by
    rw [hb, Nat.add_mul]
  have hwider : Nat.pow 2 x.step * j ≤
      (x.significand * Nat.pow 2 x.step + Nat.pow 2 x.step + a * Nat.pow 2 x.step) * j :=
    Nat.mul_le_mul_right j (by omega)
  have hstep : b ≠ 0 → Nat.pow 2 y.step ≤ b * Nat.pow 2 y.step :=
    fun hb => Nat.le_mul_of_pos_left _ (Nat.pos_of_ne_zero hb)
  have hodd : a * Nat.pow 2 x.step = 0 → a = 0 :=
    fun ha => (Nat.mul_eq_zero.1 ha).resolve_right (Nat.ne_of_gt hgap)
  have hlow := low_cases y
  rw [Nat.mul_add, Nat.mul_one] at hj
  rw [Interval.Precedes, closed_iff, closed_iff, high_eq]
  unfold units at hlow ⊢
  omega

theorem precedes_of_units_lt (h : x.units < y.units) : x.interval.Precedes y.interval := by
  rcases Nat.lt_trichotomy x.step y.step with hlt | heq | hgt
  · exact precedes_of_step_lt hf hlt
  · refine precedes_of_step_eq heq ?_
    rw [units, units, heq] at h
    exact Nat.lt_of_mul_lt_mul_right h
  · exact absurd h (Nat.lt_asymm (units_lt_of_step_lt hf hgt))

/-- A number rounds to one magnitude at most. -/
theorem eq_of_rounds (hx : x.Rounds q) (hy : y.Rounds q) : x = y := by
  have hne {x y : Magnitude f} (hx : x.Rounds q) (hy : y.Rounds q) : ¬x.units < y.units := by
    intro hlt
    obtain ⟨hle, hopen⟩ := precedes_of_units_lt hf hlt
    obtain ⟨hge, hclosed⟩ := Interval.low_le_high hy hx
    have hmeet : y.interval.low = x.interval.high := Nat.le_antisymm hge hle
    exact hopen hmeet.symm (hclosed hmeet).symm
  exact eq_of_units hf
    (Nat.le_antisymm (Nat.le_of_not_lt (hne hy hx)) (Nat.le_of_not_lt (hne hx hy)))

end Disjoint

/-! ## The search -/

section Search

variable {tie : Tie} {e : Int} {s : DecimalDigits}

/-- What the grid tests of a point is whether it rounds to the magnitude. -/
theorem covers_iff_rounds {point : Nat} :
    x.interval.covers (Nat.pow 10 (-e).toNat) (4 * Nat.pow 2 f.scale * Nat.pow 10 e.toNat) point =
        true ↔ x.Rounds (DecimalDigits.value ⟨point, e⟩) := by
  have hden : 0 < Nat.pow 10 (-e).toNat := Nat.pow_pos (by decide)
  have hpower : (10 : ℚ) ^ e = 10 ^ e.toNat / 10 ^ (-e).toNat := by
    rw [← zpow_natCast, ← zpow_natCast, ← zpow_sub₀ (by norm_num)]
    congr 1
    omega
  have hquarters : (point : ℚ) * (4 * Nat.pow 2 f.scale * Nat.pow 10 e.toNat : Nat) /
      (Nat.pow 10 (-e).toNat : Nat) = 4 * 2 ^ f.scale * DecimalDigits.value ⟨point, e⟩ := by
    simp only [DecimalDigits.value, hpower, Nat.pow_eq]
    push_cast
    ring
  rw [Interval.covers_iff hden, hquarters, Rounds]

/-- A hit rounds to the magnitude. -/
theorem rounds_of_onGrid? (h : onGrid? tie x e = some s) : x.Rounds s.value := by
  unfold onGrid? at h
  dsimp only at h
  split at h
  · cases h
    split_ifs <;> exact covers_iff_rounds.1 ‹_›
  · cases h
    exact covers_iff_rounds.1 ‹_›
  · cases h
    exact covers_iff_rounds.1 ‹_›
  · cases h

theorem exists_of_covers (h : x.interval.covers (Nat.pow 10 (-e).toNat)
        (4 * Nat.pow 2 f.scale * Nat.pow 10 e.toNat)
        (x.interval.middle * Nat.pow 10 (-e).toNat /
          (4 * Nat.pow 2 f.scale * Nat.pow 10 e.toNat)) = true ∨
      x.interval.covers (Nat.pow 10 (-e).toNat) (4 * Nat.pow 2 f.scale * Nat.pow 10 e.toNat)
        (x.interval.middle * Nat.pow 10 (-e).toNat /
          (4 * Nat.pow 2 f.scale * Nat.pow 10 e.toNat) + 1) = true) :
    ∃ s, onGrid? tie x e = some s := by
  unfold onGrid?
  dsimp only
  rcases h with h | h <;> rw [h] <;> split <;> first | exact ⟨_, rfl⟩ | simp_all

theorem middle_mul (x : Magnitude f) (den : Nat) :
    x.interval.middle * den = 4 * (x.significand * (Nat.pow 2 x.step * den)) := by
  simp only [interval, units]
  ring

/-- As many spaces of a fine grid as the significand leaves room for are less than four steps. -/
theorem spacing_lt {den up k : Nat} (hden : 0 < den)
    (hwidth : Nat.pow 2 f.precision < Nat.pow 10 16)
    (hfine : Nat.pow 10 16 * up ≤ x.interval.middle * den)
    (hk : k * x.significand ≤ Nat.pow 2 f.precision) : k * up < 4 * (Nat.pow 2 x.step * den) := by
  have hgap : 0 < Nat.pow 2 x.step * den := Nat.mul_pos (two_pow_pos _) hden
  have hbelow : k * x.significand < Nat.pow 10 16 := Nat.lt_of_le_of_lt hk hwidth
  refine Nat.lt_of_mul_lt_mul_left (a := Nat.pow 10 16) ?_
  calc Nat.pow 10 16 * (k * up) = k * (Nat.pow 10 16 * up) := by ring
    _ ≤ k * (x.interval.middle * den) := Nat.mul_le_mul_left k hfine
    _ = 4 * (k * x.significand * (Nat.pow 2 x.step * den)) := by rw [middle_mul]; ring
    _ < 4 * (Nat.pow 10 16 * (Nat.pow 2 x.step * den)) :=
      Nat.mul_lt_mul_of_pos_left (Nat.mul_lt_mul_of_pos_right hbelow hgap) (by decide)
    _ = Nat.pow 10 16 * (4 * (Nat.pow 2 x.step * den)) := by ring

/-- A grid of which the points are that close has one of the two next to the middle in the
interval. -/
theorem covers_of_fine {den up : Nat} (hden : 0 < den) (hup : 0 < up)
    (hwidth : Nat.pow 2 f.precision < Nat.pow 10 16) (hf : f.Roomy) (hx : x.significand ≠ 0)
    (hfine : Nat.pow 10 16 * up ≤ x.interval.middle * den) :
    x.interval.covers den up (x.interval.middle * den / up) = true ∨
      x.interval.covers den up (x.interval.middle * den / up + 1) = true := by
  have hmiddle := middle_mul x den
  have hhigh : x.interval.high * den =
      x.interval.middle * den + 2 * (Nat.pow 2 x.step * den) := by
    simp only [interval]
    ring
  have hgap : 0 < Nat.pow 2 x.step * den := Nat.mul_pos (two_pow_pos _) hden
  have hsplit := Nat.div_add_mod' (x.interval.middle * den) up
  have hmod := Nat.mod_lt (x.interval.middle * den) hup
  have hnext : (x.interval.middle * den / up + 1) * up =
      x.interval.middle * den / up * up + up := Nat.succ_mul _ _
  have hleast : Nat.pow 2 x.step * den ≤ x.significand * (Nat.pow 2 x.step * den) :=
    Nat.le_mul_of_pos_left _ (Nat.pos_of_ne_zero hx)
  have hlow : x.interval.low * den = x.interval.middle * den - 2 * (Nat.pow 2 x.step * den) ∨
      (x.interval.low * den = x.interval.middle * den - Nat.pow 2 x.step * den ∧
        up < 2 * (Nat.pow 2 x.step * den)) := by
    have hunits : x.interval.middle = 4 * x.units := rfl
    rcases low_cases x with ⟨h, -⟩ | ⟨h, hstart⟩ <;> rw [h, hunits, Nat.sub_mul]
    · exact .inl (by rw [Nat.mul_assoc 2])
    · refine .inr ⟨rfl, ?_⟩
      have hhalf : 2 * up < 4 * (Nat.pow 2 x.step * den) :=
        spacing_lt hden hwidth hfine (by rw [hstart, two_pow_precision hf])
      omega
  have hbound := x.canonical.1
  have hwhole : 1 * up < 4 * (Nat.pow 2 x.step * den) := spacing_lt hden hwidth hfine (by omega)
  by_cases hbelow : x.interval.low * den < x.interval.middle * den / up * up
  · exact .inl (Interval.covers_of_lt hbelow (by omega))
  · exact .inr (Interval.covers_of_lt (by omega) (by omega))

/-- Where the grid is that fine, one of the two points next to the magnitude rounds to it. -/
theorem exists_onGrid? (hf : f.Roomy) (hwidth : Nat.pow 2 f.precision < Nat.pow 10 16)
    (hx : x.significand ≠ 0)
    (he : Nat.pow 10 16 * (Nat.pow 2 f.scale * Nat.pow 10 e.toNat) ≤
      x.units * Nat.pow 10 (-e).toNat) : ∃ s, onGrid? tie x e = some s := by
  refine exists_of_covers (covers_of_fine (Nat.pow_pos (by decide)) ?_ hwidth hf hx ?_)
  · exact Nat.mul_pos (Nat.mul_pos (by decide) (two_pow_pos _)) (Nat.pow_pos (by decide))
  · have hquarters := Nat.mul_le_mul_left 4 he
    simp only [interval]
    linarith

end Search

end Magnitude

/-! ## The leading digit -/

open Text

theorem digitCount_pos (n : Nat) : 0 < digitCount n := List.length_pos_of_ne_nil (digits_ne_nil n)

theorem lt_pow_digitCount (n : Nat) : n < Nat.pow 10 (digitCount n) :=
  (Nat.length_toDigits_le_iff (by decide) (digitCount_pos n)).1 (Nat.le_refl _)

theorem pow_digitCount_le {n : Nat} (hn : 0 < n) : Nat.pow 10 (digitCount n - 1) ≤ n := by
  rcases Nat.eq_zero_or_pos (digitCount n - 1) with hzero | hpos
  · rw [hzero]
    exact hn
  · refine Nat.le_of_not_lt fun hlt => ?_
    have hcount : digitCount n ≤ digitCount n - 1 :=
      (Nat.length_toDigits_le_iff (by decide) hpos).2 hlt
    omega

/-- The power of ten at the leading digit of a ratio is no greater than the ratio. -/
theorem pow_leadingExponent_le {num den : Nat} (hnum : 0 < num) (hden : 0 < den) :
    den * Nat.pow 10 (leadingExponent num den).toNat ≤
      num * Nat.pow 10 (-leadingExponent num den).toNat := by
  unfold leadingExponent
  split_ifs with h
  · have hcount := digitCount_pos (num / den)
    have hup : ((digitCount (num / den) : Int) - 1).toNat = digitCount (num / den) - 1 := by omega
    have hdown : (-((digitCount (num / den) : Int) - 1)).toNat = 0 := by omega
    rw [hup, hdown]
    calc den * Nat.pow 10 (digitCount (num / den) - 1)
        ≤ den * (num / den) := Nat.mul_le_mul_left _ (pow_digitCount_le (Nat.div_pos h hden))
      _ ≤ num * Nat.pow 10 0 := by
        rw [Nat.pow_eq, pow_zero, Nat.mul_one]
        exact Nat.mul_div_le num den
  · have hup : (-(digitCount ((den + num - 1) / num - 1) : Int)).toNat = 0 := by omega
    have hdown : (- -(digitCount ((den + num - 1) / num - 1) : Int)).toNat =
        digitCount ((den + num - 1) / num - 1) := by omega
    rw [hup, hdown]
    -- The quotient, rounded up, is at most the power of ten.
    have hlt := lt_pow_digitCount ((den + num - 1) / num - 1)
    have hquotient : (den + num - 1) / num ≤ Nat.pow 10 (digitCount ((den + num - 1) / num - 1)) := by
      omega
    have hceil : den ≤ num * ((den + num - 1) / num) := by
      have hmod := Nat.mod_lt (den + num - 1) hnum
      have hsplit := Nat.div_add_mod (den + num - 1) num
      omega
    calc den * Nat.pow 10 0 = den := Nat.mul_one den
      _ ≤ num * ((den + num - 1) / num) := hceil
      _ ≤ _ := Nat.mul_le_mul_left num hquotient

namespace Magnitude

variable {f : BinaryFormat} {x y : Magnitude f} {tie : Tie}

theorem units_pos (hx : x.significand ≠ 0) : 0 < x.units :=
  Nat.mul_pos (Nat.pos_of_ne_zero hx) (two_pow_pos _)

/-- The search for the fewest digits ends with a hit. -/
theorem exists_findSome? (hf : f.Roomy) (hwidth : Nat.pow 2 f.precision < Nat.pow 10 16)
    (hx : x.significand ≠ 0) (tie : Tie) :
    ∃ s, (List.range 17).findSome? (fun (n : Nat) =>
      onGrid? tie x (leadingExponent x.units (Nat.pow 2 f.scale) - n)) = some s := by
  have hleading := pow_leadingExponent_le (units_pos hx) (two_pow_pos f.scale)
  generalize leadingExponent x.units (Nat.pow 2 f.scale) = leading at hleading ⊢
  have hfine : Nat.pow 10 16 * (Nat.pow 2 f.scale * Nat.pow 10 (leading - (16 : Nat)).toNat) ≤
      x.units * Nat.pow 10 (-(leading - (16 : Nat))).toNat := by
    have hexponents : Nat.pow 10 16 * Nat.pow 10 (leading - (16 : Nat)).toNat *
        Nat.pow 10 (-leading).toNat =
          Nat.pow 10 leading.toNat * Nat.pow 10 (-(leading - (16 : Nat))).toNat := by
      simp only [Nat.pow_eq, ← Nat.pow_add]
      congr 1
      omega
    refine Nat.le_of_mul_le_mul_right (c := Nat.pow 10 (-leading).toNat) ?_ (Nat.pow_pos (by decide))
    calc Nat.pow 10 16 * (Nat.pow 2 f.scale * Nat.pow 10 (leading - (16 : Nat)).toNat) *
          Nat.pow 10 (-leading).toNat
        = Nat.pow 2 f.scale * (Nat.pow 10 16 * Nat.pow 10 (leading - (16 : Nat)).toNat *
            Nat.pow 10 (-leading).toNat) := by ring
      _ = Nat.pow 2 f.scale * Nat.pow 10 leading.toNat *
            Nat.pow 10 (-(leading - (16 : Nat))).toNat := by rw [hexponents]; ring
      _ ≤ x.units * Nat.pow 10 (-leading).toNat *
            Nat.pow 10 (-(leading - (16 : Nat))).toNat := Nat.mul_le_mul_right _ hleading
      _ = _ := by ring
  obtain ⟨s, hs⟩ : ∃ s, onGrid? tie x (leading - (16 : Nat)) = some s :=
    exists_onGrid? hf hwidth hx hfine
  rw [← Option.isSome_iff_exists, List.findSome?_isSome_iff]
  exact ⟨16, by decide, by rw [hs]; rfl⟩

theorem rounds_zero (hx : x.significand = 0) : x.Rounds 0 := by
  simp [Rounds, Interval.Holds, interval, units, hx]

/-- The shortest digits of a magnitude stand for a number that rounds to it. -/
theorem rounds_shortest (hf : f.Roomy) (hwidth : Nat.pow 2 f.precision < Nat.pow 10 16)
    (tie : Tie) (x : Magnitude f) : x.Rounds (x.shortest tie).value := by
  unfold shortest
  split_ifs with hx
  · simpa [DecimalDigits.value] using rounds_zero hx
  · obtain ⟨s, hs⟩ := exists_findSome? hf hwidth hx tie
    obtain ⟨n, -, hn⟩ := List.exists_of_findSome?_eq_some hs
    dsimp only
    rw [hs, Option.getD_some, DecimalDigits.value_trimZeros]
    exact rounds_of_onGrid? hn

/-- Two magnitudes do not have shortest digits for one number. -/
theorem eq_of_value_shortest (hf : f.Roomy) (hwidth : Nat.pow 2 f.precision < Nat.pow 10 16)
    {tie tie' : Tie} (h : (x.shortest tie).value = (y.shortest tie').value) : x = y :=
  eq_of_rounds hf (rounds_shortest hf hwidth tie x) (h ▸ rounds_shortest hf hwidth tie' y)

end Magnitude

end StorePlan.Number
