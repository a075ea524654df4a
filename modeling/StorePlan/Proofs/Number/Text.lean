import StorePlan.Number.Decimal
import StorePlan.Number.Scientific
import StorePlan.Proofs.Number.Shortest
import StorePlan.Proofs.Text.Runs

/-
The texts of finite binary numbers and of decimals. In every layout the text of a
binary number has a sign, digits, perhaps a point and more digits, and perhaps an
exponent; read as a number in scientific notation it stands for just what the
shortest digits stand for (`Lays.read?`). So two numbers of a format do not share
a text, and neither do two decimals, of which the text shows the scale.
-/

namespace StorePlan.Number

open Text

/-! ## Reading parts of a text -/

namespace Scientific

theorem readSign_of_isDigit {cs : List Char} (h : ∀ c ∈ cs.head?, isDigit c = true) :
    readSign cs = (false, cs) := by
  unfold readSign
  split
  · exact absurd (h _ rfl) (by decide)
  · exact absurd (h _ rfl) (by decide)
  · rfl

/-- A minus sign is split off. -/
theorem readSign_minus (negative : Bool) {cs : List Char}
    (h : ∀ c ∈ cs.head?, isDigit c = true) :
    readSign ((if negative then ['-'] else []) ++ cs) = (negative, cs) := by
  cases negative with
  | true => rfl
  | false => exact readSign_of_isDigit h

end Scientific

/-- A power of ten behind the letter that marks it. -/
def exponentText (plusSign : Bool) (e : Int) : List Char :=
  'e' :: (if e < 0 then ['-'] else if plusSign then ['+'] else []) ++ digits e.natAbs

theorem readExponent?_exponentText (plusSign : Bool) (e : Int) :
    Scientific.readExponent? (exponentText plusSign e) = some e := by
  have hdigits : ∀ c ∈ (digits e.natAbs).head?, isDigit c = true :=
    isDigit_head fun _ => isDigit_of_mem_digits
  have hsign : Scientific.readSign
      ((if e < 0 then ['-'] else if plusSign then ['+'] else []) ++ digits e.natAbs) =
        (decide (e < 0), digits e.natAbs) := by
    by_cases he : e < 0
    · simp [he, Scientific.readSign]
    · cases plusSign with
      | true => simp [he, Scientific.readSign]
      | false => simpa [he] using Scientific.readSign_of_isDigit hdigits
  rw [exponentText, List.cons_append, Scientific.readExponent?, if_pos (.inl rfl), hsign]
  dsimp only
  rw [readDigits?_digits]
  by_cases he : e < 0
  · simp [he, abs_of_neg]
  · simp [he, abs_of_nonneg (Int.not_lt.1 he)]

/-- Behind a sign, digits with perhaps a point among them and perhaps an exponent are read as a
number that has all the digits. -/
theorem Scientific.read?_parts (negative : Bool) {whole fraction tail : List Char} {e : Int}
    (hne : whole ≠ []) (hwhole : ∀ c ∈ whole, isDigit c = true)
    (hfraction : ∀ c ∈ fraction, isDigit c = true)
    (htail : tail = [] ∧ e = 0 ∨ ∃ plusSign, tail = exponentText plusSign e) :
    Scientific.read? ((if negative then ['-'] else []) ++
        (whole ++ (if fraction = [] then [] else '.' :: fraction) ++ tail)) =
      some ⟨negative, Nat.ofDigitChars 10 (whole ++ fraction) 0, e - fraction.length⟩ := by
  have hhead : ∀ c ∈ (whole ++ ((if fraction = [] then [] else '.' :: fraction) ++ tail)).head?,
      isDigit c = true := by
    rw [List.head?_append_of_ne_nil _ hne]
    exact isDigit_head hwhole
  have hexponent : Scientific.readExponent? tail = some e := by
    rcases htail with ⟨rfl, rfl⟩ | ⟨plusSign, rfl⟩
    · rfl
    · exact readExponent?_exponentText plusSign e
  have hends : Stops isDigit tail := by
    rcases htail with ⟨rfl, -⟩ | ⟨plusSign, rfl⟩
    · exact stops_nil
    · exact stops_cons (by decide)
  have hcoefficient : readDigits? (whole ++ fraction) =
      some (Nat.ofDigitChars 10 (whole ++ fraction) 0) :=
    readDigits?_of_isDigit (by simp [hne]) (List.forall_mem_append.2 ⟨hwhole, hfraction⟩)
  -- A fraction without digits has no point, and then the tail follows.
  have hsplit : Stops isDigit ((if fraction = [] then [] else '.' :: fraction) ++ tail) := by
    split_ifs
    · exact hends
    · exact stops_cons (by decide)
  rw [List.append_assoc, Scientific.read?, Scientific.readSign_minus negative hhead]
  dsimp only
  rw [takeWhile_run hwhole hsplit, dropWhile_run hwhole hsplit]
  by_cases hempty : fraction = []
  · subst hempty
    rw [if_pos rfl, List.nil_append]
    split
    · rcases htail with ⟨hnil, -⟩ | ⟨plusSign, hexp⟩ <;> simp_all [exponentText]
    · rw [hcoefficient]
      simp [hexponent]
  · simp [hempty, takeWhile_run hfraction hends, dropWhile_run hfraction hends, hcoefficient,
      hexponent]

/-- The text is digits, perhaps a point and digits behind it, and perhaps an exponent, and stands
for the number. -/
inductive Lays (q : ℚ) : List Char → Prop where
  | parts {whole fraction tail : List Char} {e : Int} :
    whole ≠ [] → (∀ c ∈ whole, isDigit c = true) → (∀ c ∈ fraction, isDigit c = true) →
    (tail = [] ∧ e = 0 ∨ ∃ plusSign, tail = exponentText plusSign e) →
    DecimalDigits.value ⟨Nat.ofDigitChars 10 (whole ++ fraction) 0, e - fraction.length⟩ = q →
      Lays q (whole ++ (if fraction = [] then [] else '.' :: fraction) ++ tail)

namespace Lays

variable {q : ℚ} {cs : List Char}

theorem ne_nil (h : Lays q cs) : cs ≠ [] := by
  obtain ⟨hne, -, -, -, -⟩ := h
  simp [hne]

theorem isDigit_head (h : Lays q cs) : ∀ c ∈ cs.head?, isDigit c = true := by
  obtain ⟨hne, hwhole, -, -, -⟩ := h
  obtain ⟨c, rest, rfl⟩ := List.exists_cons_of_ne_nil hne
  intro d hd
  cases hd
  exact hwhole _ List.mem_cons_self

/-- The characters of such a text. -/
theorem mem (h : Lays q cs) : ∀ c ∈ cs, isDigit c = true ∨ c ∈ ['.', 'e', '+', '-'] := by
  obtain ⟨-, hwhole, hfraction, htail, -⟩ := h
  simp only [List.forall_mem_append]
  refine ⟨⟨fun c hc => .inl (hwhole c hc), ?_⟩, ?_⟩
  · split_ifs
    · exact List.forall_mem_nil _
    · exact List.forall_mem_cons.2 ⟨.inr (by simp), fun c hc => .inl (hfraction c hc)⟩
  · rcases htail with ⟨rfl, -⟩ | ⟨plusSign, rfl⟩
    · exact List.forall_mem_nil _
    · rw [exponentText, List.cons_append, List.forall_mem_cons, List.forall_mem_append]
      refine ⟨.inr (by simp), ?_, fun c hc => .inl (isDigit_of_mem_digits hc)⟩
      split_ifs <;> simp

/-- Behind a sign, such a text is read as the number that it stands for. -/
theorem read? (h : Lays q cs) (negative : Bool) :
    ∃ n e, Scientific.read? ((if negative then ['-'] else []) ++ cs) = some ⟨negative, n, e⟩ ∧
      DecimalDigits.value ⟨n, e⟩ = q := by
  obtain ⟨hne, hwhole, hfraction, htail, hq⟩ := h
  exact ⟨_, _, Scientific.read?_parts negative hne hwhole hfraction htail, hq⟩

theorem whole {whole : List Char} (hne : whole ≠ []) (hwhole : ∀ c ∈ whole, isDigit c = true)
    (hq : DecimalDigits.value ⟨Nat.ofDigitChars 10 whole 0, 0⟩ = q) : Lays q whole := by
  have h := Lays.parts hne hwhole (List.forall_mem_nil _) (.inl ⟨rfl, rfl⟩) (q := q) (by simpa)
  simpa using h

theorem point {whole fraction : List Char} (hne : whole ≠ [])
    (hwhole : ∀ c ∈ whole, isDigit c = true) (hfraction : ∀ c ∈ fraction, isDigit c = true)
    (hempty : fraction ≠ [])
    (hq : DecimalDigits.value ⟨Nat.ofDigitChars 10 (whole ++ fraction) 0, -fraction.length⟩ = q) :
    Lays q (whole ++ '.' :: fraction) := by
  have h := Lays.parts hne hwhole hfraction (.inl ⟨rfl, rfl⟩) (q := q) (by simpa)
  simpa [hempty] using h

end Lays

/-! ## The layouts -/

theorem isDigit_of_mem_zeroed {n k : Nat} :
    ∀ c ∈ digits n ++ List.replicate k '0', isDigit c = true :=
  List.forall_mem_append.2 ⟨fun _ => isDigit_of_mem_digits, isDigit_of_mem_zeros⟩

theorem value_zeroed {n : Nat} {e : Int} (he : 0 ≤ e) :
    DecimalDigits.value ⟨n * 10 ^ (if n = 0 then 0 else e.toNat), 0⟩ =
      DecimalDigits.value ⟨n, e⟩ := by
  obtain ⟨k, rfl⟩ := Int.eq_ofNat_of_zero_le he
  by_cases hn : n = 0
  · simp [DecimalDigits.value, hn]
  · simp [DecimalDigits.value, hn]

theorem value_tenfold (n : Nat) (e : Int) :
    DecimalDigits.value ⟨10 * n, e - 1⟩ = DecimalDigits.value ⟨n, e⟩ := by
  rw [DecimalDigits.value, DecimalDigits.value, zpow_sub_one₀ (by norm_num)]
  push_cast
  ring

section Positional

variable {x : DecimalDigits}

/-- Zeros behind the digits, and perhaps one behind the point. -/
theorem lays_zeroed (keepsPoint : Bool) (he : 0 ≤ x.exponent) :
    Lays x.value (digits x.digits ++
      List.replicate (if x.digits = 0 then 0 else x.exponent.toNat) '0' ++
        if keepsPoint then ['.', '0'] else []) := by
  have hne : ∀ k, digits x.digits ++ List.replicate k '0' ≠ [] := by simp [digits_ne_nil]
  have hvalue := value_zeroed (n := x.digits) he
  generalize (if x.digits = 0 then 0 else x.exponent.toNat) = zeros at hvalue ⊢
  have hwhole : Nat.ofDigitChars 10 (digits x.digits ++ List.replicate zeros '0') 0 =
      x.digits * 10 ^ zeros := by
    rw [Nat.ofDigitChars_append, ofDigitChars_digits, ofDigitChars_zeros]
  split_ifs
  · refine .point (hne zeros) isDigit_of_mem_zeroed (by simp [isDigit]) (by simp) ?_
    have hzero (n : Nat) : Nat.ofDigitChars 10 ['0'] n = 10 * n := Nat.ofDigitChars_cons
    rw [Nat.ofDigitChars_append, hwhole, hzero]
    exact (value_tenfold _ 0).trans hvalue
  · rw [List.append_nil]
    exact .whole (hne zeros) isDigit_of_mem_zeroed (by rw [hwhole, hvalue])

/-- A point among the digits. -/
theorem lays_split {behind : Nat} (he : x.exponent = -behind) (hpos : 0 < behind)
    (hlt : behind < (digits x.digits).length) :
    Lays x.value ((digits x.digits).take ((digits x.digits).length - behind) ++
      '.' :: (digits x.digits).drop ((digits x.digits).length - behind)) := by
  have hdigits : ∀ c ∈ digits x.digits, isDigit c = true := fun _ => isDigit_of_mem_digits
  refine .point ?_ (fun c hc => hdigits c (List.mem_of_mem_take hc))
    (fun c hc => hdigits c (List.mem_of_mem_drop hc)) ?_ ?_
  · rw [ne_eq, List.take_eq_nil_iff, not_or]
    exact ⟨by omega, digits_ne_nil _⟩
  · rw [ne_eq, List.drop_eq_nil_iff]
    omega
  · rw [List.take_append_drop, ofDigitChars_digits, List.length_drop,
      Nat.sub_sub_self (Nat.le_of_lt hlt), ← he]

/-- A point and zeros in front of the digits. -/
theorem lays_padded {behind : Nat} (he : x.exponent = -behind)
    (hle : (digits x.digits).length ≤ behind) :
    Lays x.value (['0'] ++ '.' :: paddedDigits behind x.digits) := by
  have hzero : Nat.ofDigitChars 10 ['0'] 0 = 0 := rfl
  refine .point (by simp) (by simp [isDigit]) isDigit_of_mem_paddedDigits
    (paddedDigits_ne_nil _ _) ?_
  rw [Nat.ofDigitChars_append, hzero, ofDigitChars_paddedDigits, length_paddedDigits hle, ← he]

end Positional

theorem lays_positionalText (keepsPoint : Bool) (x : DecimalDigits) :
    Lays x.value (positionalText keepsPoint x) := by
  unfold positionalText
  dsimp only
  by_cases he : 0 ≤ x.exponent
  · rw [if_pos he]
    exact lays_zeroed keepsPoint he
  · have hbehind : x.exponent = -((-x.exponent).toNat : Int) := by omega
    rw [if_neg he]
    split_ifs with hlt
    · exact lays_split hbehind (by omega) hlt
    · rw [List.append_assoc]
      exact lays_padded hbehind (Nat.le_of_not_lt hlt)

theorem lays_scientificText (plusSign : Bool) (x : DecimalDigits) :
    Lays x.value (scientificText plusSign x) := by
  have hdigits : ∀ c ∈ digits x.digits, isDigit c = true := fun _ => isDigit_of_mem_digits
  have hlength := List.length_pos_of_ne_nil (digits_ne_nil x.digits)
  have hexponent : x.exponent + ((digits x.digits).length : Int) - 1 -
      ((digits x.digits).drop 1).length = x.exponent := by
    rw [List.length_drop]
    omega
  have h : Lays x.value ((digits x.digits).take 1 ++
      (if (digits x.digits).drop 1 = [] then [] else '.' :: (digits x.digits).drop 1) ++
        exponentText plusSign (x.exponent + (digits x.digits).length - 1)) :=
    .parts (by simp [digits_ne_nil]) (fun c hc => hdigits c (List.mem_of_mem_take hc))
      (fun c hc => hdigits c (List.mem_of_mem_drop hc)) (.inr ⟨plusSign, rfl⟩)
      (by rw [List.take_append_drop, ofDigitChars_digits, hexponent])
  have hfraction : (if 1 < (digits x.digits).length then '.' :: (digits x.digits).drop 1 else []) =
      if (digits x.digits).drop 1 = [] then [] else '.' :: (digits x.digits).drop 1 := by
    by_cases h : 1 < (digits x.digits).length
    · rw [if_pos h, if_neg (by rw [List.drop_eq_nil_iff]; omega)]
    · rw [if_neg h, if_pos (List.drop_eq_nil_iff.2 (Nat.le_of_not_lt h))]
  unfold scientificText
  dsimp only
  rw [hfraction]
  simpa [exponentText] using h

/-- The text of a magnitude stands for the same as its shortest digits. -/
theorem lays_text {f : BinaryFormat} (layout : FloatLayout) (x : Magnitude f) :
    Lays (x.shortest layout.tie).value (x.text layout) := by
  unfold Magnitude.text
  dsimp only
  split
  · split_ifs
    · exact lays_positionalText _ _
    · exact lays_scientificText _ _
  · exact lays_positionalText _ _

/-- In a layout that keeps the point, what is no digit or sign is in every text. -/
theorem exists_mark_mem_text {f : BinaryFormat} (layout : FloatLayout)
    (h : layout.keepsPoint = true) (x : Magnitude f) :
    ∃ c ∈ x.text layout, c = '.' ∨ c = 'e' := by
  have hpositional (s : DecimalDigits) : '.' ∈ positionalText layout.keepsPoint s := by
    unfold positionalText
    simp only [h, if_true]
    split_ifs <;> simp
  have hscientific (s : DecimalDigits) : 'e' ∈ scientificText layout.plusSign s := by
    simp [scientificText]
  unfold Magnitude.text
  dsimp only
  split
  · split_ifs
    · exact ⟨_, hpositional _, .inl rfl⟩
    · exact ⟨_, hscientific _, .inr rfl⟩
  · exact ⟨_, hpositional _, .inl rfl⟩

/-! ## Texts of finite numbers -/

namespace BinaryFloat

variable {f : BinaryFormat}

/-- The text of a finite number is read as what its shortest digits stand for. -/
theorem read?_text (layout : FloatLayout) (negative : Bool) (m : Magnitude f) :
    ∃ n e, Scientific.read? ((finite negative m).text layout).toList = some ⟨negative, n, e⟩ ∧
      DecimalDigits.value ⟨n, e⟩ = (m.shortest layout.tie).value := by
  obtain ⟨n, e, hread, hvalue⟩ := (lays_text layout m).read? negative
  exact ⟨n, e, by rw [text, String.toList_ofList, hread], hvalue⟩

/-- Finite numbers of a format have different texts. -/
theorem text_inj (hf : f.Roomy) (hwidth : Nat.pow 2 f.precision < Nat.pow 10 16)
    {layout : FloatLayout} {x y : BinaryFloat f} (hx : x.isFinite = true) (hy : y.isFinite = true)
    (h : x.text layout = y.text layout) : x = y := by
  cases x with
  | nan | infinite => cases hx
  | finite s m =>
    cases y with
    | nan | infinite => cases hy
    | finite t n =>
      obtain ⟨c, e, hread, hvalue⟩ := read?_text layout s m
      obtain ⟨c', e', hread', hvalue'⟩ := read?_text layout t n
      rw [h, hread'] at hread
      cases hread
      rw [Magnitude.eq_of_value_shortest hf hwidth (hvalue.symm.trans hvalue')]

end BinaryFloat

/-! ## Texts of decimals -/

namespace Decimal

/-- All digits of a decimal, in front of the point and behind it. -/
def allDigits (x : Decimal) : List Char := paddedDigits (x.scale + 1) x.unscaled.natAbs

theorem scale_lt_length (x : Decimal) : x.scale < x.allDigits.length := by
  rw [allDigits, paddedDigits, List.length_append, List.length_replicate, digitCount]
  omega

/-- The digits in front of the point. -/
def whole (x : Decimal) : List Char := x.allDigits.take (x.allDigits.length - x.scale)

/-- The digits behind it. -/
def fraction (x : Decimal) : List Char := x.allDigits.drop (x.allDigits.length - x.scale)

theorem length_fraction (x : Decimal) : x.fraction.length = x.scale := by
  have hscale := x.scale_lt_length
  rw [fraction, List.length_drop]
  omega

theorem whole_ne_nil (x : Decimal) : x.whole ≠ [] := by
  have hscale := x.scale_lt_length
  rw [whole, ne_eq, List.take_eq_nil_iff, not_or]
  exact ⟨by omega, List.ne_nil_of_length_pos (by omega)⟩

theorem isDigit_of_mem_whole (x : Decimal) : ∀ c ∈ x.whole, isDigit c = true :=
  fun c hc => isDigit_of_mem_paddedDigits c (List.mem_of_mem_take hc)

theorem isDigit_of_mem_fraction (x : Decimal) : ∀ c ∈ x.fraction, isDigit c = true :=
  fun c hc => isDigit_of_mem_paddedDigits c (List.mem_of_mem_drop hc)

theorem toList_text (x : Decimal) :
    x.text.toList = (if decide (x.unscaled < 0) then ['-'] else []) ++
      (x.whole ++ (if x.fraction = [] then [] else '.' :: x.fraction) ++ []) := by
  have hempty : x.fraction = [] ↔ x.scale = 0 := by
    rw [← length_fraction, List.length_eq_zero_iff]
  rw [text, String.toList_ofList, List.append_nil, List.append_assoc]
  simp only [decide_eq_true_eq, hempty]
  rfl

/-- A decimal of a number in scientific notation, unless that has zeros at the end that are not
written out or too many digits. -/
def ofScientific? (x : Scientific) : Option Decimal :=
  if x.exponent ≤ 0 then
    make? (if x.negative then -(x.coefficient : Int) else x.coefficient) x.exponent.natAbs
  else none

/-- The decimal that a text stands for. -/
def ofText? (s : String) : Option Decimal := (Scientific.read? s.toList).bind ofScientific?

/-- The text of a decimal shows its units and its scale. -/
theorem read?_text (x : Decimal) :
    Scientific.read? x.text.toList = some ⟨decide (x.unscaled < 0), x.unscaled.natAbs, -x.scale⟩ := by
  have hdigits : Nat.ofDigitChars 10 (x.whole ++ x.fraction) 0 = x.unscaled.natAbs := by
    rw [whole, fraction, List.take_append_drop, allDigits, ofDigitChars_paddedDigits]
  rw [toList_text, Scientific.read?_parts _ x.whole_ne_nil x.isDigit_of_mem_whole
    x.isDigit_of_mem_fraction (.inl ⟨rfl, rfl⟩), hdigits, length_fraction, zero_sub]

theorem ofText?_text (x : Decimal) : ofText? x.text = some x := by
  have hunscaled : (if decide (x.unscaled < 0) then -(x.unscaled.natAbs : Int)
      else x.unscaled.natAbs) = x.unscaled := by
    split_ifs with h
    · rw [decide_eq_true_eq] at h
      omega
    · rw [decide_eq_true_eq] at h
      omega
  have hscale : (-(x.scale : Int)).natAbs = x.scale := by rw [Int.natAbs_neg, Int.natAbs_natCast]
  rw [ofText?, read?_text, Option.bind_some, ofScientific?, if_pos (by simp), hunscaled, hscale,
    make?, dif_pos x.fits]

theorem text_inj {x y : Decimal} (h : x.text = y.text) : x = y := by
  rw [← Option.some_inj, ← ofText?_text, h, ofText?_text]

end Decimal

end StorePlan.Number
