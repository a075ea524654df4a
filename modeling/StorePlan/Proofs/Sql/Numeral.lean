import StorePlan.Proofs.Sql.Phrase

/-
Numbers without a sign in SQL text: digits, perhaps with a point among them,
and perhaps an exponent. An exponent with a sign is scanned as three lexemes
and a leading point as a lexeme of its own; `numeral?` puts them together.
-/

namespace StorePlan.Sql

open Lexeme Text

/-! ## Numerals -/

/-- Digits with at most one point among them. -/
def isMantissa (cs : List Char) : Bool :=
  match cs.dropWhile isDigit with
  | [] => !cs.isEmpty
  | '.' :: fraction => fraction.all isDigit && cs != ['.']
  | _ => false

def isExponentMark (c : Char) : Bool := c == 'e' || c == 'E'

/-- Digits behind the mark of an exponent, perhaps with a sign. -/
def isExponent : List Char → Bool
  | '+' :: cs | '-' :: cs | cs => !cs.isEmpty && cs.all isDigit

/-- A number without a sign. -/
def isNumeral (cs : List Char) : Bool :=
  isMantissa (cs.takeWhile (!isExponentMark ·)) &&
    match cs.dropWhile (!isExponentMark ·) with
    | [] => true
    | _ :: exponent => isExponent exponent

/-! ## Reading -/

/-- Whether a number breaks off behind the mark of its exponent. -/
def breaksOff (t : String) : Bool := t.toList.getLast?.any isExponentMark

/-- A number from its first digit on. -/
def unpointed? : List Lexeme → Option (String × List Lexeme)
  | .number t :: rest =>
    if breaksOff t then
      match rest with
      | .sign s :: .number u :: rest => some (t ++ s ++ u, rest)
      | _ => none
    else some (t, rest)
  | _ => none

/-- A number in front of other lexemes. -/
def numeral? : List Lexeme → Option (String × List Lexeme)
  | .sign "." :: rest => (unpointed? rest).map fun (t, rest) => ("." ++ t, rest)
  | ls => unpointed? ls

theorem unpointed?_of_not_breaksOff {t : String} (h : breaksOff t = false) (rest : List Lexeme) :
    unpointed? (.number t :: rest) = some (t, rest) := by
  simp [unpointed?, h]

theorem unpointed?_of_breaksOff {t : String} (h : breaksOff t = true) (s u : String)
    (rest : List Lexeme) :
    unpointed? (.number t :: .sign s :: .number u :: rest) = some (t ++ s ++ u, rest) := by
  simp [unpointed?, h]

theorem isDigit_or_point {c : Char} (h : isDigit c = true ∨ c = '.') :
    (isWordPart c || c == '.') = true ∧ isExponentMark c = false := by
  rcases h with h | rfl
  · refine ⟨by simp [isWordPart, h], ?_⟩
    rw [isExponentMark, Bool.or_eq_false_iff, beq_eq_false_iff_ne, beq_eq_false_iff_ne]
    constructor <;> rintro rfl <;> revert h <;> decide
  · decide

theorem isWordPart_of_isExponentMark {c : Char} (h : isExponentMark c = true) :
    (isWordPart c || c == '.') = true := by
  simp only [isExponentMark, Bool.or_eq_true, beq_iff_eq] at h
  rcases h with rfl | rfl <;> decide

theorem isExponent_cases {cs : List Char} (h : isExponent cs = true) :
    ∃ d ds, (∀ c ∈ d :: ds, isDigit c = true) ∧
      (cs = d :: ds ∨ ∃ sign, (sign = '+' ∨ sign = '-') ∧ cs = sign :: d :: ds) := by
  have digits {ds : List Char} (h : (!ds.isEmpty && ds.all isDigit) = true) :
      ∃ d rest, ds = d :: rest ∧ ∀ c ∈ d :: rest, isDigit c = true := by
    rw [Bool.and_eq_true, List.all_eq_true] at h
    cases ds with
    | nil => cases h.1
    | cons d rest => exact ⟨d, rest, rfl, h.2⟩
  unfold isExponent at h
  split at h
  · obtain ⟨d, ds, rfl, hall⟩ := digits h
    exact ⟨d, ds, hall, .inr ⟨_, .inl rfl, rfl⟩⟩
  · obtain ⟨d, ds, rfl, hall⟩ := digits h
    exact ⟨d, ds, hall, .inr ⟨_, .inr rfl, rfl⟩⟩
  · obtain ⟨d, ds, rfl, hall⟩ := digits h
    exact ⟨d, ds, hall, .inl rfl⟩

/-- Behind a sign that ends a number, digits are a number of their own. -/
theorem ofChars_sign {sign d : Char} {ds : List Char} (hs : sign = '+' ∨ sign = '-')
    (hd : ∀ c ∈ d :: ds, isDigit c = true) :
    Complete (sign :: d :: ds) ∧
      ofChars (sign :: d :: ds) =
        [.sign (String.singleton sign), .number (String.ofList (d :: ds))] := by
  rw [List.forall_mem_cons] at hd
  obtain ⟨hcomplete, hlexemes⟩ := ofChars_number hd.1 fun c hc => (isDigit_or_point (.inl (hd.2 c hc))).1
  rcases hs with rfl | rfl
  · have hplus : Ended ['+'] := rfl
    obtain ⟨h₁, h₂⟩ := hplus.append hcomplete
    exact ⟨h₁, h₂.trans (by rw [hlexemes]; rfl)⟩
  · have hne : ∀ c ∈ (d :: ds).head?, c ≠ '-' := by
      intro c hc
      cases hc
      rintro rfl
      revert hd
      simp [isDigit]
    obtain ⟨h₁, h₂⟩ := ofChars_minus hcomplete hne
    exact ⟨h₁, h₂.trans (by rw [hlexemes]; rfl)⟩

/-- A text that scans by itself and is read back as a number from its first digit on, whatever
follows. -/
def IsUnpointed (cs : List Char) : Prop :=
  Complete cs ∧ ∀ rest, unpointed? (ofChars cs ++ rest) = some (String.ofList cs, rest)

/-- A number that does not break off is one lexeme. -/
theorem isUnpointed_of_unbroken {c : Char} {cs : List Char} (hc : isDigit c = true)
    (hcs : ∀ d ∈ cs, (isWordPart d || d == '.') = true)
    (hlast : ∀ d ∈ (c :: cs).getLast?, isExponentMark d = false) : IsUnpointed (c :: cs) := by
  obtain ⟨hcomplete, hlexemes⟩ := ofChars_number hc hcs
  have hbreaks : breaksOff (String.ofList (c :: cs)) = false := by
    rw [breaksOff, String.toList_ofList, Option.any_eq_false]
    exact hlast
  refine ⟨hcomplete, fun rest => ?_⟩
  rw [hlexemes, List.singleton_append, unpointed?_of_not_breaksOff hbreaks]

/-- A number with a sign in its exponent breaks off behind the mark, and the digits behind the sign
are a number of their own. -/
theorem isUnpointed_of_signed {c mark sign d : Char} {cs ds : List Char} (hc : isDigit c = true)
    (hcs : ∀ x ∈ cs, (isWordPart x || x == '.') = true) (hmark : isExponentMark mark = true)
    (hsign : sign = '+' ∨ sign = '-') (hd : ∀ x ∈ d :: ds, isDigit x = true) :
    IsUnpointed (c :: cs ++ mark :: sign :: d :: ds) := by
  have hmarked : ∀ x ∈ cs ++ [mark], (isWordPart x || x == '.') = true := by
    rw [List.forall_mem_append, List.forall_mem_singleton]
    exact ⟨hcs, isWordPart_of_isExponentMark hmark⟩
  have hsignPart : (isWordPart sign || sign == '.') = false := by
    rcases hsign with rfl | rfl <;> decide
  obtain ⟨hcomplete, hlexemes⟩ := ofChars_sign hsign hd
  obtain ⟨hall, happend⟩ := ofChars_number_append hc hmarked hsignPart hcomplete
  have hsplit : c :: cs ++ mark :: sign :: d :: ds =
      c :: (cs ++ [mark]) ++ sign :: d :: ds := by simp
  have hbreaks : breaksOff (String.ofList (c :: (cs ++ [mark]))) = true := by
    rw [breaksOff, String.toList_ofList, ← List.cons_append, List.getLast?_concat]
    exact hmark
  have htext : String.ofList (c :: (cs ++ [mark])) ++ String.singleton sign ++
      String.ofList (d :: ds) = String.ofList (c :: (cs ++ [mark]) ++ sign :: d :: ds) := by
    rw [String.append_assoc, show String.singleton sign = String.ofList [sign] from rfl,
      ← String.ofList_append, ← String.ofList_append]
    rfl
  rw [hsplit]
  refine ⟨hall, fun rest => ?_⟩
  rw [happend, hlexemes, List.cons_append, List.cons_append, List.cons_append, List.nil_append,
    unpointed?_of_breaksOff hbreaks, htext]

/-- What may stand behind the digits of a number: nothing, or a mark with an exponent behind it. -/
def IsTail (cs : List Char) : Prop :=
  cs = [] ∨ ∃ mark exponent, cs = mark :: exponent ∧ isExponentMark mark = true ∧
    isExponent exponent = true

/-- Digits with points among them, perhaps with an exponent. -/
theorem isUnpointed_of_tail {c : Char} {cs tail : List Char} (hc : isDigit c = true)
    (hcs : ∀ d ∈ cs, isDigit d = true ∨ d = '.') (htail : IsTail tail) :
    IsUnpointed (c :: cs ++ tail) := by
  have hpart : ∀ d ∈ cs, (isWordPart d || d == '.') = true := fun d hd =>
    (isDigit_or_point (hcs d hd)).1
  rcases htail with rfl | ⟨mark, exponent, rfl, hmark, hexponent⟩
  · rw [List.append_nil]
    refine isUnpointed_of_unbroken hc hpart fun d hd => ?_
    rcases List.mem_cons.1 (List.mem_of_getLast? hd) with rfl | hd
    · exact (isDigit_or_point (.inl hc)).2
    · exact (isDigit_or_point (hcs d hd)).2
  obtain ⟨d, ds, hd, rfl | ⟨sign, hsign, rfl⟩⟩ := isExponent_cases hexponent
  · rw [List.cons_append]
    refine isUnpointed_of_unbroken hc ?_ fun x hx => ?_
    · rw [List.forall_mem_append, List.forall_mem_cons]
      exact ⟨hpart, isWordPart_of_isExponentMark hmark,
        fun x hx => (isDigit_or_point (.inl (hd x hx))).1⟩
    · -- The last character is one of the exponent's digits, so nothing breaks off there.
      have hlast : (c :: (cs ++ mark :: d :: ds)).getLast? = (d :: ds).getLast? := by
        simp [List.getLast?_cons, List.getLast?_append]
      rw [hlast] at hx
      exact (isDigit_or_point (.inl (hd x (List.mem_of_getLast? hx)))).2
  · exact isUnpointed_of_signed hc hpart hmark hsign hd

theorem numeral?_of_unpointed? {ls rest : List Lexeme} {t : String}
    (h : unpointed? ls = some (t, rest)) : numeral? ls = some (t, rest) := by
  unfold numeral?
  split
  · cases h
  · exact h

theorem isMantissa_cases {cs : List Char} (h : isMantissa cs = true) :
    (∃ c ds, cs = c :: ds ∧ isDigit c = true ∧ ∀ d ∈ ds, isDigit d = true ∨ d = '.') ∨
      ∃ c ds, cs = '.' :: c :: ds ∧ isDigit c = true ∧ ∀ d ∈ ds, isDigit d = true ∨ d = '.' := by
  have hsplit : cs.takeWhile isDigit ++ cs.dropWhile isDigit = cs := List.takeWhile_append_dropWhile
  have hdigits : ∀ d ∈ cs.takeWhile isDigit, isDigit d = true :=
    List.all_eq_true.1 List.all_takeWhile
  unfold isMantissa at h
  split at h
  · rename_i hrest
    rw [hrest, List.append_nil] at hsplit
    cases cs with
    | nil => cases h
    | cons c ds =>
      rw [hsplit] at hdigits
      rw [List.forall_mem_cons] at hdigits
      exact .inl ⟨c, ds, rfl, hdigits.1, fun d hd => .inl (hdigits.2 d hd)⟩
  · rename_i fraction hrest
    rw [Bool.and_eq_true, List.all_eq_true, bne_iff_ne] at h
    obtain ⟨hfraction, hne⟩ := h
    rw [hrest] at hsplit
    cases hwhole : cs.takeWhile isDigit with
    | nil =>
      rw [hwhole, List.nil_append] at hsplit
      cases fraction with
      | nil => exact absurd hsplit.symm hne
      | cons c ds =>
        rw [List.forall_mem_cons] at hfraction
        exact .inr ⟨c, ds, hsplit.symm, hfraction.1, fun d hd => .inl (hfraction.2 d hd)⟩
    | cons c ds =>
      rw [hwhole] at hsplit hdigits
      rw [List.forall_mem_cons] at hdigits
      refine .inl ⟨c, ds ++ '.' :: fraction, hsplit.symm, hdigits.1, fun d hd => ?_⟩
      rcases List.mem_append.1 hd with hd | hd
      · exact .inl (hdigits.2 d hd)
      · rcases List.mem_cons.1 hd with rfl | hd
        · exact .inr rfl
        · exact .inl (hfraction d hd)
  · cases h

theorem isNumeral_cases {cs : List Char} (h : isNumeral cs = true) :
    ∃ mantissa tail, cs = mantissa ++ tail ∧ isMantissa mantissa = true ∧ IsTail tail := by
  rw [isNumeral, Bool.and_eq_true] at h
  obtain ⟨hmantissa, hexponent⟩ := h
  refine ⟨_, _, cs.takeWhile_append_dropWhile.symm, hmantissa, ?_⟩
  cases hdrop : cs.dropWhile (!isExponentMark ·) with
  | nil => exact .inl rfl
  | cons mark exponent =>
    rw [hdrop] at hexponent
    have hmark := List.head?_dropWhile_not (!isExponentMark ·) cs
    rw [hdrop] at hmark
    exact .inr ⟨mark, exponent, rfl, by simpa using hmark, hexponent⟩

/-- A number without a sign scans by itself and is read back, whatever follows. -/
theorem numeral?_ofChars {cs : List Char} (h : isNumeral cs = true) :
    Complete cs ∧ ∀ rest, numeral? (ofChars cs ++ rest) = some (String.ofList cs, rest) := by
  obtain ⟨mantissa, tail, rfl, hmantissa, htail⟩ := isNumeral_cases h
  rcases isMantissa_cases hmantissa with ⟨c, ds, rfl, hc, hds⟩ | ⟨c, ds, rfl, hc, hds⟩
  · obtain ⟨hcomplete, hread⟩ := isUnpointed_of_tail hc hds htail
    exact ⟨hcomplete, fun rest => numeral?_of_unpointed? (hread rest)⟩
  · obtain ⟨hcomplete, hread⟩ := isUnpointed_of_tail hc hds htail
    have hpoint : Ended ['.'] := rfl
    obtain ⟨h₁, h₂⟩ := hpoint.append hcomplete
    refine ⟨h₁, fun rest => ?_⟩
    have htext : String.ofList (['.'] ++ (c :: ds ++ tail)) =
        "." ++ String.ofList (c :: ds ++ tail) := by
      rw [String.ofList_append]
    rw [show '.' :: c :: ds ++ tail = ['.'] ++ (c :: ds ++ tail) from rfl, h₂,
      show ofChars ['.'] = [.sign "."] from rfl, List.append_assoc, List.singleton_append, numeral?,
      hread, htext]
    rfl

end StorePlan.Sql
