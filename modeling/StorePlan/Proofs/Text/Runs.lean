import Mathlib.Algebra.Group.Nat.Defs
import Mathlib.Data.List.Basic
import StorePlan.Text.Numeral

/-
Texts that are read from left to right: a run of characters ends where one
stands that is not of its kind. Numbers are runs of digits, and zeros in front of
them do not count.
-/

namespace StorePlan.Text

variable {α : Type} {test : α → Bool} {as bs cs ds : List α}

/-- What follows a run of items that pass a test: nothing, or an item that does not pass it. -/
def Stops (test : α → Bool) (as : List α) : Prop := ∀ a ∈ as.head?, test a = false

theorem stops_nil : Stops test [] := nofun

theorem stops_cons {a : α} (h : test a = false) : Stops test (a :: as) := by
  intro b hb
  cases hb
  exact h

theorem takeWhile_run (has : ∀ a ∈ as, test a = true) (hbs : Stops test bs) :
    (as ++ bs).takeWhile test = as := by
  rw [List.takeWhile_append_of_pos has]
  cases bs with
  | nil => rw [List.takeWhile_nil, List.append_nil]
  | cons b bs => rw [List.takeWhile_cons_of_neg (by simp [hbs b rfl]), List.append_nil]

theorem dropWhile_run (has : ∀ a ∈ as, test a = true) (hbs : Stops test bs) :
    (as ++ bs).dropWhile test = bs := by
  rw [List.dropWhile_append_of_pos has]
  cases bs with
  | nil => rfl
  | cons b bs => rw [List.dropWhile_cons_of_neg (by simp [hbs b rfl])]

/-- A list splits in one way only into a run and what follows it. -/
theorem run_inj (h : as ++ bs = cs ++ ds) (has : ∀ a ∈ as, test a = true)
    (hcs : ∀ c ∈ cs, test c = true) (hbs : Stops test bs) (hds : Stops test ds) :
    as = cs ∧ bs = ds := by
  have hrun : as = cs := by rw [← takeWhile_run has hbs, h, takeWhile_run hcs hds]
  subst hrun
  exact ⟨rfl, List.append_cancel_left h⟩

/-- A list splits in one way only at the first occurrence of an item. -/
theorem split_inj [BEq α] [LawfulBEq α] {c : α} (h : as ++ c :: bs = cs ++ c :: ds) (has : c ∉ as)
    (hcs : c ∉ cs) : as = cs ∧ bs = ds := by
  have hother {xs : List α} (hxs : c ∉ xs) : ∀ x ∈ xs, (x != c) = true :=
    fun x hx => bne_iff_ne.2 fun heq => hxs (heq ▸ hx)
  have hstops {xs : List α} : Stops (· != c) (c :: xs) := stops_cons (by simp)
  obtain ⟨hfront, hback⟩ := run_inj h (hother has) (hother hcs) hstops hstops
  exact ⟨hfront, List.tail_eq_of_cons_eq hback⟩

/-! ## Runs of digits -/

theorem isDigit_of_mem_zeros {k : Nat} : ∀ c ∈ List.replicate k '0', isDigit c = true := by
  intro c hc
  rw [List.eq_of_mem_replicate hc]
  rfl

theorem isDigit_of_mem_paddedDigits {width n : Nat} : ∀ c ∈ paddedDigits width n,
    isDigit c = true := by
  rw [paddedDigits, List.forall_mem_append]
  exact ⟨isDigit_of_mem_zeros, fun _ => isDigit_of_mem_digits⟩

theorem paddedDigits_ne_nil (width n : Nat) : paddedDigits width n ≠ [] := by
  simp [paddedDigits, digits_ne_nil]

theorem length_paddedDigits {width n : Nat} (h : digitCount n ≤ width) :
    (paddedDigits width n).length = width := by
  rw [paddedDigits, List.length_append, List.length_replicate]
  exact Nat.sub_add_cancel h

theorem isDigit_head {cs : List Char} (h : ∀ c ∈ cs, isDigit c = true) :
    ∀ c ∈ cs.head?, isDigit c = true :=
  fun c hc => h c (List.mem_of_head? hc)

theorem readDigits?_of_isDigit {ds : List Char} (hne : ds ≠ []) (h : ∀ c ∈ ds, isDigit c = true) :
    readDigits? ds = some (Nat.ofDigitChars 10 ds 0) :=
  if_pos ⟨hne, List.all_eq_true.2 h⟩

theorem ofDigitChars_digits (n : Nat) : Nat.ofDigitChars 10 (digits n) 0 = n :=
  Nat.ofDigitChars_toDigits (by decide) (by decide)

theorem ofDigitChars_zeros (k init : Nat) :
    Nat.ofDigitChars 10 (List.replicate k '0') init = init * 10 ^ k := by
  induction k generalizing init with
  | zero => simp
  | succ k ih =>
    rw [List.replicate_succ, Nat.ofDigitChars_cons, ih, Nat.sub_self, Nat.add_zero, Nat.pow_succ]
    ac_rfl

theorem ofDigitChars_paddedDigits (width n : Nat) :
    Nat.ofDigitChars 10 (paddedDigits width n) 0 = n := by
  rw [paddedDigits, Nat.ofDigitChars_append, ofDigitChars_zeros, Nat.zero_mul, ofDigitChars_digits]

/-! ## Signs -/

/-- A minus sign in front of what starts with a digit is seen. -/
theorem signed_inj {a b : Prop} [Decidable a] [Decidable b] {cs ds : List Char}
    (h : (if a then ['-'] else []) ++ cs = (if b then ['-'] else []) ++ ds)
    (hcs : ∀ c ∈ cs.head?, isDigit c = true) (hds : ∀ d ∈ ds.head?, isDigit d = true) :
    (a ↔ b) ∧ cs = ds := by
  have hunsigned {es fs : List Char} (hfs : ∀ c ∈ fs.head?, isDigit c = true) : '-' :: es ≠ fs := by
    rintro rfl
    exact absurd (hfs '-' rfl) (by decide)
  split_ifs at h with ha hb hb
  · exact ⟨iff_of_true ha hb, List.tail_eq_of_cons_eq h⟩
  · exact absurd h (hunsigned hds)
  · exact absurd h.symm (hunsigned hcs)
  · exact ⟨iff_of_false ha hb, h⟩

theorem toList_intText (i : Int) :
    (intText i).toList = (if i < 0 then ['-'] else []) ++ digits i.natAbs := by
  unfold intText
  split_ifs <;> simp [natText, String.toList_append]

theorem intText_inj {i j : Int} (h : intText i = intText j) : i = j := by
  have hchars := congrArg String.toList h
  rw [toList_intText, toList_intText] at hchars
  obtain ⟨hsign, hdigits⟩ := signed_inj hchars (isDigit_head fun _ => isDigit_of_mem_digits)
    (isDigit_head fun _ => isDigit_of_mem_digits)
  have habs := digits_injective hdigits
  omega

end StorePlan.Text
