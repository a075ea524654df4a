import StorePlan.Text.Blank
import StorePlan.Text.UpperCase

/-
What upper-casing neither changes nor brings about: blanks and parentheses.
An upper-case text has those of the text, in their order (`filter_upper`), and
begins with none unless the text does (`isBlank_of_mem_head?_upper`).

They are told from other characters by their code points, of which the tables
of capitals hold none (`caseless_tables`).
-/

namespace StorePlan.Text

def isParenthesis (c : Char) : Bool := c == '(' || c == ')'

/-- The code points of blanks and parentheses. -/
def caselessCodes : List Nat :=
  [0x28, 0x29, 0x20, 0x85, 0xa0, 0x1680, 0x2028, 0x2029, 0x202f, 0x205f, 0x3000] ++
    List.range' 9 5 ++ List.range' 0x2000 11

variable {c d : Char} {cs : List Char}

theorem mem_caselessCodes_of_isParenthesis (h : isParenthesis c = true) :
    c.toNat ∈ caselessCodes := by
  simp only [isParenthesis, Bool.or_eq_true, beq_iff_eq] at h
  rcases h with rfl | rfl <;> decide

theorem mem_caselessCodes_of_isBlank (h : isBlank c = true) : c.toNat ∈ caselessCodes := by
  simp only [isBlank, Bool.or_eq_true, Bool.and_eq_true, decide_eq_true_eq, beq_iff_eq] at h
  simp only [caselessCodes, List.mem_append, List.mem_cons, List.not_mem_nil, List.mem_range'_1]
  omega

/-- No letter of the tables is such a character, and no capital. -/
theorem caseless_tables : ∀ n ∈ caselessCodes,
    (∀ entry ∈ expandingCapitals, entry.1 ≠ n ∧ n ∉ entry.2) ∧
      ∀ run ∈ caseRuns, run.covers n = false ∧ run.covers (n - run.shift).toNat = false := by
  decide +kernel

theorem caseless_ascii (h : c.toNat < 128) :
    (c.toNat ∈ caselessCodes → c.toUpper = c) ∧
      (c.toUpper.toNat ∈ caselessCodes → c.toNat ∈ caselessCodes) := by
  have hall : ∀ n < 128,
      (n ∈ caselessCodes → (Char.ofNat n).toUpper = Char.ofNat n) ∧
        ((Char.ofNat n).toUpper.toNat ∈ caselessCodes → n ∈ caselessCodes) := by
    decide
  have := hall c.toNat h
  rwa [Char.ofNat_toNat] at this

/-- The character of an invalid code point is none of them either. -/
theorem toNat_ofNat_of_mem {n : Nat} (h : (Char.ofNat n).toNat ∈ caselessCodes) :
    (Char.ofNat n).toNat = n := by
  by_cases hn : n.isValidChar
  · rw [Char.ofNat, dif_pos hn]
    exact UInt32.toNat_ofNatLT
  · rw [Char.ofNat, dif_neg hn] at h
    exact absurd h (by decide)

theorem upperChar_of_mem (h : c.toNat ∈ caselessCodes) : upperChar c = [c] := by
  unfold upperChar
  split
  · rename_i hascii
    rw [(caseless_ascii hascii).1 h]
  · obtain ⟨hexpanding, hruns⟩ := caseless_tables c.toNat h
    have hnone : expandingCapitals.find? (·.1 == c.toNat) = none := by
      simpa using fun code forms hentry => (hexpanding (code, forms) hentry).1
    have hnone' : caseRuns.find? (·.covers c.toNat) = none := by
      simpa using fun run hrun => (hruns run hrun).1
    rw [upperBeyondAscii, hnone, hnone']

theorem not_mem_of_mem_upperChar (h : c.toNat ∉ caselessCodes) (hd : d ∈ upperChar c) :
    d.toNat ∉ caselessCodes := by
  intro hcaseless
  unfold upperChar at hd
  split at hd
  · rename_i hascii
    rw [List.mem_singleton.1 hd] at hcaseless
    exact h ((caseless_ascii hascii).2 hcaseless)
  · obtain ⟨hexpanding, hruns⟩ := caseless_tables d.toNat hcaseless
    unfold upperBeyondAscii at hd
    split at hd
    · rename_i code expansion hfind
      obtain ⟨n, hn, rfl⟩ := List.mem_map.1 hd
      have hentry := (hexpanding _ (List.mem_of_find?_eq_some hfind)).2
      rw [toNat_ofNat_of_mem hcaseless] at hentry
      exact hentry hn
    · split at hd
      · rename_i run hfind
        cases List.mem_singleton.1 hd
        have hcovers : run.covers c.toNat = true := by simpa using List.find?_some hfind
        have hnot := (hruns run (List.mem_of_find?_eq_some hfind)).2
        have hpositive : ∀ n ∈ caselessCodes, 0 < n := by decide
        have := hpositive _ hcaseless
        rw [toNat_ofNat_of_mem hcaseless] at hnot this
        have hcode : ((c.toNat + run.shift).toNat - run.shift).toNat = c.toNat := by omega
        rw [hcode, hcovers] at hnot
        cases hnot
      · exact h (List.mem_singleton.1 hd ▸ hcaseless)

theorem upperChar_ne_nil (c : Char) : upperChar c ≠ [] := by
  have hexpanding : ∀ entry ∈ expandingCapitals, entry.2 ≠ [] := by decide
  unfold upperChar upperBeyondAscii
  split
  · simp
  · split
    · rename_i code expansion hfind
      simpa using hexpanding _ (List.mem_of_find?_eq_some hfind)
    · split <;> simp

/-- The blanks or parentheses of a text are those of its capital form. -/
theorem filter_upper {p : Char → Bool} (hp : ∀ c, p c = true → c.toNat ∈ caselessCodes) :
    (upper cs).filter p = cs.filter p := by
  induction cs with
  | nil => rfl
  | cons c rest ih =>
    have hcons : upper (c :: rest) = upperChar c ++ upper rest := List.flatMap_cons
    rw [hcons, List.filter_append, ih]
    by_cases hc : c.toNat ∈ caselessCodes
    · rw [upperChar_of_mem hc, ← List.filter_append, List.singleton_append]
    · have hnone : (upperChar c).filter p = [] :=
        List.filter_eq_nil_iff.2 fun d hd hpd => not_mem_of_mem_upperChar hc hd (hp d hpd)
      rw [hnone, List.nil_append, List.filter_cons_of_neg (mt (hp c) hc)]

theorem isBlank_of_mem_upperChar (h : isBlank c = false) (hd : d ∈ upperChar c) :
    isBlank d = false := by
  by_cases hc : c.toNat ∈ caselessCodes
  · rw [upperChar_of_mem hc] at hd
    rwa [List.mem_singleton.1 hd]
  · rw [← Bool.not_eq_true]
    exact fun hblank => not_mem_of_mem_upperChar hc hd (mem_caselessCodes_of_isBlank hblank)

theorem isBlank_of_mem_head?_upper (h : ∀ c ∈ cs.head?, isBlank c = false) :
    ∀ d ∈ (upper cs).head?, isBlank d = false := by
  intro d hd
  cases cs with
  | nil => cases hd
  | cons c rest =>
    have hcons : upper (c :: rest) = upperChar c ++ upper rest := List.flatMap_cons
    obtain ⟨first, more, hfirst⟩ := List.exists_cons_of_ne_nil (upperChar_ne_nil c)
    rw [hcons, hfirst, List.cons_append, List.head?_cons] at hd
    cases hd
    exact isBlank_of_mem_upperChar (h c rfl) (hfirst ▸ List.mem_cons_self)

theorem isBlank_of_mem_getLast?_upper (h : ∀ c ∈ cs.getLast?, isBlank c = false) :
    ∀ d ∈ (upper cs).getLast?, isBlank d = false := by
  intro d hd
  rcases List.eq_nil_or_concat cs with rfl | ⟨front, c, rfl⟩
  · cases hd
  · rw [List.concat_eq_append] at h hd
    have hconcat : upper (front ++ [c]) = upper front ++ upperChar c := by simp [upper]
    obtain ⟨more, last, hlast⟩ := (List.eq_nil_or_concat _).resolve_left (upperChar_ne_nil c)
    rw [hconcat, hlast, List.concat_eq_append, ← List.append_assoc, List.getLast?_concat] at hd
    cases hd
    exact isBlank_of_mem_upperChar (h c (by simp)) (by simp [hlast])

/-- Upper-casing brings about no blanks at the ends. -/
theorem trim_upper (hfirst : ∀ c ∈ cs.head?, isBlank c = false)
    (hlast : ∀ c ∈ cs.getLast?, isBlank c = false) : trim (upper cs) = upper cs :=
  trim_eq_self (isBlank_of_mem_head?_upper hfirst) (isBlank_of_mem_getLast?_upper hlast)

end StorePlan.Text
