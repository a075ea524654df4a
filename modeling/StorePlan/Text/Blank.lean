/-
White space: the 25 characters of the Unicode property, what is left of a
text once they are cut from its ends, and the words between them.

`trim_eq_self` says which texts trimming leaves alone, `length_trim_le` that it
never makes one longer.
-/

namespace StorePlan.Text

/-- The Unicode property White_Space. -/
def isBlank (c : Char) : Bool :=
  let n := c.toNat
  (9 ≤ n && n ≤ 13) || n == 32 || n == 0x85 || n == 0xa0 || n == 0x1680 ||
    (0x2000 ≤ n && n ≤ 0x200a) || n == 0x2028 || n == 0x2029 || n == 0x202f ||
    n == 0x205f || n == 0x3000

/-- The characters from the first one that is not blank. -/
def skipBlanks (cs : List Char) : List Char := cs.dropWhile isBlank

/-- The characters up to the last one that is not blank. -/
def trimEnd (cs : List Char) : List Char :=
  (cs.reverse.dropWhile isBlank).reverse

/-- The characters between the first and the last one that is not blank. -/
def trim (cs : List Char) : List Char :=
  trimEnd (cs.dropWhile isBlank)

/-- Nothing but white space. -/
def isBlankText (s : String) : Bool := s.toList.all isBlank

/-- The maximal runs of characters that are not blank, in order. -/
def words (cs : List Char) : List (List Char) :=
  (cs.splitOnP isBlank).filter (· ≠ [])

/-- The pieces of a text between one separator and the next, as they stand. -/
def pieces (sep : Char) (cs : List Char) : List (List Char) := cs.splitOnP (· == sep)

theorem trimEnd_eq_self {cs : List Char} (h : ∀ c ∈ cs.getLast?, isBlank c = false) :
    trimEnd cs = cs := by
  rcases List.eq_nil_or_concat cs with rfl | ⟨l, c, rfl⟩
  · rfl
  · have hc : isBlank c = false := h c (by simp)
    simp [trimEnd, hc]

/-- A text that neither starts nor ends with white space is its own trimmed form. -/
theorem trim_eq_self {cs : List Char} (first : ∀ c ∈ cs.head?, isBlank c = false)
    (last : ∀ c ∈ cs.getLast?, isBlank c = false) : trim cs = cs := by
  have : cs.dropWhile isBlank = cs := by
    cases cs with
    | nil => rfl
    | cons c r => simp [first c (by simp)]
  rw [trim, this, trimEnd_eq_self last]

theorem length_trimEnd_le (cs : List Char) : (trimEnd cs).length ≤ cs.length := by
  simpa [trimEnd] using (List.dropWhile_sublist (l := cs.reverse) isBlank).length_le

theorem length_trim_le (cs : List Char) : (trim cs).length ≤ cs.length :=
  Nat.le_trans (length_trimEnd_le _) (List.dropWhile_sublist (l := cs) isBlank).length_le

end StorePlan.Text
