import Mathlib.Tactic.SplitIfs
import StorePlan.Document.Encoding
import StorePlan.Proofs.Document.Regex

/-
What a document store finds by the regular expression for a `LIKE` pattern:
the subjects that are like the pattern, as long as they are one line.

The expression has one piece for each character of the pattern, between the
two anchors. That it has these pieces and no others is because no part begins
with a star, so that a star only ever repeats the point that stands for a
percent sign.
-/

namespace StorePlan

/-- The texts that one character of a `LIKE` pattern stands for: a percent sign for every text, an
underscore for every single character, and any other character for itself. -/
def StandsFor (c : Char) (part : List Char) : Prop :=
  if c = '%' then True else if c = '_' then part.length = 1 else part = [c]

/-- A subject is like a pattern if it is made up of parts that the pattern's characters stand for,
one after the other. -/
inductive Like : List Char → List Char → Prop where
  | nil : Like [] []
  | cons {c : Char} {pattern part rest : List Char} :
    StandsFor c part → Like pattern rest → Like (c :: pattern) (part ++ rest)

theorem like_nil_iff {subject : List Char} : Like [] subject ↔ subject = [] := by
  constructor
  · rintro ⟨⟩
    rfl
  · rintro rfl
    exact .nil

theorem like_cons_iff {c : Char} {pattern subject : List Char} :
    Like (c :: pattern) subject ↔
      ∃ part rest, subject = part ++ rest ∧ StandsFor c part ∧ Like pattern rest := by
  constructor
  · rintro ⟨⟩
    exact ⟨_, _, rfl, ‹_›, ‹_›⟩
  · rintro ⟨part, rest, rfl, hpart, hrest⟩
    exact .cons hpart hrest

namespace Document

open Regex (Piece)

/-! ## The expression of a pattern -/

/-- The piece of an expression that a character of a pattern becomes. -/
def patternPiece (c : Char) : Piece :=
  if c = '%' then ⟨.any, true⟩ else if c = '_' then ⟨.any, false⟩ else ⟨.exactly c, false⟩

/-- The pieces behind the anchor at the start. -/
def patternPieces (pattern : List Char) : Regex := pattern.map patternPiece ++ [⟨.stop, false⟩]

/-- The characters that are escaped are those with a meaning of their own. -/
theorem isRegexMark_eq (c : Char) : isRegexMark c = Regex.isMeta c := rfl

theorem head?_regexPart (c : Char) : ∃ d, (regexPart c).head? = some d ∧ d ≠ '*' := by
  unfold regexPart
  split_ifs with hpercent hunderscore hmark
  · exact ⟨'.', rfl, by decide⟩
  · exact ⟨'.', rfl, by decide⟩
  · exact ⟨'\\', rfl, by decide⟩
  · refine ⟨c, rfl, ?_⟩
    rintro rfl
    exact hmark rfl

/-- What stands behind a part is another part or the anchor at the end, and no star. -/
theorem head?_regexParts (pattern : List Char) :
    (pattern.flatMap regexPart ++ ['$']).head? ≠ some '*' := by
  cases pattern with
  | nil => decide
  | cons c rest =>
    obtain ⟨d, hd, hne⟩ := head?_regexPart c
    simp [List.head?_append, hd, hne]

theorem read?_regexPart (c : Char) {rest : List Char} (h : rest.head? ≠ some '*') :
    Regex.read? (regexPart c ++ rest) = (Regex.read? rest).map (patternPiece c :: ·) := by
  unfold regexPart patternPiece
  split_ifs with hpercent hunderscore hmark
  · exact Regex.read?_repeated rfl
  · exact Regex.read?_ofChar? rfl h
  · rw [isRegexMark_eq] at hmark
    exact Regex.read?_escaped hmark h
  · rw [isRegexMark_eq, Bool.not_eq_true] at hmark
    exact Regex.read?_ofChar? (Regex.Atom.ofChar?_of_not_isMeta hmark) h

theorem read?_regexParts (pattern : List Char) :
    Regex.read? (pattern.flatMap regexPart ++ ['$']) = some (patternPieces pattern) := by
  induction pattern with
  | nil => rfl
  | cons c rest ih =>
    rw [List.flatMap_cons, List.append_assoc, read?_regexPart c (head?_regexParts rest), ih]
    rfl

theorem read?_regexOfLike (pattern : String) :
    Regex.read? (regexOfLike pattern).toList =
      some (⟨.start, false⟩ :: patternPieces pattern.toList) := by
  rw [regexOfLike, String.toList_ofList, List.cons_append,
    Regex.read?_ofChar? rfl (head?_regexParts _), read?_regexParts]
  rfl

/-! ## What it finds -/

section Matching

variable {isLineEnd : Char → Bool} {before part behind : List Char}

/-- Within a line, a piece stands for what its character stands for. -/
theorem matches_patternPiece_iff {c : Char} (h : ∀ d ∈ part, isLineEnd d = false) :
    (patternPiece c).Matches isLineEnd before part behind ↔ StandsFor c part := by
  unfold patternPiece StandsFor
  split_ifs with hpercent hunderscore
  · exact iff_of_true (Regex.repeats_any_iff.2 h) trivial
  · constructor
    · rintro ⟨d, rfl, -⟩
      rfl
    · intro hlength
      obtain ⟨d, rfl⟩ := List.length_eq_one_iff.1 hlength
      exact ⟨d, rfl, h d (by simp)⟩
  · rfl

/-- Within a line, the pieces of a pattern stand for what is like the pattern and nothing stands
behind. -/
theorem matches_patternPieces_iff {pattern : List Char}
    (h : ∀ d ∈ part ++ behind, isLineEnd d = false) :
    Regex.Matches isLineEnd (patternPieces pattern) before part behind ↔
      Like pattern part ∧ behind = [] := by
  induction pattern generalizing before part with
  | nil =>
    rw [like_nil_iff]
    constructor
    · rintro ⟨_, _, rfl, ⟨rfl, hstop⟩, rfl⟩
      refine ⟨rfl, hstop.resolve_right ?_⟩
      rintro ⟨c, rfl, hc⟩
      rw [h c (by simp)] at hc
      cases hc
    · rintro ⟨rfl, rfl⟩
      exact ⟨[], [], rfl, ⟨rfl, .inl rfl⟩, rfl⟩
  | cons c rest ih =>
    have hsplit (first more : List Char) (hpart : part = first ++ more) :
        ((patternPiece c).Matches isLineEnd before first (more ++ behind) ∧
          Regex.Matches isLineEnd (patternPieces rest) (before ++ first) more behind) ↔
        (StandsFor c first ∧ Like rest more) ∧ behind = [] := by
      rw [hpart, List.append_assoc, List.forall_mem_append] at h
      rw [matches_patternPiece_iff h.1, ih h.2, and_assoc]
    rw [like_cons_iff]
    constructor
    · rintro ⟨first, more, hpart, hmatches⟩
      obtain ⟨hlike, hbehind⟩ := (hsplit first more hpart).1 hmatches
      exact ⟨⟨first, more, hpart, hlike⟩, hbehind⟩
    · rintro ⟨⟨first, more, hpart, hlike⟩, hbehind⟩
      exact ⟨first, more, hpart, (hsplit first more hpart).2 ⟨hlike, hbehind⟩⟩

end Matching

/-- The expression for a pattern can be read, and it is found in those subjects of one line that
are like the pattern. -/
theorem finds_regexOfLike_iff {isLineEnd : Char → Bool} {pattern subject : String}
    (h : ∀ c ∈ subject.toList, isLineEnd c = false) :
    ∃ r, Regex.read? (regexOfLike pattern).toList = some r ∧
      (Regex.Finds isLineEnd r subject.toList ↔ Like pattern.toList subject.toList) := by
  refine ⟨_, read?_regexOfLike _, ?_⟩
  rw [Regex.finds_start_iff]
  constructor
  · rintro ⟨part, behind, hsubject, hmatches⟩
    rw [hsubject] at h
    obtain ⟨hlike, rfl⟩ := (matches_patternPieces_iff h).1 hmatches
    rwa [hsubject, List.append_nil]
  · intro hlike
    refine ⟨subject.toList, [], (List.append_nil _).symm, ?_⟩
    rw [matches_patternPieces_iff (by rwa [List.append_nil])]
    exact ⟨hlike, rfl⟩

/-- A point in a pattern stands for a point only. -/
theorem finds_regexOfLike_point :
    ∃ r, Regex.read? "^.\\..*$".toList = some r ∧
      Regex.Finds (· == '\n') r "4.25".toList ∧ ¬Regex.Finds (· == '\n') r "425".toList := by
  have hpoint : Like "_.%".toList "4.25".toList :=
    like_cons_iff.2 ⟨['4'], _, rfl, rfl, like_cons_iff.2 ⟨['.'], _, rfl, rfl,
      like_cons_iff.2 ⟨['2', '5'], [], rfl, trivial, .nil⟩⟩⟩
  have hnone : ¬Like "_.%".toList "425".toList := by
    intro h
    obtain ⟨part, rest, hsubject, hpart, h⟩ := like_cons_iff.1 h
    obtain ⟨c, rfl⟩ := List.length_eq_one_iff.1 hpart
    obtain ⟨-, rfl⟩ := List.cons.inj hsubject
    obtain ⟨_, _, hrest, rfl, -⟩ := like_cons_iff.1 h
    cases hrest
  obtain ⟨r, hr, hfinds⟩ := @finds_regexOfLike_iff (· == '\n') "_.%" "4.25" (by simp)
  obtain ⟨r', hr', hfinds'⟩ := @finds_regexOfLike_iff (· == '\n') "_.%" "425" (by simp)
  cases hr.symm.trans hr'
  exact ⟨r, hr, hfinds.2 hpoint, mt hfinds'.1 hnone⟩

end Document

end StorePlan
