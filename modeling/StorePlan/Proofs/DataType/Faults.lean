import Mathlib.Data.List.DropRight
import StorePlan.Proofs.DataType.RoundTrip
import StorePlan.Proofs.Text.UpperCase

/-
Which texts cannot be read as the text of a type: those in which every closing
parenthesis stands in front of every opening one, and which are no interval.

Reading goes through a text by cutting blanks and array marks off its ends and
by upper-casing it. None of that touches a parenthesis, so whether the reader
comes upon a fault in the end is seen in the text it began with.
-/

namespace StorePlan.DataType

open Text

/-- Both parentheses occur, and no closing one behind an opening one. -/
structure IsReversed (cs : List Char) : Prop where
  opens : '(' ∈ cs
  closes : ')' ∈ cs
  apart : cs.Pairwise fun a b => ¬(a = '(' ∧ b = ')')

/-- The parentheses are reversed where they are looked at: in a text that is no interval. -/
structure IsFaulty (cs : List Char) : Prop where
  reversed : IsReversed cs
  notInterval : ¬"INTERVAL ".toList <+: skipBlanks cs

variable {cs ds ending item : List Char}

/-! ## What parentheses are in a text -/

/-- Only parentheses matter. -/
theorem isReversed_filter_iff : IsReversed (cs.filter isParenthesis) ↔ IsReversed cs := by
  have hmem {c : Char} (hc : isParenthesis c = true) :
      c ∈ cs.filter isParenthesis ↔ c ∈ cs := by
    rw [List.mem_filter, and_iff_left hc]
  have hapart : (cs.filter isParenthesis).Pairwise (fun a b => ¬(a = '(' ∧ b = ')')) ↔
      cs.Pairwise fun a b => ¬(a = '(' ∧ b = ')') := by
    rw [List.pairwise_filter]
    refine List.Pairwise.iff fun a b => ?_
    constructor
    · rintro h ⟨rfl, rfl⟩
      exact h rfl rfl ⟨rfl, rfl⟩
    · exact fun h _ _ => h
  constructor
  · rintro ⟨hopens, hcloses, h⟩
    exact ⟨(hmem rfl).1 hopens, (hmem rfl).1 hcloses, hapart.1 h⟩
  · rintro ⟨hopens, hcloses, h⟩
    exact ⟨(hmem rfl).2 hopens, (hmem rfl).2 hcloses, hapart.2 h⟩

theorem isReversed_congr (h : cs.filter isParenthesis = ds.filter isParenthesis) :
    IsReversed cs ↔ IsReversed ds := by
  rw [← isReversed_filter_iff, h, isReversed_filter_iff]

theorem isReversed_append_iff (h : ending.filter isParenthesis = []) :
    IsReversed (cs ++ ending) ↔ IsReversed cs := by
  refine isReversed_congr ?_
  rw [List.filter_append, h, List.append_nil]

/-- Blanks are no parentheses. -/
theorem filter_isParenthesis_of_isBlank (h : ∀ c ∈ cs, isBlank c = true) :
    cs.filter isParenthesis = [] := by
  rw [List.filter_eq_nil_iff]
  intro c hc hparenthesis
  have hblank := h c hc
  simp only [isParenthesis, Bool.or_eq_true, beq_iff_eq] at hparenthesis
  rcases hparenthesis with rfl | rfl <;> cases hblank

theorem isReversed_skipBlanks_iff : IsReversed (skipBlanks cs) ↔ IsReversed cs := by
  have hblank : (cs.takeWhile isBlank).filter isParenthesis = [] :=
    filter_isParenthesis_of_isBlank fun _ => List.mem_takeWhile_imp
  refine isReversed_congr ?_
  rw [← List.takeWhile_append_dropWhile (p := isBlank) (l := cs), List.filter_append, hblank,
    List.nil_append, List.takeWhile_append_dropWhile]
  rfl

/-! ## Cutting ends off -/

theorem trimEnd_append (cs : List Char) :
    ∃ behind, cs = trimEnd cs ++ behind ∧ ∀ c ∈ behind, isBlank c = true := by
  refine ⟨(cs.reverse.takeWhile isBlank).reverse, ?_, fun c hc => ?_⟩
  · rw [trimEnd, ← List.reverse_append, List.takeWhile_append_dropWhile, List.reverse_reverse]
  · exact List.mem_takeWhile_imp (List.mem_reverse.1 hc)

theorem skipBlanks_eq_self (h : ∀ c ∈ cs.head?, isBlank c = false) : skipBlanks cs = cs := by
  cases cs with
  | nil => rfl
  | cons c rest => exact List.dropWhile_cons_of_neg (by simp [h c rfl])

theorem isBlank_of_mem_head?_trim : ∀ c ∈ (trim cs).head?, isBlank c = false := by
  intro c hc
  obtain ⟨behind, hcs, -⟩ := trimEnd_append (skipBlanks cs)
  have htrim : (trimEnd (skipBlanks cs)).head? = some c := hc
  have hhead : (skipBlanks cs).head? = some c := by
    rw [hcs, List.head?_append, htrim, Option.some_or]
  have hfirst := List.head?_dropWhile_not isBlank cs
  rw [skipBlanks] at hhead
  rwa [hhead] at hfirst

theorem isReversed_trim_iff : IsReversed (trim cs) ↔ IsReversed cs := by
  obtain ⟨behind, hcs, hblank⟩ := trimEnd_append (skipBlanks cs)
  have hskip : IsReversed (skipBlanks cs) ↔ IsReversed cs := isReversed_skipBlanks_iff
  rw [← hskip, hcs, isReversed_append_iff (filter_isParenthesis_of_isBlank hblank)]
  rfl

/-- The parenthesis stands behind the prefix, if there is one. -/
theorem prefix_skipBlanks_append_iff (h : '(' ∈ cs) :
    "INTERVAL ".toList <+: skipBlanks (cs ++ ending) ↔ "INTERVAL ".toList <+: skipBlanks cs := by
  have hmem : '(' ∈ skipBlanks cs := by
    rw [← List.takeWhile_append_dropWhile (p := isBlank) (l := cs), List.mem_append] at h
    exact h.resolve_left fun hblank => absurd (List.mem_takeWhile_imp hblank) (by decide)
  have hskip : skipBlanks (cs ++ ending) = skipBlanks cs ++ ending := by
    rw [skipBlanks, List.dropWhile_append, if_neg]
    · rfl
    · rw [List.isEmpty_iff]
      exact List.ne_nil_of_mem hmem
  rw [hskip]
  constructor
  · intro hprefix
    rcases List.prefix_or_prefix_of_prefix hprefix (List.prefix_append _ _) with hshort | hlong
    · exact hshort
    · exact absurd (hlong.subset hmem) (by decide)
  · exact fun hprefix => hprefix.trans (List.prefix_append _ _)

theorem isFaulty_append_iff (h : ending.filter isParenthesis = []) :
    IsFaulty (cs ++ ending) ↔ IsFaulty cs := by
  have hreversed : IsReversed (cs ++ ending) ↔ IsReversed cs := isReversed_append_iff h
  constructor
  · rintro ⟨hends, hinterval⟩
    have hcs := hreversed.1 hends
    exact ⟨hcs, mt (prefix_skipBlanks_append_iff hcs.opens).2 hinterval⟩
  · rintro ⟨hcs, hinterval⟩
    exact ⟨hreversed.2 hcs, mt (prefix_skipBlanks_append_iff hcs.opens).1 hinterval⟩

theorem isFaulty_trim_iff : IsFaulty (trim cs) ↔ IsFaulty cs := by
  obtain ⟨behind, hcs, hblank⟩ := trimEnd_append (skipBlanks cs)
  have htwice : skipBlanks (skipBlanks cs) = skipBlanks cs := List.dropWhile_idempotent isBlank cs
  have hskip : IsFaulty (skipBlanks cs) ↔ IsFaulty cs := by
    constructor
    · rintro ⟨hreversed, hinterval⟩
      exact ⟨isReversed_skipBlanks_iff.1 hreversed, htwice ▸ hinterval⟩
    · rintro ⟨hreversed, hinterval⟩
      exact ⟨isReversed_skipBlanks_iff.2 hreversed, htwice.symm ▸ hinterval⟩
  rw [← hskip, hcs, isFaulty_append_iff (filter_isParenthesis_of_isBlank hblank)]
  rfl

theorem eq_append_of_dropEnding? (h : dropEnding? ending cs = some item) : cs = item ++ ending := by
  unfold dropEnding? at h
  split at h
  · rename_i hsuffix
    obtain ⟨front, rfl⟩ := List.isSuffixOf_iff_suffix.1 hsuffix
    rw [List.length_append, Nat.add_sub_cancel, List.take_left] at h
    rw [Option.some.inj h]
  · cases h

theorem isFaulty_arrayItem?_iff (h : arrayItem? cs = some item) :
    IsFaulty item ↔ IsFaulty cs := by
  unfold arrayItem? at h
  split at h
  · rename_i found hfound
    cases h
    rw [eq_append_of_dropEnding? hfound, isFaulty_append_iff (by decide)]
  · rw [eq_append_of_dropEnding? h, isFaulty_append_iff (by decide)]

/-! ## Reading -/

/-- If the last closing parenthesis stands in front of the first opening one, all do. -/
theorem isReversed_iff_lt {opening fromEnd : Nat} (hopening : cs.idxOf? '(' = some opening)
    (hclosing : cs.reverse.idxOf? ')' = some fromEnd) :
    IsReversed cs ↔ cs.length - 1 - fromEnd < opening := by
  obtain ⟨hlt, hopens, hfirst⟩ := List.idxOf?_eq_some_iff.1 hopening
  obtain ⟨hltReverse, hcloses, hlast⟩ := List.idxOf?_eq_some_iff.1 hclosing
  rw [List.length_reverse] at hltReverse
  rw [List.getElem_reverse] at hcloses
  constructor
  · rintro ⟨-, -, hapart⟩
    by_contra hle
    have hne : opening ≠ cs.length - 1 - fromEnd := by
      rintro rfl
      cases hopens.symm.trans hcloses
    exact List.pairwise_iff_getElem.1 hapart opening _ hlt (by omega) (by omega) ⟨hopens, hcloses⟩
  · intro hreversed
    refine ⟨hopens ▸ List.getElem_mem _, hcloses ▸ List.getElem_mem _, ?_⟩
    rw [List.pairwise_iff_getElem]
    -- An opening one is not in front of the first, so a closing one behind it is behind the last.
    rintro i j hi hj hij ⟨hopen, hclose⟩
    have hfrom : opening ≤ i := by
      by_contra hbefore
      exact hfirst i (by omega) hopen
    refine hlast (cs.length - 1 - j) (by omega) ?_
    rw [List.getElem_reverse]
    have hindex : cs.length - 1 - (cs.length - 1 - j) = j := by omega
    simpa only [hindex] using hclose

theorem readParameterized_eq_error_iff :
    readParameterized cs = .error .parenthesesReversed ↔ IsReversed cs := by
  unfold readParameterized
  split
  · rename_i opening fromEnd hopening hclosing
    rw [isReversed_iff_lt hopening hclosing]
    simp only
    split
    · exact iff_of_true rfl ‹_›
    · exact iff_of_false (by simp) ‹_›
  · rename_i hnone
    refine iff_of_false (by simp) fun h => ?_
    obtain ⟨opening, hopening⟩ := Option.isSome_iff_exists.1 (List.isSome_idxOf?.2 h.opens)
    obtain ⟨fromEnd, hclosing⟩ :=
      Option.isSome_iff_exists.1 (List.isSome_idxOf?.2 (List.mem_reverse.2 h.closes))
    exact hnone _ _ hopening hclosing

theorem readScalar_trim_eq_error_iff :
    readScalar (trim cs) = .error .parenthesesReversed ↔ IsFaulty (trim cs) := by
  have hskip : skipBlanks (trim cs) = trim cs := skipBlanks_eq_self isBlank_of_mem_head?_trim
  have hprefix := List.isSome_isPrefixOf?_eq_isPrefixOf "INTERVAL ".toList (trim cs)
  unfold readScalar
  cases hqualifier : "INTERVAL ".toList.isPrefixOf? (trim cs) with
  | some qualifier =>
    rw [hqualifier, Option.isSome_some, eq_comm, List.isPrefixOf_iff_prefix] at hprefix
    exact iff_of_false (by simp) fun h => h.notInterval (hskip.symm ▸ hprefix)
  | none =>
    rw [hqualifier, Option.isSome_none, eq_comm, ← Bool.not_eq_true,
      List.isPrefixOf_iff_prefix] at hprefix
    simp only
    rw [readParameterized_eq_error_iff]
    exact ⟨fun h => ⟨h, hskip.symm ▸ hprefix⟩, IsFaulty.reversed⟩

theorem readUpper_eq_error_iff :
    readUpper cs = .error .parenthesesReversed ↔ IsFaulty cs := by
  fun_induction readUpper cs with
  | case1 cs named hname =>
    have hbare : ∀ name ∈ bareNames, '(' ∉ name.toList := by decide
    -- A bare name holds no parentheses at all.
    refine iff_of_false (by simp) fun h => ?_
    have := hbare _ (mem_bareNames hname)
    rw [String.toList_ofList] at this
    exact this (isReversed_trim_iff.2 h.reversed).opens
  | case2 cs hname item hitem ih =>
    rw [← isFaulty_trim_iff, ← isFaulty_arrayItem?_iff hitem, ← ih]
    cases readUpper item with
    | error fault => rfl
    | ok t => exact iff_of_false (by simp [Except.map]) (by simp)
  | case3 cs hname hitem => rw [readScalar_trim_eq_error_iff, isFaulty_trim_iff]

/-- The texts that can be read are those without reversed parentheses, and those of intervals. -/
theorem exists_read_eq_ok_iff (s : String) :
    (∃ t, read s = .ok t) ↔
      ¬IsReversed s.toList ∨ "INTERVAL ".toList <+: upper (trim s.toList) := by
  have hreversed : IsReversed (upper (trim s.toList)) ↔ IsReversed s.toList := by
    rw [isReversed_congr (filter_upper fun _ => mem_caselessCodes_of_isParenthesis),
      isReversed_trim_iff]
  have hskip : skipBlanks (upper (trim s.toList)) = upper (trim s.toList) :=
    skipBlanks_eq_self (isBlank_of_mem_head?_upper isBlank_of_mem_head?_trim)
  have hfaulty : IsFaulty (upper (trim s.toList)) ↔
      IsReversed s.toList ∧ ¬"INTERVAL ".toList <+: upper (trim s.toList) := by
    rw [← hreversed]
    constructor
    · rintro ⟨hcs, hinterval⟩
      exact ⟨hcs, hskip ▸ hinterval⟩
    · rintro ⟨hcs, hinterval⟩
      exact ⟨hcs, hskip.symm ▸ hinterval⟩
  have hok : (∃ t, read s = .ok t) ↔ ¬read s = .error .parenthesesReversed := by
    cases read s with
    | ok t => simp
    | error fault => cases fault; simp
  rw [hok, read, readUpper_eq_error_iff, hfaulty, not_and_or, not_not]

/-- Two parentheses in the wrong order. -/
theorem not_exists_read_reversed : ¬∃ t, read ")(" = .ok t := by
  have hfaulty : IsFaulty (upper (trim ")(".toList)) :=
    ⟨⟨by decide, by decide, by decide⟩, by decide⟩
  have herror : read ")(" = .error .parenthesesReversed := readUpper_eq_error_iff.2 hfaulty
  rintro ⟨t, ht⟩
  cases herror.symm.trans ht

end StorePlan.DataType
