import StorePlan.Proofs.Sql.CastTarget

/-
Casts to arrays. The target of an array is a keyword with one pair of square
brackets for each level. The keyword is how the target of the innermost type
begins, without length, precision and scale, so arrays of one kind differ in
their brackets only.
-/

namespace StorePlan

/-- The type without length, precision and scale. -/
def DataType.unsized : DataType → DataType
  | decimal _ _ => decimal none none
  | char _ => char none
  | string _ => string none
  | array t => array t.unsized
  | t => t

namespace Sql

open Text

/-- A pair of square brackets for each level of an array. -/
def levels (depth : Nat) : String := String.join (List.replicate depth "[]")

namespace Dialect

variable {d : Dialect} {t u : DataType} {target own : CastTarget}

/-- The keyword of arrays of a type. -/
def arrayKeyword (d : Dialect) (t : DataType) : String := (d.componentTarget t).text

@[simp] theorem depth_innermost (t : DataType) : t.innermost.depth = 0 := by
  induction t with
  | array t ih => exact ih
  | _ => rfl

/-! ## The keyword -/

/-- Neither an override nor a name looks at length, precision and scale. -/
theorem componentTarget_unsized (h : t.depth = 0) :
    d.componentTarget t.unsized = d.componentTarget t := by
  cases t with
  | array t => cases h
  | decimal precision scale => cases d <;> rfl
  | char length => cases d <;> rfl
  | string maxLength => cases d <;> rfl
  | _ => rfl

theorem isKeyword_arrayKeyword (d : Dialect) (t : DataType) :
    ∀ c ∈ (d.arrayKeyword t).toList, c ∉ "()[]".toList := by
  have hnames : ∀ name ∈ typeNames,
      name.toList.all (fun c => !"()[]".toList.contains c) = true := by
    decide
  have hall : (d.arrayKeyword t).toList.all (fun c => !"()[]".toList.contains c) = true := by
    unfold arrayKeyword componentTarget
    cases hown : d.ownCastTarget? t with
    | some own =>
      rw [Option.getD_some]
      unfold ownCastTarget? at hown
      split at hown <;> cases hown <;> decide
    | none =>
      rw [Option.getD_none, CastTarget.text_alien]
      split_ifs
      · decide
      · exact hnames t.name (name_mem_typeNames t)
  intro c hc
  simpa using List.all_eq_true.1 hall c hc

/-- A standard target is its name, so it begins as the name does. -/
theorem prefix_text_standard {keyword name : String} (h : keyword.toList <+: name.toList)
    (hmark : keyword.toList.head?.any (· ≠ CastTarget.mark) = true) :
    keyword.toList <+: (CastTarget.standard name).text.toList := by
  obtain ⟨behind, hname⟩ := h
  rw [CastTarget.text_eq_token]
  · exact ⟨behind, hname⟩
  · intro c hc
    cases hkeyword : keyword.toList with
    | nil => simp [hkeyword] at hmark
    | cons first rest =>
      have hfirst : first = c := by
        simpa [CastTarget.standard, ← hname, hkeyword] using hc
      simpa [hkeyword, hfirst] using hmark

/-- The standard target of a type begins with the keyword of arrays of the type. -/
theorem exists_standardCastTarget_prefix (d : Dialect) (hdepth : t.depth = 0) (hne : t ≠ .null) :
    ∃ own, d.standardCastTarget t = .ok own ∧
      (if t.isMultimedia then "BLOB" else t.name).toList <+: own.text.toList := by
  have hmark : ∀ name ∈ typeNames,
      name.toList.head?.any (· ≠ CastTarget.mark) = true := by decide
  have hbehind {a b c : String} (h : a.toList <+: b.toList) : a.toList <+: (b ++ c).toList := by
    rw [String.toList_append]
    exact List.prefix_append_of_prefix h
  have hname {name : String} (h : t.name.toList <+: name.toList) :
      t.name.toList <+: (CastTarget.standard name).text.toList :=
    prefix_text_standard h (hmark t.name (name_mem_typeNames t))
  match t with
  | .array item => cases hdepth
  | .null => exact absurd rfl hne
  | .multimedia kind =>
    have hblob : "BLOB".toList <+: (CastTarget.standard "BLOB").text.toList := by decide
    exact ⟨_, rfl, hblob⟩
  | .interval q =>
    have hopening : "INTERVAL".toList <+: "INTERVAL ".toList := by decide
    exact ⟨_, rfl, hname (hbehind hopening)⟩
  | .decimal (some p) (some s) =>
    have hopening : "DECIMAL".toList <+: "DECIMAL(".toList := by decide
    exact ⟨_, rfl, hname (hbehind (hbehind (hbehind (hbehind hopening))))⟩
  | .decimal (some p) none =>
    have hopening : "DECIMAL".toList <+: "DECIMAL(".toList := by decide
    exact ⟨_, rfl, hname (hbehind (hbehind hopening))⟩
  | .char (some n) =>
    have hopening : "CHAR".toList <+: "CHAR(".toList := by decide
    exact ⟨_, rfl, hname (hbehind (hbehind hopening))⟩
  | .string (some n) =>
    have hopening : "VARCHAR".toList <+: "VARCHAR(".toList := by decide
    exact ⟨_, rfl, hname (hbehind (hbehind hopening))⟩
  | .decimal none _ | .char none | .string none | .boolean | .integer _ | .float _ | .date | .time
  | .timestamp | .binary | .json => exact ⟨_, rfl, hname List.prefix_rfl⟩

/-- A type other than `NULL` that is no array has a target, which begins with the keyword of
its arrays. -/
theorem exists_castTarget_prefix (d : Dialect) (hdepth : t.depth = 0) (hne : t ≠ .null) :
    ∃ own, d.castTarget t = .ok own ∧ (d.arrayKeyword t).toList <+: own.text.toList := by
  rw [castTarget_of_depth hdepth]
  unfold arrayKeyword componentTarget
  cases hown : d.ownCastTarget? t with
  | some own => exact ⟨own, rfl, List.prefix_rfl⟩
  | none =>
    rw [Option.getD_none, CastTarget.text_alien]
    exact exists_standardCastTarget_prefix d hdepth hne

/-! ## Arrays -/

theorem castTarget_of_one_le_depth (h : 1 ≤ t.depth) : d.castTarget t = d.arrayCastTarget t := by
  cases t with
  | array item => rfl
  | _ => cases h

theorem text_of_arrayCastTarget (h : d.arrayCastTarget t = .ok target) :
    target.text = d.arrayKeyword t.innermost ++ levels t.depth := by
  obtain ⟨-, rfl⟩ := arrayCastTarget_eq_ok.1 h
  exact CastTarget.text_arrayOf (soundTarget_componentTarget d t.innermost).named t.depth

theorem count_levels (depth : Nat) : (levels depth).toList.count '[' = depth := by
  rw [levels, String.toList_join]
  induction depth with
  | zero => rfl
  | succ depth ih =>
    rw [List.replicate_succ, List.flatMap_cons, List.count_append, ih, Nat.add_comm]
    rfl

/-- The only square brackets of a target are those of the levels. -/
theorem count_castTarget (h : d.castTarget t = .ok target) :
    target.text.toList.count '[' = t.depth := by
  rcases Nat.eq_zero_or_pos t.depth with hdepth | hdepth
  · rw [hdepth, List.count_eq_zero]
    intro hmem
    have := isTargetCharacter_of_mem_castTarget h hdepth hmem
    exact absurd this (by decide)
  · rw [castTarget_of_one_le_depth hdepth] at h
    have hkeyword : '[' ∉ (d.arrayKeyword t.innermost).toList := fun hmem =>
      isKeyword_arrayKeyword d t.innermost '[' hmem (by decide)
    rw [text_of_arrayCastTarget h, String.toList_append, List.count_append,
      List.count_eq_zero.2 hkeyword, count_levels, Nat.zero_add]

/-- The target of an array is a keyword and a pair of brackets for each level. The keyword is
the same for all lengths, precisions and scales, and begins the target of the innermost type. -/
theorem exists_keyword_castTarget (d : Dialect) :
    ∃ keyword : DataType → String,
      (∀ t, 1 ≤ t.depth →
        ((∃ e, d.castTarget t = .error e) ↔ t.innermost = .null) ∧
        (t.innermost ≠ .null → ∃ target own,
          d.castTarget t = .ok target ∧ d.castTarget t.innermost = .ok own ∧
          target.text = keyword t.innermost.unsized ++ levels t.depth ∧
          (∀ c ∈ (keyword t.innermost.unsized).toList, c ∉ "()[]".toList) ∧
          (keyword t.innermost.unsized).toList <+: own.text.toList)) ∧
      ∀ t u target target', d.castTarget t = .ok target → d.castTarget u = .ok target' →
        target.text = target'.text → t.depth = u.depth := by
  refine ⟨d.arrayKeyword, fun t hdepth => ?_, fun t u target target' ht hu htext => ?_⟩
  · have hok (hne : t.innermost ≠ .null) :
        d.castTarget t = .ok ((d.componentTarget t.innermost).arrayOf t.depth) := by
      rw [castTarget_of_one_le_depth hdepth]
      exact arrayCastTarget_eq_ok.2 ⟨hne, rfl⟩
    refine ⟨⟨fun ⟨e, he⟩ => ?_, fun hnull => ?_⟩, fun hne => ?_⟩
    · by_contra hne
      cases he.symm.trans (hok hne)
    · cases hresult : d.castTarget t with
      | error e => exact ⟨e, rfl⟩
      | ok target =>
        rw [castTarget_of_one_le_depth hdepth] at hresult
        exact absurd hnull (arrayCastTarget_eq_ok.1 hresult).1
    · obtain ⟨own, hown, hprefix⟩ := exists_castTarget_prefix d (depth_innermost t) hne
      have hunsized : d.arrayKeyword t.innermost.unsized = d.arrayKeyword t.innermost :=
        congrArg CastTarget.text (componentTarget_unsized (depth_innermost t))
      rw [hunsized]
      have htarget := hok hne
      rw [castTarget_of_one_le_depth hdepth] at htarget
      exact ⟨_, own, hok hne, hown, text_of_arrayCastTarget htarget,
        isKeyword_arrayKeyword d t.innermost, hprefix⟩
  · rw [← count_castTarget ht, ← count_castTarget hu, htext]

/-- Two levels of small integers, and decimal numbers without their precision and scale. -/
theorem keyword_smallint_decimal :
    ∃ keyword : DataType → String,
      keyword (.integer .bits8) ++ levels 2 = "smallint[][]" ∧
      keyword (.decimal none none) ++ levels 1 = "DECIMAL[]" ∧
      ∀ target, postgresql.castTarget (.integer .bits8) = .ok target →
        target.text ≠ "smallint[][]" := by
  obtain ⟨keyword, harray, hdepths⟩ := exists_keyword_castTarget .postgresql
  have hsmall := (harray (.array (.array (.integer .bits8))) (by decide)).2 (by decide)
  have hdecimal := (harray (.array (.decimal (some 10) (some 2))) (by decide)).2 (by decide)
  obtain ⟨small, -, hsmallOk, -, hsmallText, -⟩ := hsmall
  obtain ⟨decimal, -, hdecimalOk, -, hdecimalText, -⟩ := hdecimal
  cases hsmallOk
  cases hdecimalOk
  refine ⟨keyword, hsmallText.symm.trans (by decide), hdecimalText.symm.trans (by decide),
    fun target htarget htext => ?_⟩
  have hdepth := hdepths (.integer .bits8) (.array (.array (.integer .bits8))) target _ htarget rfl
    (htext.trans (by decide))
  cases hdepth

end Dialect

end Sql

end StorePlan
