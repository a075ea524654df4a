import StorePlan.DataType.Reading

/-
Reading the text of a type gives the type back, for exactly the types that
any text names (`read_text_iff`).

The text of a type is plain: upper case, without blanks around it. So reading
looks at it as it is, and each of its forms is told apart from the others by
how it begins or ends.
-/

namespace StorePlan.DataType

open Text

/-- Whether a text can name the type: all but the type of a bare `NULL` and decimals with a scale
and no precision, and all arrays of such types. -/
def IsNameable (t : DataType) : Prop :=
  t.innermost ≠ .null ∧ ∀ scale, t.innermost ≠ .decimal none (some scale)

/-! ## Plain texts -/

/-- A character that upper-casing leaves alone. -/
def IsCapital (c : Char) : Prop := c.toNat < 128 ∧ c.toUpper = c

instance (c : Char) : Decidable (IsCapital c) := inferInstanceAs (Decidable (_ ∧ _))

/-- Text in upper case with no blank at either end. -/
structure IsPlain (cs : List Char) : Prop where
  capital : ∀ c ∈ cs, IsCapital c
  first : cs.head?.any (!isBlank ·) = true
  last : cs.getLast?.any (!isBlank ·) = true

/-- The characters of a list are looked at one by one, rather than all characters there are. -/
theorem all_isCapital_iff {cs : List Char} :
    cs.all (fun c => decide (IsCapital c)) = true ↔ ∀ c ∈ cs, IsCapital c := by
  simp

instance (cs : List Char) : Decidable (IsPlain cs) :=
  decidable_of_iff
    (cs.all (fun c => decide (IsCapital c)) = true ∧ cs.head?.any (!isBlank ·) = true ∧
      cs.getLast?.any (!isBlank ·) = true)
    ⟨fun h => ⟨all_isCapital_iff.1 h.1, h.2.1, h.2.2⟩,
      fun h => ⟨all_isCapital_iff.2 h.capital, h.first, h.last⟩⟩

/-- Digits are plain. -/
theorem plain_of_isDigit {c : Char} (h : isDigit c = true) : IsCapital c ∧ isBlank c = false := by
  have hall : ∀ n < 58, isDigit (Char.ofNat n) = true →
      IsCapital (Char.ofNat n) ∧ isBlank (Char.ofNat n) = false := by decide
  have hnine : c ≤ '9' := by simpa using (Bool.and_eq_true_iff.1 h).2
  have hlt : c.toNat < 58 := Nat.lt_succ_of_le (UInt32.le_iff_toNat_le.1 (Char.le_def.1 hnine))
  have := hall c.toNat hlt
  rw [Char.ofNat_toNat] at this
  exact this h

namespace IsPlain

variable {cs : List Char}

theorem trim_eq (h : IsPlain cs) : trim cs = cs := by
  have hfirst := h.first
  have hlast := h.last
  refine trim_eq_self (fun c hc => ?_) (fun c hc => ?_)
  · simpa [Option.mem_def.1 hc] using hfirst
  · simpa [Option.mem_def.1 hc] using hlast

theorem upper_eq (h : IsPlain cs) : upper cs = cs := upper_eq_self h.capital

/-- What stands behind a plain text needs only end as one does. -/
theorem append {ending : List Char} (h : IsPlain cs) (hcapital : ∀ c ∈ ending, IsCapital c)
    (hlast : ending.getLast?.any (!isBlank ·) = true) : IsPlain (cs ++ ending) where
  capital := List.forall_mem_append.2 ⟨h.capital, hcapital⟩
  first := by
    have hfirst := h.first
    cases cs with
    | nil => cases hfirst
    | cons c rest => exact hfirst
  last := by
    cases hc : ending.getLast? with
    | none => simp [hc] at hlast
    | some c => simpa [List.getLast?_append, hc] using hlast

end IsPlain

/-- A name with parameters in parentheses. -/
theorem isPlain_applied {base parameters : List Char} (hbase : IsPlain base)
    (hparameters : ∀ c ∈ parameters, IsCapital c) :
    IsPlain (base ++ '(' :: (parameters ++ [')'])) := by
  have hcapital : ∀ c ∈ '(' :: (parameters ++ [')']), IsCapital c := by
    simpa [or_imp, forall_and] using ⟨by decide, hparameters, by decide⟩
  refine hbase.append hcapital ?_
  rw [← List.cons_append, List.getLast?_concat]
  decide

theorem isCapital_of_mem_digits {n : Nat} : ∀ c ∈ digits n, IsCapital c :=
  fun _ hc => (plain_of_isDigit (isDigit_of_mem_digits hc)).1

/-- The characters between the parentheses of a decimal. -/
def decimalParameters (precision : UInt16) (scale : Option UInt16) : List Char :=
  digits precision.toNat ++ (scale.map fun s => ',' :: digits s.toNat).getD []

theorem toList_text_decimal (precision : UInt16) (scale : Option UInt16) :
    (decimal (some precision) scale).text.toList =
      "DECIMAL".toList ++ '(' :: (decimalParameters precision scale ++ [')']) := by
  cases scale <;> simp [text, natText, decimalParameters, String.toList_append]

theorem toList_text_char (length : UInt32) :
    (char (some length)).text.toList = "CHAR".toList ++ '(' :: (digits length.toNat ++ [')']) := by
  simp [text, natText, String.toList_append]

theorem toList_text_string (length : UInt32) :
    (string (some length)).text.toList =
      "VARCHAR".toList ++ '(' :: (digits length.toNat ++ [')']) := by
  simp [text, natText, String.toList_append]

theorem toList_text_array (t : DataType) :
    (array t).text.toList = t.text.toList ++ " ARRAY".toList := by
  simp [text, String.toList_append]

theorem isCapital_of_mem_decimalParameters {precision : UInt16} {scale : Option UInt16} :
    ∀ c ∈ decimalParameters precision scale, IsCapital c := by
  cases scale with
  | none => simpa [decimalParameters] using isCapital_of_mem_digits
  | some s =>
    have hcomma : ∀ c ∈ ',' :: digits s.toNat, IsCapital c :=
      List.forall_mem_cons.2 ⟨by decide, isCapital_of_mem_digits⟩
    exact List.forall_mem_append.2 ⟨isCapital_of_mem_digits, hcomma⟩

/-- The text of a type reads the same trimmed and in upper case. -/
theorem isPlain_text (t : DataType) : IsPlain t.text.toList := by
  induction t with
  | decimal precision scale =>
    cases precision with
    | none => cases scale <;> exact (by decide : IsPlain "DECIMAL".toList)
    | some p =>
      rw [toList_text_decimal]
      exact isPlain_applied (by decide) isCapital_of_mem_decimalParameters
  | char length =>
    cases length with
    | none => decide
    | some n =>
      rw [toList_text_char]
      exact isPlain_applied (by decide) isCapital_of_mem_digits
  | string length =>
    cases length with
    | none => decide
    | some n =>
      rw [toList_text_string]
      exact isPlain_applied (by decide) isCapital_of_mem_digits
  | array t ih =>
    rw [toList_text_array]
    exact ih.append (all_isCapital_iff.1 (by decide)) (by decide)
  | integer width => cases width <;> decide
  | float width => cases width <;> decide
  | interval q => cases q <;> decide
  | multimedia kind => cases kind <;> decide
  | _ => decide

/-! ## Telling texts apart -/

/-- The bare words that name types. -/
def bareNames : List String :=
  ["BOOL", "BOOLEAN", "TINYINT", "INT1", "SMALLINT", "INT2", "INT", "INTEGER", "INT4", "BIGINT",
   "INT8", "REAL", "FLOAT4", "FLOAT", "DOUBLE", "DOUBLE PRECISION", "FLOAT8", "DECIMAL", "NUMERIC",
   "CHAR", "CHARACTER", "VARCHAR", "TEXT", "STRING", "CHARACTER VARYING", "DATE", "TIME",
   "TIMESTAMP", "VARBINARY", "BINARY", "BLOB", "BYTEA", "FILE", "IMAGE", "VIDEO", "SOUND", "AUDIO",
   "JSON"]

theorem mem_bareNames {s : String} {t : DataType} (h : ofName? s = some t) : s ∈ bareNames := by
  unfold ofName? at h
  split at h <;> first | (simp [bareNames]; done) | cases h

/-- What no bare word is like is no bare word. -/
theorem ofName?_eq_none {cs : List Char} (isOther : List Char → Bool)
    (hbare : ∀ name ∈ bareNames, isOther name.toList = false) (h : isOther cs = true) :
    ofName? (String.ofList cs) = none := by
  cases hname : ofName? (String.ofList cs) with
  | none => rfl
  | some t =>
    have := hbare _ (mem_bareNames hname)
    rw [String.toList_ofList, h] at this
    cases this

variable {cs : List Char}

theorem readUpper_of_ofName? {t : DataType} (hcs : IsPlain cs)
    (h : ofName? (String.ofList cs) = some t) : readUpper cs = .ok (some t) := by
  rw [readUpper, hcs.trim_eq, h]

theorem readUpper_of_arrayItem? {item : List Char} (hcs : IsPlain cs)
    (h : ofName? (String.ofList cs) = none) (hitem : arrayItem? cs = some item) :
    readUpper cs = (readUpper item).map (·.map array) := by
  rw [← hcs.trim_eq] at h hitem
  rw [readUpper, h]
  simp only
  split
  · rename_i found hfound
    rw [hitem, Option.some.injEq] at hfound
    rw [hfound]
  · rename_i hfound
    rw [hitem] at hfound
    cases hfound

theorem readUpper_of_scalar (hcs : IsPlain cs) (h : ofName? (String.ofList cs) = none)
    (hitem : arrayItem? cs = none) : readUpper cs = readScalar cs := by
  have htrim := hcs.trim_eq
  rw [← htrim] at h hitem
  rw [readUpper, h]
  simp only
  split
  · rename_i found hfound
    rw [hitem] at hfound
    cases hfound
  · rw [htrim]

/-! ## Arrays -/

theorem dropEnding?_append (cs ending : List Char) : dropEnding? ending (cs ++ ending) = some cs := by
  simp [dropEnding?]

/-- An ending is none if the last character is another one. -/
theorem dropEnding?_eq_none {ending : List Char} {c d : Char} (hc : cs.getLast? = some c)
    (hd : ending.getLast? = some d) (hne : c ≠ d) : dropEnding? ending cs = none := by
  refine if_neg fun h => hne ?_
  obtain ⟨front, rfl⟩ := List.isSuffixOf_iff_suffix.1 h
  rw [List.getLast?_append, hd, Option.some_or, Option.some.injEq] at hc
  exact hc.symm

theorem readUpper_array {t : DataType} (h : readUpper t.text.toList = .ok (some t)) :
    readUpper (array t).text.toList = .ok (some (array t)) := by
  have hplain := isPlain_text (array t)
  rw [toList_text_array] at hplain ⊢
  have hname : ofName? (String.ofList (t.text.toList ++ " ARRAY".toList)) = none :=
    ofName?_eq_none (" ARRAY".toList.isSuffixOf ·) (by decide) (by simp)
  have hitem : arrayItem? (t.text.toList ++ " ARRAY".toList) = some t.text.toList := by
    have hmark : dropEnding? ['[', ']'] (t.text.toList ++ " ARRAY".toList) = none :=
      dropEnding?_eq_none (c := 'Y') (d := ']') (by simp) rfl (by decide)
    rw [arrayItem?, hmark, dropEnding?_append]
  rw [readUpper_of_arrayItem? hplain hname hitem, h]
  rfl

/-! ## Intervals -/

theorem readUpper_interval (q : IntervalQualifier) :
    readUpper (interval q).text.toList = .ok (some (interval q)) := by
  have hname : ofName? (String.ofList (interval q).text.toList) = none := by
    cases q <;> rfl
  have hitem : arrayItem? (interval q).text.toList = none := by cases q <;> rfl
  rw [readUpper_of_scalar (isPlain_text _) hname hitem]
  cases q <;> rfl

/-! ## Parameters -/

/-- A name in front of parameters in parentheses; what is behind these does not matter. -/
theorem readParameterized_applied {base behind : List Char} (parameters : List Char)
    (h : '(' ∉ base) (hbehind : ')' ∉ behind) :
    readParameterized (base ++ '(' :: (parameters ++ ')' :: behind)) =
      .ok (ofParameters? (String.ofList (trim base)) parameters) := by
  have hopening : (base ++ '(' :: (parameters ++ ')' :: behind)).idxOf? '(' =
      some base.length := by
    rw [List.idxOf?_eq_some_iff]
    refine ⟨by simp, by simp, fun j hj => ?_⟩
    rw [List.getElem_append_left hj]
    exact fun heq => h (heq ▸ List.getElem_mem hj)
  have hreverse : (base ++ '(' :: (parameters ++ ')' :: behind)).reverse =
      behind.reverse ++ ')' :: (parameters.reverse ++ '(' :: base.reverse) := by
    simp
  have hclosing : (base ++ '(' :: (parameters ++ ')' :: behind)).reverse.idxOf? ')' =
      some behind.reverse.length := by
    rw [hreverse, List.idxOf?_eq_some_iff]
    refine ⟨by simp, by simp, fun j hj => ?_⟩
    rw [List.getElem_append_left hj]
    exact fun heq => hbehind (List.mem_reverse.1 (heq ▸ List.getElem_mem hj))
  have hlength : (base ++ '(' :: (parameters ++ ')' :: behind)).length - 1 -
      behind.reverse.length = base.length + 1 + parameters.length := by
    simp
    omega
  rw [readParameterized, hopening, hclosing]
  simp only [hlength]
  have hinner : ((base ++ '(' :: (parameters ++ ')' :: behind)).drop (base.length + 1)).take
      (base.length + 1 + parameters.length - base.length - 1) = parameters := by
    have hcount : base.length + 1 + parameters.length - base.length - 1 = parameters.length := by
      omega
    rw [hcount]
    simp [List.drop_append, List.drop_of_length_le]
  rw [if_neg (by omega), List.take_left, hinner]

theorem readUpper_applied {base : String} {parameters : List Char} {t : DataType}
    (hbase : base ∈ ["DECIMAL", "CHAR", "VARCHAR"]) (hparameters : ∀ c ∈ parameters, IsCapital c)
    (h : ofParameters? base parameters = some t) :
    readUpper (base.toList ++ '(' :: (parameters ++ [')'])) = .ok (some t) := by
  have hplainBase : ∀ base ∈ ["DECIMAL", "CHAR", "VARCHAR"], IsPlain base.toList ∧
      '(' ∉ base.toList := by decide
  obtain ⟨hplain, hopening⟩ := hplainBase base hbase
  have hlast : (base.toList ++ '(' :: (parameters ++ [')'])).getLast? = some ')' := by
    rw [← List.cons_append, ← List.append_assoc, List.getLast?_concat]
  have hname : ofName? (String.ofList (base.toList ++ '(' :: (parameters ++ [')']))) = none :=
    ofName?_eq_none (·.contains '(') (by decide) (by simp)
  have hitem : arrayItem? (base.toList ++ '(' :: (parameters ++ [')'])) = none := by
    rw [arrayItem?, dropEnding?_eq_none hlast (d := ']') rfl (by decide)]
    exact dropEnding?_eq_none hlast (d := 'Y') rfl (by decide)
  have hinterval : "INTERVAL ".toList.isPrefixOf? (base.toList ++ '(' :: (parameters ++ [')'])) =
      none := by
    simp only [List.mem_cons, List.not_mem_nil, or_false] at hbase
    rcases hbase with rfl | rfl | rfl <;> rfl
  rw [readUpper_of_scalar (isPlain_applied hplain hparameters) hname hitem, readScalar, hinterval]
  simp only
  rw [readParameterized_applied parameters hopening (by simp), hplain.trim_eq,
    String.ofList_toList, h]

theorem trim_digits (n : Nat) : trim (digits n) = digits n := by
  have hblank : ∀ c ∈ digits n, isBlank c = false :=
    fun c hc => (plain_of_isDigit (isDigit_of_mem_digits hc)).2
  exact trim_eq_self (fun c hc => hblank c (List.mem_of_mem_head? hc))
    (fun c hc => hblank c (List.mem_of_getLast? hc))

theorem lengthParameter?_digits (n : UInt32) : lengthParameter? (digits n.toNat) = some n := by
  have hlt : n.toNat < UInt32.size := n.toNat_lt
  simp [lengthParameter?, trim_digits, readBelow?, readNat?_digits, Option.filter, hlt]

theorem digitsParameter?_digits (n : UInt16) : digitsParameter? (digits n.toNat) = some n := by
  have hlt : n.toNat < UInt16.size := n.toNat_lt
  simp [digitsParameter?, trim_digits, readBelow?, readNat?_digits, Option.filter, hlt]

theorem comma_not_mem_digits (n : Nat) : ∀ c ∈ digits n, (c == ',') = false := by
  intro c hc
  rw [beq_eq_false_iff_ne]
  rintro rfl
  exact absurd (isDigit_of_mem_digits hc) (by decide)

theorem ofParameters?_decimal (precision : UInt16) (scale : Option UInt16) :
    ofParameters? "DECIMAL" (decimalParameters precision scale) =
      some (decimal (some precision) scale) := by
  have hpieces : pieces ',' (decimalParameters precision scale) =
      digits precision.toNat :: (scale.map fun s => digits s.toNat).toList := by
    cases scale with
    | none => simp [decimalParameters, pieces, List.splitOnP_eq_singleton (comma_not_mem_digits _)]
    | some s =>
      simp [decimalParameters, pieces, List.splitOnP_append_cons_of_forall_mem
        (comma_not_mem_digits _), List.splitOnP_eq_singleton (comma_not_mem_digits _)]
  simp only [ofParameters?, hpieces, digitsParameter?_digits]
  cases scale <;> simp [digitsParameter?_digits]

/-! ## All texts -/

/-- Reading undoes writing, in upper case. -/
theorem readUpper_text {t : DataType} (h : t.IsNameable) :
    readUpper t.text.toList = .ok (some t) := by
  have bare {t : DataType} (hname : ofName? t.text = some t) :
      readUpper t.text.toList = .ok (some t) :=
    readUpper_of_ofName? (isPlain_text t) (by rwa [String.ofList_toList])
  induction t with
  | decimal precision scale =>
    cases precision with
    | none =>
      cases scale with
      | none => exact bare rfl
      | some s => exact absurd rfl (h.2 s)
    | some p =>
      rw [toList_text_decimal]
      exact readUpper_applied (by simp) isCapital_of_mem_decimalParameters
        (ofParameters?_decimal p scale)
  | char length =>
    cases length with
    | none => exact bare rfl
    | some n =>
      rw [toList_text_char]
      refine readUpper_applied (by simp) isCapital_of_mem_digits ?_
      simp [ofParameters?, lengthParameter?_digits]
  | string length =>
    cases length with
    | none => exact bare rfl
    | some n =>
      rw [toList_text_string]
      refine readUpper_applied (by simp) isCapital_of_mem_digits ?_
      simp [ofParameters?, lengthParameter?_digits]
  | array t ih => exact readUpper_array (ih h)
  | interval q => exact readUpper_interval q
  | null => exact absurd rfl h.1
  | integer width => cases width <;> exact bare rfl
  | float width => cases width <;> exact bare rfl
  | multimedia kind => cases kind <;> exact bare rfl
  | _ => exact bare rfl

/-! ## What is read -/

theorem isNameable_of_ofName? {s : String} {t : DataType} (h : ofName? s = some t) :
    t.IsNameable := by
  unfold ofName? at h
  split at h <;> cases h <;> simp [IsNameable, innermost]

/-- A decimal with a scale has a precision in front of it. -/
theorem isNameable_of_ofParameters? {base : String} {parameters : List Char} {t : DataType}
    (h : ofParameters? base parameters = some t) : t.IsNameable := by
  have lengthed {make : UInt32 → DataType} (hmake : ∀ n, (make n).IsNameable)
      (h : (lengthParameter? parameters).map make = some t) : t.IsNameable := by
    obtain ⟨n, -, rfl⟩ := Option.map_eq_some_iff.1 h
    exact hmake n
  unfold ofParameters? at h
  split at h
  case h_1 | h_2 | h_3 | h_4 => exact lengthed (fun n => by simp [IsNameable, innermost]) h
  case h_5 | h_6 =>
    split at h
    · cases h
    · obtain ⟨p, -, rfl⟩ := Option.map_eq_some_iff.1 h
      simp [IsNameable, innermost]
  case h_7 => cases h

theorem isNameable_of_readScalar {t : DataType} (h : readScalar cs = .ok (some t)) :
    t.IsNameable := by
  unfold readScalar readParameterized at h
  split at h
  · obtain ⟨q, -, rfl⟩ := Option.map_eq_some_iff.1 (Except.ok.inj h)
    simp [IsNameable, innermost]
  · split at h
    · simp only at h
      split at h
      · cases h
      · exact isNameable_of_ofParameters? (Except.ok.inj h)
    · cases h

theorem isNameable_of_readUpper {t : DataType} (h : readUpper cs = .ok (some t)) :
    t.IsNameable := by
  fun_induction readUpper cs generalizing t with
  | case1 cs named hname =>
    cases h
    exact isNameable_of_ofName? hname
  | case2 cs hname item hitem ih =>
    cases hread : readUpper item with
    | error fault =>
      rw [hread] at h
      cases h
    | ok found =>
      rw [hread] at h
      obtain ⟨component, rfl, rfl⟩ := Option.map_eq_some_iff.1 (Except.ok.inj h)
      have hcomponent : component.IsNameable := ih hread
      exact hcomponent
  | case3 cs hname hitem => exact isNameable_of_readScalar h

/-- The text of a type is read as that type, and any text as that type, exactly if it is nameable.
-/
theorem read_text_iff (t : DataType) :
    (read t.text = .ok (some t) ↔ t.IsNameable) ∧
      ((∃ s, read s = .ok (some t)) ↔ t.IsNameable) := by
  have hread (h : t.IsNameable) : read t.text = .ok (some t) := by
    rw [read, (isPlain_text t).trim_eq, (isPlain_text t).upper_eq, readUpper_text h]
  have hnameable {s : String} (h : read s = .ok (some t)) : t.IsNameable :=
    isNameable_of_readUpper h
  exact ⟨⟨hnameable, hread⟩, ⟨fun ⟨_, h⟩ => hnameable h, fun h => ⟨t.text, hread h⟩⟩⟩

end StorePlan.DataType
