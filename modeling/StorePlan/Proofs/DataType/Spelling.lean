import StorePlan.Proofs.DataType.Faults

/-
How types are spelled, and what the reader passes over.

A spelling is a bare name, an interval or a base name with a list of numbers
in parentheses, and array marks behind it. The reader takes more texts than
these: it passes over what stands behind the list, a second number that is
none, and further numbers. Which texts these are is part of the relation
between a text and a type, `Spells`; a text is well formed if there are none.
-/

namespace StorePlan.DataType

open Text

/-! ## Spellings -/

def arrayMarks : List String := ["[]", " ARRAY"]

/-- The text ends in an array mark. -/
def IsMarked (cs : List Char) : Prop := ∃ mark ∈ arrayMarks, mark.toList <:+ cs

def stringNames : List String := ["VARCHAR", "CHARACTER VARYING"]

def charNames : List String := ["CHAR", "CHARACTER"]

def decimalNames : List String := ["DECIMAL", "NUMERIC"]

/-- Digits, perhaps behind a plus sign, and blanks around them, that write the number. -/
def Writes (cs : List Char) (n : Nat) : Prop :=
  ∃ ds, (trim cs = ds ∨ trim cs = '+' :: ds) ∧ readDigits? ds = some n

/-- The type of a base name and a list of numbers, and the items of the list that are ignored. -/
inductive Applies : String → List Char → DataType → List (List Char) → Prop where
  | string {base : String} {list : List Char} {n : UInt32} :
    base ∈ stringNames → Writes list n.toNat → Applies base list (.string (some n)) []
  | char {base : String} {list : List Char} {n : UInt32} :
    base ∈ charNames → Writes list n.toNat → Applies base list (.char (some n)) []
  | precision {base : String} {list first : List Char} {p : UInt16} :
    base ∈ decimalNames → pieces ',' list = [first] → Writes first p.toNat →
      Applies base list (.decimal (some p) none) []
  | scale {base : String} {list first second : List Char} {more : List (List Char)} {p s : UInt16} :
    base ∈ decimalNames → pieces ',' list = first :: second :: more → Writes first p.toNat →
      Writes second s.toNat → Applies base list (.decimal (some p) (some s)) more
  | noScale {base : String} {list first second : List Char} {more : List (List Char)} {p : UInt16} :
    base ∈ decimalNames → pieces ',' list = first :: second :: more → Writes first p.toNat →
      (∀ s : UInt16, ¬Writes second s.toNat) →
        Applies base list (.decimal (some p) none) (second :: more)

/-- The text is split at its first opening and its last closing parenthesis. -/
structure SplitsAt (cs base list behind : List Char) : Prop where
  eq : cs = base ++ '(' :: (list ++ ')' :: behind)
  first : '(' ∉ base
  last : ')' ∉ behind

/-- The type that a text without array marks spells, and the parts of the text that are ignored. -/
inductive SpellsScalar : List Char → DataType → List (List Char) → Prop where
  | bare {cs : List Char} {t : DataType} :
    ofName? (String.ofList cs) = some t → SpellsScalar cs t []
  | interval {qualifier : List Char} {q : IntervalQualifier} :
    IntervalQualifier.ofWords? ((words qualifier).map String.ofList) = some q →
      SpellsScalar ("INTERVAL ".toList ++ qualifier) (.interval q) []
  | applied {cs base list behind : List Char} {t : DataType} {ignored : List (List Char)} :
    SplitsAt cs base list behind → Applies (String.ofList (trim base)) list t ignored →
      SpellsScalar cs t (ignored ++ [behind].filter (· ≠ []))

/-- The type that a text in upper case spells, and the parts of the text that are ignored. -/
inductive Spells : List Char → DataType → List (List Char) → Prop where
  | scalar {cs : List Char} {t : DataType} {ignored : List (List Char)} :
    ¬IsMarked cs → SpellsScalar cs t ignored → Spells cs t ignored
  | array {item : List Char} {mark : String} {t : DataType} {ignored : List (List Char)} :
    mark ∈ arrayMarks → Spells (trim item) t ignored →
      Spells (item ++ mark.toList) (.array t) ignored

variable {cs base list behind item : List Char} {t u : DataType} {ignored : List (List Char)}

/-! ## Lists of numbers -/

theorem writes_iff {n : Nat} : Writes cs n ↔ readNat? (trim cs) = some n := by
  unfold readNat?
  constructor
  · rintro ⟨ds, hcs, hds⟩
    rcases hcs with hcs | hcs
    · rw [hcs]
      split
      · -- A plus sign is no digit.
        simp [readDigits?, isDigit] at hds
      · exact hds
    · rw [hcs]
      exact hds
  · intro h
    split at h
    · exact ⟨_, .inr ‹_›, h⟩
    · exact ⟨_, .inl rfl, h⟩

theorem readBelow?_trim_eq_some_iff {n bound : Nat} :
    readBelow? bound (trim cs) = some n ↔ Writes cs n ∧ n < bound := by
  rw [readBelow?, writes_iff, Option.filter_eq_some_iff, decide_eq_true_eq]

theorem lengthParameter?_eq_some_iff {n : UInt32} :
    lengthParameter? cs = some n ↔ Writes cs n.toNat := by
  simp only [lengthParameter?, Option.map_eq_some_iff, readBelow?_trim_eq_some_iff]
  constructor
  · rintro ⟨m, ⟨hm, hlt⟩, rfl⟩
    rwa [UInt32.toNat_ofNat_of_lt' hlt]
  · exact fun h => ⟨n.toNat, ⟨h, n.toNat_lt⟩, UInt32.ofNat_toNat⟩

theorem digitsParameter?_eq_some_iff {n : UInt16} :
    digitsParameter? cs = some n ↔ Writes cs n.toNat := by
  simp only [digitsParameter?, Option.map_eq_some_iff, readBelow?_trim_eq_some_iff]
  constructor
  · rintro ⟨m, ⟨hm, hlt⟩, rfl⟩
    rwa [UInt16.toNat_ofNat_of_lt' hlt]
  · exact fun h => ⟨n.toNat, ⟨h, n.toNat_lt⟩, UInt16.ofNat_toNat⟩

theorem digitsParameter?_eq_none_iff :
    digitsParameter? cs = none ↔ ∀ n : UInt16, ¬Writes cs n.toNat := by
  simp only [← digitsParameter?_eq_some_iff, Option.eq_none_iff_forall_ne_some]

theorem ofParameters?_eq_some_iff {base : String} :
    ofParameters? base list = some t ↔ ∃ ignored, Applies base list t ignored := by
  constructor
  · intro h
    unfold ofParameters? at h
    split at h
    case h_1 | h_2 =>
      obtain ⟨n, hn, rfl⟩ := Option.map_eq_some_iff.1 h
      exact ⟨[], .string (by decide) (lengthParameter?_eq_some_iff.1 hn)⟩
    case h_3 | h_4 =>
      obtain ⟨n, hn, rfl⟩ := Option.map_eq_some_iff.1 h
      exact ⟨[], .char (by decide) (lengthParameter?_eq_some_iff.1 hn)⟩
    case h_5 | h_6 =>
      split at h
      · cases h
      · rename_i first rest hpieces
        obtain ⟨p, hp, rfl⟩ := Option.map_eq_some_iff.1 h
        rw [digitsParameter?_eq_some_iff] at hp
        cases rest with
        | nil => exact ⟨[], .precision (by decide) hpieces hp⟩
        | cons second more =>
          rw [List.head?_cons, Option.bind_some]
          cases hs : digitsParameter? second with
          | none =>
            exact ⟨_, .noScale (by decide) hpieces hp (digitsParameter?_eq_none_iff.1 hs)⟩
          | some s =>
            exact ⟨_, .scale (by decide) hpieces hp (digitsParameter?_eq_some_iff.1 hs)⟩
    case h_7 => cases h
  · have hdecimal (hbase : base ∈ decimalNames) :
        ofParameters? base list = ofParameters? "DECIMAL" list := by
      simp only [decimalNames, List.mem_cons, List.not_mem_nil, or_false] at hbase
      rcases hbase with rfl | rfl <;> rfl
    rintro ⟨ignored, h⟩
    cases h with
    | string hbase hn | char hbase hn =>
      simp only [stringNames, charNames, List.mem_cons, List.not_mem_nil, or_false] at hbase
      rcases hbase with rfl | rfl <;> simp [ofParameters?, lengthParameter?_eq_some_iff.2 hn]
    | precision hbase hpieces hp =>
      rw [hdecimal hbase]
      simp [ofParameters?, hpieces, digitsParameter?_eq_some_iff.2 hp]
    | scale hbase hpieces hp hs =>
      rw [hdecimal hbase]
      simp [ofParameters?, hpieces, digitsParameter?_eq_some_iff.2 hp,
        digitsParameter?_eq_some_iff.2 hs]
    | noScale hbase hpieces hp hs =>
      rw [hdecimal hbase]
      simp [ofParameters?, hpieces, digitsParameter?_eq_some_iff.2 hp,
        digitsParameter?_eq_none_iff.2 hs]

/-- Lists that are read differently have different base names. -/
theorem not_mem_of_mem_decimalNames {base : String} (h : base ∈ decimalNames) :
    base ∉ stringNames ∧ base ∉ charNames := by
  have hnames : ∀ base ∈ decimalNames, base ∉ stringNames ∧ base ∉ charNames := by decide
  exact hnames base h

/-- What is ignored in a list is settled by the list. -/
theorem Applies.unique {base : String} {ignored' : List (List Char)}
    (h : Applies base list t ignored) (h' : Applies base list u ignored') : ignored = ignored' := by
  cases h with
  | string hbase | char hbase =>
    cases h' with
    | string | char | precision => rfl
    | scale hbase' | noScale hbase' =>
      have := not_mem_of_mem_decimalNames hbase'
      simp_all
  | precision hbase hpieces =>
    cases h' with
    | string | char | precision => rfl
    | scale _ hpieces' | noScale _ hpieces' => simp [hpieces] at hpieces'
  | scale hbase hpieces _ hs | noScale hbase hpieces _ hs =>
    have := not_mem_of_mem_decimalNames hbase
    cases h' with
    | string hbase' | char hbase' => simp_all
    | precision _ hpieces' => simp [hpieces] at hpieces'
    | scale _ hpieces' _ hs' | noScale _ hpieces' _ hs' => simp_all

/-! ## Splitting -/

theorem append_cons_inj {c : Char} {as bs xs ys : List Char} (ha : c ∉ as) (hb : c ∉ bs)
    (h : as ++ c :: xs = bs ++ c :: ys) : as = bs ∧ xs = ys := by
  induction as generalizing bs with
  | nil =>
    cases bs with
    | nil => exact ⟨rfl, (List.cons.inj h).2⟩
    | cons b bs =>
      obtain ⟨rfl, -⟩ := List.cons.inj h
      exact absurd List.mem_cons_self hb
  | cons a as ih =>
    cases bs with
    | nil =>
      obtain ⟨rfl, -⟩ := List.cons.inj h
      exact absurd List.mem_cons_self ha
    | cons b bs =>
      rw [List.mem_cons, not_or] at ha hb
      obtain ⟨rfl, htail⟩ := List.cons.inj h
      obtain ⟨rfl, rfl⟩ := ih ha.2 hb.2 htail
      exact ⟨rfl, rfl⟩

theorem SplitsAt.unique {base' list' behind' : List Char} (h : SplitsAt cs base list behind)
    (h' : SplitsAt cs base' list' behind') : base = base' ∧ list = list' ∧ behind = behind' := by
  obtain ⟨rfl, hrest⟩ := append_cons_inj h.first h'.first (h.eq.symm.trans h'.eq)
  have hreverse := congrArg List.reverse hrest
  simp only [List.reverse_append, List.reverse_cons, List.append_assoc, List.singleton_append]
    at hreverse
  obtain ⟨hbehind, hlist⟩ :=
    append_cons_inj (by simpa using h.last) (by simpa using h'.last) hreverse
  exact ⟨rfl, List.reverse_injective hlist, List.reverse_injective hbehind⟩

/-- A text is split unless one of the parentheses is missing or they are reversed. -/
theorem exists_splitsAt (h : readParameterized cs = .ok (some t)) :
    ∃ base list behind, SplitsAt cs base list behind := by
  have hopens : '(' ∈ cs := by
    by_contra hnone
    have hidx : cs.idxOf? '(' = none := by simpa using hnone
    simp [readParameterized, hidx] at h
  have hcloses : ')' ∈ cs := by
    by_contra hnone
    have hidx : cs.reverse.idxOf? ')' = none := by simpa using hnone
    unfold readParameterized at h
    rw [hidx] at h
    split at h <;> simp_all
  obtain ⟨base, rest, hcs, hbase⟩ := List.eq_append_cons_of_mem hopens
  by_cases hrest : ')' ∈ rest
  · obtain ⟨behind, list, hreverse, hbehind⟩ :=
      List.eq_append_cons_of_mem (List.mem_reverse.2 hrest)
    have hsplit : rest = list.reverse ++ ')' :: behind.reverse := by
      rw [← List.reverse_reverse rest, hreverse]
      simp
    exact ⟨base, list.reverse, behind.reverse, hsplit ▸ hcs, hbase, by simpa using hbehind⟩
  · -- Every closing one stands in front of the first opening one.
    have hapart : cs.Pairwise fun a b => ¬(a = '(' ∧ b = ')') := by
      rw [hcs, List.pairwise_append, List.pairwise_cons]
      have hclose {b : Char} (hb : b ∈ rest) : b ≠ ')' := fun heq => hrest (heq ▸ hb)
      have hopen {a : Char} (ha : a ∈ base) : a ≠ '(' := fun heq => hbase (heq ▸ ha)
      refine ⟨?_, ⟨fun b hb hab => hclose hb hab.2, ?_⟩, fun a ha b _ hab => hopen ha hab.1⟩
      · exact List.pairwise_of_forall_mem_list fun a ha b _ hab => hopen ha hab.1
      · exact List.pairwise_of_forall_mem_list fun a _ b hb hab => hclose hb hab.2
    rw [readParameterized_eq_error_iff.2 ⟨hopens, hcloses, hapart⟩] at h
    cases h

theorem readParameterized_eq_some_iff :
    readParameterized cs = .ok (some t) ↔
      ∃ base list behind, SplitsAt cs base list behind ∧
        ofParameters? (String.ofList (trim base)) list = some t := by
  have hread {base list behind : List Char} (hsplit : SplitsAt cs base list behind) :
      readParameterized cs = .ok (ofParameters? (String.ofList (trim base)) list) := by
    rw [hsplit.eq]
    exact readParameterized_applied list hsplit.first hsplit.last
  constructor
  · intro h
    obtain ⟨base, list, behind, hsplit⟩ := exists_splitsAt h
    rw [hread hsplit] at h
    exact ⟨base, list, behind, hsplit, Except.ok.inj h⟩
  · rintro ⟨base, list, behind, hsplit, h⟩
    rw [hread hsplit, h]

/-! ## Array marks -/

theorem arrayItem?_eq_some_iff :
    arrayItem? cs = some item ↔ ∃ mark ∈ arrayMarks, cs = item ++ mark.toList := by
  have hsquare : "[]".toList = ['[', ']'] := rfl
  constructor
  · intro h
    unfold arrayItem? at h
    split at h
    · rename_i found hfound
      cases h
      exact ⟨"[]", by simp [arrayMarks], eq_append_of_dropEnding? hfound⟩
    · exact ⟨" ARRAY", by simp [arrayMarks], eq_append_of_dropEnding? h⟩
  · rintro ⟨mark, hmark, rfl⟩
    simp only [arrayMarks, List.mem_cons, List.not_mem_nil, or_false] at hmark
    unfold arrayItem?
    rcases hmark with rfl | rfl
    · rw [hsquare, dropEnding?_append]
    · have hother : dropEnding? ['[', ']'] (item ++ " ARRAY".toList) = none :=
        dropEnding?_eq_none (c := 'Y') (d := ']') (by simp) rfl (by decide)
      rw [hother, dropEnding?_append]

theorem isMarked_iff : IsMarked cs ↔ ∃ item, arrayItem? cs = some item := by
  simp only [arrayItem?_eq_some_iff]
  constructor
  · rintro ⟨mark, hmark, item, rfl⟩
    exact ⟨item, mark, hmark, rfl⟩
  · rintro ⟨item, mark, hmark, rfl⟩
    exact ⟨mark, hmark, item, rfl⟩

theorem spells_iff_of_arrayItem? (h : arrayItem? cs = some item) :
    Spells cs t ignored ↔ ∃ u, t = .array u ∧ Spells (trim item) u ignored := by
  constructor
  · intro hspells
    cases hspells with
    | scalar hmarked => exact absurd (isMarked_iff.2 ⟨item, h⟩) hmarked
    | @array item' mark u _ hmark hitem =>
      have hitem' : arrayItem? (item' ++ mark.toList) = some item' :=
        arrayItem?_eq_some_iff.2 ⟨mark, hmark, rfl⟩
      obtain rfl : item' = item := Option.some.inj (hitem'.symm.trans h)
      exact ⟨u, rfl, hitem⟩
  · rintro ⟨u, rfl, hitem⟩
    obtain ⟨mark, hmark, rfl⟩ := arrayItem?_eq_some_iff.1 h
    exact .array hmark hitem

theorem spells_iff_of_arrayItem?_eq_none (h : arrayItem? cs = none) :
    Spells cs t ignored ↔ SpellsScalar cs t ignored := by
  have hmarked : ¬IsMarked cs := by simp [isMarked_iff, h]
  constructor
  · intro hspells
    cases hspells with
    | scalar _ hscalar => exact hscalar
    | array hmark _ => exact absurd ⟨_, hmark, List.suffix_append _ _⟩ hmarked
  · exact .scalar hmarked

/-! ## Texts without array marks -/

/-- A bare name is neither an interval nor has it parentheses or array marks. -/
theorem not_of_ofName? (h : ofName? (String.ofList cs) = some t) :
    ¬"INTERVAL ".toList <+: cs ∧ '(' ∉ cs ∧ arrayItem? cs = none := by
  have hbare : ∀ name ∈ bareNames, ¬"INTERVAL ".toList <+: name.toList ∧ '(' ∉ name.toList ∧
      arrayItem? name.toList = none := by decide
  have hname := hbare _ (mem_bareNames h)
  rwa [String.toList_ofList (l := cs)] at hname

theorem head?_trim_cons {c : Char} (h : isBlank c = false) :
    (trim (c :: cs)).head? = some c := by
  have hskip : skipBlanks (c :: cs) = c :: cs := skipBlanks_eq_self (by simp [h])
  obtain ⟨behind, hcs, hblank⟩ := trimEnd_append (c :: cs)
  have htrim : trim (c :: cs) = trimEnd (c :: cs) := congrArg trimEnd hskip
  rw [htrim]
  cases hends : trimEnd (c :: cs) with
  | nil =>
    rw [hends, List.nil_append] at hcs
    have := hblank c (hcs ▸ List.mem_cons_self)
    rw [h] at this
    cases this
  | cons d rest =>
    rw [hends, List.cons_append] at hcs
    rw [List.head?_cons, (List.cons.inj hcs).1]

/-- A base name in front of a list is no beginning of an interval. -/
theorem SplitsAt.not_interval (hsplit : SplitsAt cs base list behind)
    (h : Applies (String.ofList (trim base)) list t ignored) : ¬"INTERVAL ".toList <+: cs := by
  have hnames : ∀ name ∈ stringNames ++ charNames ++ decimalNames,
      name.toList ≠ [] ∧ name.toList.head? ≠ some 'I' := by decide
  have hbase : String.ofList (trim base) ∈ stringNames ++ charNames ++ decimalNames := by
    cases h <;> simp_all
  obtain ⟨hnonempty, hhead⟩ := hnames _ hbase
  rw [String.toList_ofList] at hnonempty hhead
  rintro ⟨qualifier, hcs⟩
  cases base with
  | nil => exact hnonempty rfl
  | cons c rest =>
    have hc : 'I' = c := (List.cons.inj (hcs.trans hsplit.eq)).1
    rw [← hc] at hhead
    exact hhead (head?_trim_cons rfl)

theorem readScalar_eq_some_iff (hname : ofName? (String.ofList cs) = none) :
    readScalar cs = .ok (some t) ↔ ∃ ignored, SpellsScalar cs t ignored := by
  unfold readScalar
  constructor
  · intro h
    split at h
    · rename_i qualifier hqualifier
      obtain ⟨q, hq, rfl⟩ := Option.map_eq_some_iff.1 (Except.ok.inj h)
      rw [← List.isPrefixOf?_eq_some_iff_append_eq.1 hqualifier]
      exact ⟨[], .interval hq⟩
    · obtain ⟨base, list, behind, hsplit, h⟩ := readParameterized_eq_some_iff.1 h
      obtain ⟨ignored, h⟩ := ofParameters?_eq_some_iff.1 h
      exact ⟨_, .applied hsplit h⟩
  · rintro ⟨ignored, h⟩
    cases h with
    | bare h =>
      rw [hname] at h
      cases h
    | @interval qualifier q h =>
      rw [List.isPrefixOf?_eq_some_iff_append_eq.2 rfl]
      simp [h]
    | @applied _ base list behind _ ignored hsplit h =>
      have hnone : "INTERVAL ".toList.isPrefixOf? cs = none := by
        rw [← Option.not_isSome_iff_eq_none, List.isSome_isPrefixOf?_eq_isPrefixOf,
          List.isPrefixOf_iff_prefix]
        exact hsplit.not_interval h
      rw [hnone]
      exact readParameterized_eq_some_iff.2
        ⟨base, list, behind, hsplit, ofParameters?_eq_some_iff.2 ⟨ignored, h⟩⟩

theorem spellsScalar_iff_of_ofName? (h : ofName? (String.ofList cs) = some u) :
    SpellsScalar cs t ignored ↔ t = u ∧ ignored = [] := by
  obtain ⟨hinterval, hopening, -⟩ := not_of_ofName? h
  constructor
  · intro hspells
    cases hspells with
    | bare h' => exact ⟨Option.some.inj (h'.symm.trans h), rfl⟩
    | interval => exact absurd (List.prefix_append _ _) hinterval
    | applied hsplit => exact absurd (by simp [hsplit.eq]) hopening
  · rintro ⟨rfl, rfl⟩
    exact .bare h

/-- What is ignored is settled by the text. -/
theorem SpellsScalar.unique {ignored' : List (List Char)} (h : SpellsScalar cs t ignored)
    (h' : SpellsScalar cs u ignored') : ignored = ignored' := by
  cases h with
  | bare hname => exact ((spellsScalar_iff_of_ofName? hname).1 h').2.symm
  | interval =>
    cases h' with
    | bare | interval => rfl
    | applied hsplit happlies =>
      exact absurd (List.prefix_append _ _) (hsplit.not_interval happlies)
  | applied hsplit happlies =>
    cases h' with
    | bare hname => exact absurd (by simp [hsplit.eq]) (not_of_ofName? hname).2.1
    | interval => exact absurd (List.prefix_append _ _) (hsplit.not_interval happlies)
    | applied hsplit' happlies' =>
      obtain ⟨rfl, rfl, rfl⟩ := hsplit.unique hsplit'
      rw [happlies.unique happlies']

/-! ## All texts -/

theorem Spells.unique {ignored' : List (List Char)} (h : Spells cs t ignored)
    (h' : Spells cs u ignored') : ignored = ignored' := by
  induction h generalizing u with
  | scalar hmarked hscalar =>
    cases h' with
    | scalar _ hscalar' => exact hscalar.unique hscalar'
    | array hmark => exact absurd ⟨_, hmark, List.suffix_append _ _⟩ hmarked
  | @array item mark _ _ hmark _ ih =>
    have hitem : arrayItem? (item ++ mark.toList) = some item :=
      arrayItem?_eq_some_iff.2 ⟨mark, hmark, rfl⟩
    obtain ⟨component, -, hcomponent⟩ := (spells_iff_of_arrayItem? hitem).1 h'
    exact ih hcomponent

theorem readUpper_eq_some_iff :
    readUpper cs = .ok (some t) ↔ ∃ ignored, Spells (trim cs) t ignored := by
  fun_induction readUpper cs generalizing t with
  | case1 cs named hname =>
    have hitem := (not_of_ofName? hname).2.2
    simp [spells_iff_of_arrayItem?_eq_none hitem, spellsScalar_iff_of_ofName? hname, eq_comm]
  | case2 cs hname item hitem ih =>
    have hread : (readUpper item).map (·.map array) = .ok (some t) ↔
        ∃ u, t = .array u ∧ readUpper item = .ok (some u) := by
      rcases readUpper item with fault | _ | u <;> simp [Except.map, eq_comm]
    simp only [hread, ih, spells_iff_of_arrayItem? hitem]
    constructor
    · rintro ⟨u, ht, ignored, h⟩
      exact ⟨ignored, u, ht, h⟩
    · rintro ⟨ignored, u, ht, h⟩
      exact ⟨u, ht, ignored, h⟩
  | case3 cs hname hitem =>
    rw [readScalar_eq_some_iff hname]
    simp only [spells_iff_of_arrayItem?_eq_none hitem]

theorem isBlank_of_mem_getLast?_trim : ∀ c ∈ (trim cs).getLast?, isBlank c = false := by
  intro c hc
  rw [trim, trimEnd, List.getLast?_reverse] at hc
  have hlast := List.head?_dropWhile_not isBlank (cs.dropWhile isBlank).reverse
  rwa [hc] at hlast

/-- A text is read as a type exactly if it spells the type, with parts that are ignored or without.
The text settles which parts these are. -/
theorem read_eq_some_iff (s : String) (t : DataType) :
    read s = .ok (some t) ↔ ∃! ignored, Spells (upper (trim s.toList)) t ignored := by
  rw [read, readUpper_eq_some_iff,
    trim_upper isBlank_of_mem_head?_trim isBlank_of_mem_getLast?_trim]
  constructor
  · rintro ⟨ignored, h⟩
    exact ⟨ignored, h, fun _ h' => h'.unique h⟩
  · exact ExistsUnique.exists

/-- What stands behind the list is ignored. -/
theorem not_spells_varchar_trailing :
    read "VARCHAR(10) X" = .ok (some (.string (some 10))) ∧
      ¬Spells (upper (trim "VARCHAR(10) X".toList)) (.string (some 10)) [] := by
  have hcs : upper (trim "VARCHAR(10) X".toList) = "VARCHAR(10) X".toList := by decide
  have htrim : trim "VARCHAR(10) X".toList = "VARCHAR(10) X".toList := by decide
  have hmarked : ¬IsMarked "VARCHAR(10) X".toList := by
    rw [isMarked_iff, show arrayItem? "VARCHAR(10) X".toList = none by decide]
    simp
  have hsplit : SplitsAt "VARCHAR(10) X".toList "VARCHAR".toList "10".toList " X".toList :=
    ⟨rfl, by decide, by decide⟩
  have hspells : Spells "VARCHAR(10) X".toList (.string (some 10)) [" X".toList] :=
    .scalar hmarked (.applied hsplit (.string (by decide) ⟨_, .inl rfl, by decide⟩))
  rw [read, hcs, readUpper_eq_some_iff, htrim]
  exact ⟨⟨_, hspells⟩, fun h => absurd (h.unique hspells) (by simp)⟩

end StorePlan.DataType
