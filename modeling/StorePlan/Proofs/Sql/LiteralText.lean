import StorePlan.Proofs.Sql.NumberText
import StorePlan.Proofs.Sql.Rendering
import StorePlan.Proofs.Sql.Written
import StorePlan.Proofs.Value.Finite

/-
The text of a value as SQL: literals, and lists of them in brackets. That it
consists of these is not a matter of how it is written but of what is written
for numbers: an infinite number and what stands for none have a word for a
text, which is read as a name.

What is written for a value has the words of its parts and no others
(`WritesValue.words`), so such a word is in the text whenever such a number is
in the value, however deep.
-/

namespace StorePlan.Sql

open Lexeme Text

/-! ## Literal texts -/

def constantWords : List String := ["NULL", "TRUE", "FALSE"]

def momentWords : List String := ["DATE", "TIME", "TIMESTAMP"]

/-- The words that stand in literals. -/
def literalWords : List String := "ARRAY" :: constantWords ++ momentWords

theorem isWord_of_mem_literalWords {w : String} (h : w ∈ literalWords) : IsWord w.toList := by
  have hwords : ∀ w ∈ literalWords, IsWord w.toList := by decide
  exact hwords w h

theorem constantWords_subset : constantWords ⊆ literalWords := by decide

theorem momentWords_subset : momentWords ⊆ literalWords := by decide

/-- Constants, numbers, strings, moments and lists of such texts. -/
inductive IsLiteral : String → Prop where
  | constant {w : String} : w ∈ constantWords → IsLiteral w
  | number {t : String} : isSigned t.toList = true → IsLiteral t
  | string (s : String) : IsLiteral (enclosed stringQuote s)
  | moment {w : String} (s : String) : w ∈ momentWords →
    IsLiteral (w ++ " " ++ enclosed stringQuote s)
  | list {items : List String} : (∀ t ∈ items, IsLiteral t) →
    IsLiteral ("ARRAY[" ++ ", ".intercalate items ++ "]")

/-! ## Words of a text -/

/-- The text scans by itself, and its words are among these. -/
structure WordsAmong (words : List String) (cs : List Char) : Prop where
  complete : Complete cs
  mem : ∀ w, .word w ∈ ofChars cs → w ∈ words

section WordsAmong

variable {words : List String} {as bs cs : List Char}

theorem WordsAmong.of_lexemes {ls : List Lexeme} (h : Complete cs ∧ ofChars cs = ls)
    (hls : ∀ w, .word w ∈ ls → w ∈ words) : WordsAmong words cs :=
  ⟨h.1, fun w hw => hls w (h.2 ▸ hw)⟩

theorem WordsAmong.append (ha : WordsAmong words as) (hb : WordsAmong words bs)
    (h : StartsApart bs) : WordsAmong words (as ++ bs) := by
  refine .of_lexemes (ha.complete.append hb.complete h) fun w hw => ?_
  exact (List.mem_append.1 hw).elim (ha.mem w) (hb.mem w)

theorem WordsAmong.append_of_ended (ha : WordsAmong words as) (hb : WordsAmong words bs)
    (h : Ended as) : WordsAmong words (as ++ bs) := by
  refine .of_lexemes (h.append hb.complete) fun w hw => ?_
  exact (List.mem_append.1 hw).elim (ha.mem w) (hb.mem w)

/-- A number has no words. -/
theorem wordsAmong_isMantissa (h : isMantissa cs = true) :
    WordsAmong words cs ∧ ∀ c ∈ cs.head?, c ≠ '-' := by
  have unpointed {c : Char} {ds : List Char} (hc : isDigit c = true)
      (hds : ∀ d ∈ ds, isDigit d = true ∨ d = '.') : WordsAmong words (c :: ds) :=
    .of_lexemes (ofChars_number hc fun d hd => (isDigit_or_point (hds d hd)).1) (by simp)
  have hpoint : Complete ['.'] ∧ ofChars ['.'] = [.sign "."] := ⟨rfl, rfl⟩
  rcases isMantissa_cases h with ⟨c, ds, rfl, hc, hds⟩ | ⟨c, ds, rfl, hc, hds⟩
  · refine ⟨unpointed hc hds, ?_⟩
    rintro d hd rfl
    cases hd
    cases hc
  · refine ⟨(WordsAmong.of_lexemes hpoint (by simp)).append_of_ended (unpointed hc hds) rfl, ?_⟩
    rintro d hd rfl
    cases hd

theorem wordsAmong_isSigned (h : isSigned cs = true) : WordsAmong words cs := by
  have hplus : Complete ['+'] ∧ ofChars ['+'] = [.sign "+"] := ⟨rfl, rfl⟩
  unfold isSigned at h
  split at h
  · exact (WordsAmong.of_lexemes hplus (by simp)).append_of_ended (wordsAmong_isMantissa h).1 rfl
  · obtain ⟨hmantissa, hhead⟩ := wordsAmong_isMantissa h
    exact .of_lexemes (ofChars_minus hmantissa.complete hhead) fun w hw =>
      hmantissa.mem w (by simpa using hw)
  · exact (wordsAmong_isMantissa h).1

theorem wordsAmong_enclosed (s : String) : WordsAmong words (enclosed stringQuote s).toList :=
  .of_lexemes (ofChars_enclosed (.inr rfl) s) (by simp)

theorem wordsAmong_word {w : String} (h : w ∈ literalWords) : WordsAmong literalWords w.toList :=
  .of_lexemes (ofChars_word (isWord_of_mem_literalWords h)) (by simp [h])

theorem wordsAmong_separated : ∀ {items : List (List Char)},
    (∀ cs ∈ items, WordsAmong words cs) → WordsAmong words (", ".toList.intercalate items)
  | [], _ => ⟨rfl, fun _ h => by cases h⟩
  | [cs], h => by simpa using h cs
  | cs :: next :: rest, h => by
    have hcomma : Complete ", ".toList ∧ ofChars ", ".toList = [.sign ","] := ⟨rfl, rfl⟩
    rw [List.forall_mem_cons] at h
    have hrest := (WordsAmong.of_lexemes hcomma (by simp)).append_of_ended
      (wordsAmong_separated h.2) rfl
    rw [List.intercalate_cons_cons, List.append_assoc]
    exact h.1.append hrest fun c hc => by cases hc; rfl

/-- A literal text has no other words than those. -/
theorem IsLiteral.wordsAmong {s : String} (h : IsLiteral s) : WordsAmong literalWords s.toList := by
  induction h with
  | constant hw => exact wordsAmong_word (constantWords_subset hw)
  | number ht => exact wordsAmong_isSigned ht
  | string s => exact wordsAmong_enclosed s
  | @moment w s hw =>
    have hblank : Complete " ".toList ∧ ofChars " ".toList = [] := ⟨rfl, rfl⟩
    have hword := wordsAmong_word (momentWords_subset hw)
    have hquoted : WordsAmong literalWords (" ".toList ++ (enclosed stringQuote s).toList) :=
      (WordsAmong.of_lexemes hblank (by simp)).append_of_ended (wordsAmong_enclosed s) rfl
    rw [String.toList_append, String.toList_append, List.append_assoc]
    exact hword.append hquoted fun c hc => by cases hc; rfl
  | @list items _ ih =>
    have hopening : Complete "ARRAY[".toList ∧
        ofChars "ARRAY[".toList = [.word "ARRAY", .sign "["] := ⟨rfl, rfl⟩
    have hclosing : Complete "]".toList ∧ ofChars "]".toList = [.sign "]"] := ⟨rfl, rfl⟩
    have hitems := wordsAmong_separated (List.forall_mem_map.2 ih)
    rw [String.toList_append, String.toList_append, String.toList_intercalate]
    have hfront := (WordsAmong.of_lexemes hopening (by simp [literalWords])).append_of_ended
      hitems rfl
    exact hfront.append (.of_lexemes hclosing (by simp)) fun c hc => by cases hc; rfl

end WordsAmong

/-! ## Lists of tokens -/

theorem Scans.commaSeparated : ∀ {tss : List (List Token)}, (∀ ts ∈ tss, Scans ts) →
    Scans (commaSeparated tss)
  | [], _ => .nil
  | [ts], h => h ts (by simp)
  | ts :: us :: rest, h => by
    rw [List.forall_mem_cons] at h
    have hblank := Scans.nil.divided (commaSeparated h.2) (t := .blank) (by simp [dividers])
    simpa [Sql.commaSeparated] using h.1.divided hblank (t := .word ",") (by simp [dividers])

theorem mem_commaSeparated {t : Token} : ∀ {tss : List (List Token)},
    t ∈ commaSeparated tss → t ∈ [.word ",", .blank] ∨ ∃ ts ∈ tss, t ∈ ts
  | [], h => by cases h
  | [ts], h => .inr ⟨ts, by simp, h⟩
  | ts :: us :: rest, h => by
    rw [commaSeparated, List.mem_append, List.mem_append] at h
    rcases h with (h | h) | h
    · exact .inr ⟨ts, by simp, h⟩
    · exact .inl h
    · exact (mem_commaSeparated h).imp_right fun ⟨vs, hvs, ht⟩ =>
        ⟨vs, List.mem_cons_of_mem ts hvs, ht⟩
    · simp

theorem word_mem_commaSeparated_iff {w : String} : ∀ {tss : List (List Token)},
    .word w ∈ lexemesOf (commaSeparated tss) ↔ ∃ ts ∈ tss, .word w ∈ lexemesOf ts
  | [] => by simp [commaSeparated]
  | [ts] => by simp [commaSeparated]
  | ts :: us :: rest => by
    have ih : .word w ∈ lexemesOf (commaSeparated (us :: rest)) ↔ _ := word_mem_commaSeparated_iff
    rw [commaSeparated, lexemesOf_append, lexemesOf_append, List.mem_append, List.mem_append, ih]
    · simp
    · simp

theorem spelling_commaSeparated : ∀ tss : List (List Token),
    spelling (commaSeparated tss) = ", ".toList.intercalate (tss.map spelling)
  | [] => rfl
  | [ts] => by simp [commaSeparated]
  | ts :: us :: rest => by
    rw [commaSeparated, spelling_append, spelling_append, spelling_commaSeparated (us :: rest)]
    · simp only [List.map_cons, List.intercalate_cons_cons]
      rfl
    · simp

/-! ## Values -/

/-- The words in the text of a binary number. -/
def floatWords {f : Number.BinaryFormat} : Number.BinaryFloat f → List String
  | .nan => ["NaN"]
  | .infinite _ => ["inf"]
  | .finite .. => []

/-- The words that are written for a value apart from the items of a list. -/
def ownWords : Value → List String
  | .null => ["NULL"]
  | .boolean b => [if b then "TRUE" else "FALSE"]
  | .real x => floatWords x
  | .double x => floatWords x
  | .date _ => ["DATE"]
  | .time _ => ["TIME"]
  | .timestamp _ => ["TIMESTAMP"]
  | .array _ => ["ARRAY"]
  | _ => []

theorem floatWords_subset_iff {f : Number.BinaryFormat} (x : Number.BinaryFloat f) :
    floatWords x ⊆ literalWords ↔ (!x.isFinite) = false := by
  have hforeign : "NaN" ∉ literalWords ∧ "inf" ∉ literalWords := by decide
  cases x with
  | nan => exact iff_of_false (fun h => hforeign.1 (h List.mem_cons_self)) nofun
  | infinite negative => exact iff_of_false (fun h => hforeign.2 (h List.mem_cons_self)) nofun
  | finite negative m => exact iff_of_true (List.nil_subset _) rfl

/-- Only numbers that are not finite bring about other words than those of literals. -/
theorem ownWords_subset_iff (v : Value) : ownWords v ⊆ literalWords ↔ v.isNonFinite = false := by
  cases v with
  | real x => exact floatWords_subset_iff x
  | double x => exact floatWords_subset_iff x
  | boolean b => exact iff_of_true (by cases b <;> decide) rfl
  | null | date | time | timestamp | array =>
    exact iff_of_true (by simp [ownWords, literalWords, constantWords, momentWords]) rfl
  | _ => exact iff_of_true (List.nil_subset _) rfl

theorem scans_word {w : String} (h : w ∈ literalWords) :
    Scans [.word w] ∧ (Token.word w).lexemes = [.word w] := by
  obtain ⟨hcomplete, hlexemes⟩ := ofChars_word (isWord_of_mem_literalWords h)
  rw [String.ofList_toList] at hlexemes
  exact ⟨.leaf hcomplete, hlexemes⟩

/-- What is written for a value: its words are those of its parts, and its text is a literal if its
numbers are finite. -/
structure WritesValue (v : Value) (ts : List Token) : Prop where
  scans : Scans ts
  named : .madeUpName ∉ ts
  words : ∀ w, .word w ∈ lexemesOf ts ↔ v.Somewhere (w ∈ ownWords ·)
  literal : v.AllFinite → IsLiteral (String.ofList (spelling ts))

namespace WritesValue

variable {v : Value} {ts : List Token}

theorem of_not_isArray (h : ¬v.IsArray) (hscans : Scans ts) (hnamed : .madeUpName ∉ ts)
    (hwords : ∀ w, .word w ∈ lexemesOf ts ↔ w ∈ ownWords v)
    (hliteral : v.isNonFinite = false → IsLiteral (String.ofList (spelling ts))) :
    WritesValue v ts where
  scans := hscans
  named := hnamed
  words w := by rw [hwords, Value.somewhere_iff_of_not_isArray h]
  literal hfinite := hliteral ((Value.allFinite_iff_of_not_isArray h).1 hfinite)

theorem constant {w : String} (h : ¬v.IsArray) (hw : w ∈ constantWords) (hv : ownWords v = [w]) :
    WritesValue v [.word w] := by
  obtain ⟨hscans, hlexemes⟩ := scans_word (constantWords_subset hw)
  refine .of_not_isArray h hscans (by simp) (by simp [hlexemes, hv]) fun _ => ?_
  have hchars : (Token.word w).chars = w.toList := rfl
  simpa [hchars] using IsLiteral.constant hw

theorem number {t : String} (h : ¬v.IsArray) (ht : isSigned t.toList = true)
    (hv : ownWords v = []) : WritesValue v [.number t] := by
  have hscans : WordsAmong [] t.toList := wordsAmong_isSigned ht
  refine .of_not_isArray h (.leaf hscans.complete) (by simp) (fun w => ?_) fun _ => ?_
  · have hnone : .word w ∉ (Token.number t).lexemes := fun hw => by cases hscans.mem w hw
    simpa [hv] using hnone
  · have hchars : (Token.number t).chars = t.toList := rfl
    simpa [hchars] using IsLiteral.number ht

theorem float {f : Number.BinaryFormat} (x : Number.BinaryFloat f) (h : ¬v.IsArray)
    (hv : ownWords v = floatWords x) (hfinite : v.isNonFinite = !x.isFinite) :
    WritesValue v [.number (x.text .plain)] := by
  -- The text of such a number is a word, which is no literal.
  have foreign {t w : String} (hcomplete : Complete t.toList)
      (hlexemes : ∀ w', .word w' ∈ (Token.number t).lexemes ↔ w' = w) (hw : ownWords v = [w])
      (hnonFinite : v.isNonFinite = true) : WritesValue v [.number t] :=
    .of_not_isArray h (.leaf hcomplete) (by simp) (by simp [hlexemes, hw]) (by simp [hnonFinite])
  have hnan : (Token.number "NaN").lexemes = [.word "NaN"] := rfl
  have hinf : (Token.number "inf").lexemes = [.word "inf"] := rfl
  have hminus : (Token.number "-inf").lexemes = [.sign "-", .word "inf"] := rfl
  cases x with
  | nan => exact foreign (t := "NaN") (by decide) (by simp [hnan]) hv hfinite
  | infinite negative =>
    cases negative with
    | false => exact foreign (t := "inf") (by decide) (by simp [hinf]) hv hfinite
    | true => exact foreign (t := "-inf") (by decide) (by simp [hminus]) hv hfinite
  | finite negative m => exact number h (isSigned_plainText rfl) hv

theorem string {s : String} (h : ¬v.IsArray) (hv : ownWords v = []) :
    WritesValue v [.string s] := by
  have hscans := ofChars_enclosed (.inr rfl) s
  refine .of_not_isArray h (.leaf hscans.1) (by simp) (by simp [hv]) fun _ => ?_
  have hchars : (Token.string s).chars = (enclosed stringQuote s).toList := rfl
  simpa [hchars] using IsLiteral.string s

theorem moment {w : String} (s : String) (h : ¬v.IsArray) (hw : w ∈ momentWords)
    (hv : ownWords v = [w]) : WritesValue v [.word w, .blank, .string s] := by
  obtain ⟨hscans, hlexemes⟩ := scans_word (momentWords_subset hw)
  have hquoted : Scans [.string s] := .leaf (ofChars_enclosed (.inr rfl) s).1
  refine .of_not_isArray h (hscans.divided hquoted (by simp [Scans.dividers])) (by simp)
    (by simp [hlexemes, hv]) fun _ => ?_
  have htext : spelling [.word w, .blank, .string s] =
      (w ++ " " ++ enclosed stringQuote s).toList := by
    simp [Token.chars, Token.text, String.toList_append]
  rw [htext, String.ofList_toList]
  exact .moment s hw

theorem list {items : List Value} {tss : List (List Token)}
    (h : List.Forall₂ WritesValue items tss) :
    WritesValue (.array items)
      ([.word "ARRAY", .word "["] ++ commaSeparated tss ++ [.word "]"]) where
  scans := by
    have hitems : Scans (commaSeparated tss) := .commaSeparated fun ts hts =>
      let ⟨_, _, hv⟩ := exists_of_mem_of_forall₂ h hts
      hv.scans
    have hword : Scans [.word "ARRAY"] := .leaf rfl
    have hclosed := hitems.divided .nil (t := .word "]") (by simp [Scans.dividers])
    simpa using hword.divided hclosed (t := .word "[") (by simp [Scans.dividers])
  named := by
    intro hmem
    simp only [List.mem_append, List.mem_cons, List.not_mem_nil, or_false, reduceCtorEq,
      false_or, or_self] at hmem
    rcases mem_commaSeparated hmem with hmem | ⟨ts, hts, hmem⟩
    · simp at hmem
    · obtain ⟨v, -, hv⟩ := exists_of_mem_of_forall₂ h hts
      exact hv.named hmem
  words w := by
    have hword : (Token.word "ARRAY").lexemes = [.word "ARRAY"] := rfl
    have hitems : (∃ ts ∈ tss, .word w ∈ lexemesOf ts) ↔
        ∃ v ∈ items, v.Somewhere (w ∈ ownWords ·) := by
      constructor
      · rintro ⟨ts, hts, hw⟩
        obtain ⟨v, hmem, hv⟩ := exists_of_mem_of_forall₂ h hts
        exact ⟨v, hmem, (hv.words w).1 hw⟩
      · rintro ⟨v, hmem, hw⟩
        obtain ⟨ts, hts, hv⟩ := exists_of_mem_of_forall₂ h.flip hmem
        exact ⟨ts, hts, (hv.words w).2 hw⟩
    rw [Value.somewhere_array_iff, ← hitems, ← word_mem_commaSeparated_iff]
    simp [hword, ownWords]
  literal hfinite := by
    have hitems : (String.toList ∘ fun ts => String.ofList (spelling ts)) = spelling :=
      funext fun _ => String.toList_ofList
    have htext : String.ofList
        (spelling ([.word "ARRAY", .word "["] ++ commaSeparated tss ++ [.word "]"])) =
        "ARRAY[" ++ ", ".intercalate (tss.map fun ts => String.ofList (spelling ts)) ++ "]" := by
      apply String.toList_injective
      simp only [String.toList_ofList, String.toList_append, String.toList_intercalate,
        spelling_append, spelling_commaSeparated, List.map_map, hitems]
      rfl
    rw [htext]
    refine .list (List.forall_mem_map.2 fun ts hts => ?_)
    obtain ⟨v, hmem, hv⟩ := exists_of_mem_of_forall₂ h hts
    exact hv.literal (Value.allFinite_array_iff.1 hfinite v hmem)

end WritesValue

namespace Dialect

variable {d : Dialect}

theorem writesValue_all {place : Place} : ∀ {items : List Value} {tss : List (List Token)},
    (∀ v ∈ items, ∀ place ts, d.write place (.ofValue v) = .ok ts → WritesValue v ts) →
      d.writeAll place (Node.ofValues items) = .ok tss → List.Forall₂ WritesValue items tss
  | [], tss, _, h => by
    cases h
    exact .nil
  | v :: rest, tss, hitems, h => by
    rw [List.forall_mem_cons] at hitems
    obtain ⟨ts, hts, h⟩ := bind_eq_ok.1 h
    obtain ⟨tss, htss, h⟩ := bind_eq_ok.1 h
    cases h
    exact .cons (hitems.1 place ts hts) (writesValue_all hitems.2 htss)

theorem writesValue (v : Value) :
    ∀ place ts, d.write place (.ofValue v) = .ok ts → WritesValue v ts := by
  induction v using Value.induction_items with
  | scalar v hv =>
    intro place ts h
    cases v with
    | null =>
      cases h
      exact .constant hv (by decide) rfl
    | boolean b =>
      cases h
      exact .constant hv (by cases b <;> decide) rfl
    | tinyInt i | smallInt i | integer i | bigInt i =>
      cases h
      exact .number hv (isSigned_intText _) rfl
    | decimal x =>
      cases h
      exact .number hv (isSigned_decimalText x) rfl
    | real x | double x =>
      cases h
      exact .float x hv rfl rfl
    | string s =>
      cases h
      exact .string hv rfl
    | date x | time x | timestamp x =>
      cases h
      exact .moment _ hv (by decide) rfl
    | array items => exact absurd ⟨items, rfl⟩ hv
  | list items ih =>
    intro place ts h
    have hwrite : d.write place (.array (Node.ofValues items)) = .ok ts := h
    obtain ⟨-, tss, htss, rfl⟩ := write_array_eq_ok.1 hwrite
    exact .list (writesValue_all ih htss)

/-- The text of a value consists of literals exactly if all numbers in it are finite. Otherwise it
has a word that is no literal, and is read as a name. -/
theorem isLiteral_text_iff {aliasPrefix : String} {v : Value} {s : String}
    (h : d.text aliasPrefix (.ofValue v) = .ok s) :
    (IsLiteral s ↔ v.AllFinite) ∧
      ∃ ls, Lexeme.ofText? s = some ls ∧
        ((∀ w, .word w ∈ ls → w ∈ literalWords) ↔ v.AllFinite) := by
  obtain ⟨ts, hts, hrender⟩ := bind_eq_ok.1 h
  have hv := writesValue v _ ts hts
  have hchars : s.toList = spelling ts := by
    rw [← pure_eq_ok.1 hrender, render, toList_join_tokenTexts, settle_of_not_mem hv.named]
  have hlexemes : Lexeme.ofText? s = some (lexemesOf ts) := by
    rw [ofText?_eq (hchars ▸ hv.scans.complete), hchars, hv.scans.lexemes]
  have hwords : (∀ w, .word w ∈ lexemesOf ts → w ∈ literalWords) ↔ v.AllFinite := by
    constructor
    · rintro hmem ⟨path, u, hu, hnonFinite⟩
      have hsub : ownWords u ⊆ literalWords :=
        fun w hw => hmem w ((hv.words w).2 ⟨path, u, hu, hw⟩)
      rw [(ownWords_subset_iff u).1 hsub] at hnonFinite
      cases hnonFinite
    · intro hfinite w hw
      obtain ⟨path, u, hu, hw⟩ := (hv.words w).1 hw
      have hnonFinite : u.isNonFinite = false := by
        rw [← Bool.not_eq_true]
        exact fun hnonFinite => hfinite ⟨path, u, hu, hnonFinite⟩
      exact (ownWords_subset_iff u).2 hnonFinite hw
  refine ⟨⟨fun hliteral => hwords.1 fun w hw => ?_, fun hfinite => ?_⟩, _, hlexemes, hwords⟩
  · have hamong := hliteral.wordsAmong.mem w
    rw [hchars, hv.scans.lexemes] at hamong
    exact hamong hw
  · rw [← String.ofList_toList (s := s), hchars]
    exact hv.literal hfinite

/-- A list of lists, with a sign, a constant and a moment in them. -/
theorem isLiteral_text_nested :
    let v : Value := .array [.array [.decimal ⟨-150, 2, by decide⟩, .null],
      .array [.date ⟨2024, 2, 29, by decide⟩]]
    let s : String := "ARRAY[ARRAY[-1.50, NULL], ARRAY[DATE '2024-02-29']]"
    postgresql.text "t" (.ofValue v) = .ok s ∧ v.AllFinite ∧
      (IsLiteral s ↔ v.AllFinite) ∧
      ∃ ls, Lexeme.ofText? s = some ls ∧
        ((∀ w, .word w ∈ ls → w ∈ literalWords) ↔ v.AllFinite) := by
  intro v s
  have htext : postgresql.text "t" (.ofValue v) = .ok s := by decide +kernel
  have hfinite : v.AllFinite := by
    simp [v, Value.allFinite_array_iff, Value.allFinite_iff_of_not_isArray, Value.IsArray,
      Value.isNonFinite]
  exact ⟨htext, hfinite, isLiteral_text_iff htext⟩

/-- What stands for no number is written as a word that is no literal. -/
theorem not_isLiteral_text_nan :
    postgresql.text "t" (.ofValue (.double .nan)) = .ok "NaN" ∧ ¬IsLiteral "NaN" ∧
      Lexeme.ofText? "NaN" = some [.word "NaN"] ∧ "NaN" ∉ literalWords := by
  have hforeign : "NaN" ∉ literalWords := by decide
  have hlexemes : ofChars "NaN".toList = [.word "NaN"] := rfl
  refine ⟨rfl, fun h => hforeign (h.wordsAmong.mem "NaN" ?_), rfl, hforeign⟩
  rw [hlexemes]
  exact List.mem_cons_self

end Dialect

end StorePlan.Sql
