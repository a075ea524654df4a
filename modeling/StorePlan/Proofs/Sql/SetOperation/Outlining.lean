import StorePlan.Proofs.Sql.SetOperation.ReadBack

/-
The outlines of trees, and that they are what is written. A query block has
the same clauses in its outline as in the tree, and what stands in them is
what the dialect writes there. Names that are made up are numbered by where
they stand in the text, so an outline fixes them up to their numbers only.
-/

namespace StorePlan.Sql

open Lexeme

variable {d : Dialect} {aliasPrefix : String} {raw : Token → Prop}

/-! ## Outlines of trees -/

/-- Lexemes that tokens may have in a text. -/
def ShownAs (aliasPrefix : String) (ts : List Token) (ls : List Lexeme) : Prop :=
  ∃ number, lexemesOf (settle aliasPrefix number ts) = ls

/-- The outline of a query block, by its written parts. -/
structure Select.OutlinedBy (aliasPrefix : String) (s : Select (List Token)) (body : List Lexeme)
    (tail : Tail) : Prop where
  body : ShownAs aliasPrefix (Dialect.headTokens s) body
  orderBy : Option.Rel (ShownAs aliasPrefix) (Dialect.listContent s.orderBy) tail.orderBy
  offset : Option.Rel (ShownAs aliasPrefix) s.offset tail.offset
  fetch : Option.Rel (ShownAs aliasPrefix) s.fetch tail.fetch

namespace Node

/-- The outline of a tree in a dialect. -/
inductive OutlinedBy (d : Dialect) (aliasPrefix : String) : Node → Outline → Prop where
  | select {block : Select Node} {s : Select (List Token)} {body : List Lexeme} {tail : Tail} :
    d.WritesParts block s → s.OutlinedBy aliasPrefix body tail →
      OutlinedBy d aliasPrefix (.select block) (.block body tail)
  | values {rows : List (List Node)} {ts : List Token} {body : List Lexeme} :
    d.write .statement (.values rows) = .ok ts → ShownAs aliasPrefix ts body →
      OutlinedBy d aliasPrefix (.values rows) (.block body {})
  | setOperation {op : SetOperator} {left right : Node} {l r : Outline} :
    OutlinedBy d aliasPrefix left l → OutlinedBy d aliasPrefix right r →
      OutlinedBy d aliasPrefix (.setOperation op left right) (.setOperation op l r)

/-- Whether a tree consists of set operations, query blocks and rows of values. -/
def isSetTree : Node → Bool
  | .setOperation _ left right => left.isSetTree && right.isSetTree
  | .select _ | .values _ => true
  | _ => false

/-- How strongly a query binds; what is no set operation is not taken apart. -/
def setPrecedence : Node → Nat
  | .setOperation op _ _ => op.precedence
  | _ => 2

/-- Whether the set operations are grouped as they are without brackets. -/
def Grouped : Node → Prop
  | .setOperation op left right =>
    (op.precedence ≤ left.setPrecedence ∧ left.Grouped) ∧
      op.precedence < right.setPrecedence ∧ right.Grouped
  | _ => True

/-- Whether all blocks that are ordered are paged, so that they stand in brackets. -/
def TailsEnclosed : Node → Prop
  | .setOperation _ left right => left.TailsEnclosed ∧ right.TailsEnclosed
  | .select block => block.isPaged = true ∨ block.orderBy = []
  | _ => True

/-- Whether nothing is lost of a query without brackets around set operations and around ordered
blocks in them. -/
def KeepsOutline (n : Node) : Prop :=
  match n with
  | .setOperation op left right =>
    (Node.setOperation op left right).Grouped ∧ (Node.setOperation op left right).TailsEnclosed
  | _ => True

end Node

/-! ## Shapes -/

theorem isSome_of_rel {α β : Type} {r : α → β → Prop} {a : Option α} {b : Option β}
    (h : Option.Rel r a b) : a.isSome = b.isSome := by
  cases h <;> rfl

theorem isPaged_eq {block : Select Node} {s : Select (List Token)} {body : List Lexeme}
    {tail : Tail} (hparts : d.WritesParts block s) (h : s.OutlinedBy aliasPrefix body tail) :
    tail.isPaged = block.isPaged := by
  rw [Tail.isPaged, Select.isPaged, ← isSome_of_rel h.offset, ← isSome_of_rel h.fetch,
    Dialect.isSome_writeOption hparts.offset, Dialect.isSome_writeOption hparts.fetch]

namespace Node.OutlinedBy

variable {n : Node} {q : Outline}

theorem isBracketed_eq (h : n.OutlinedBy d aliasPrefix q) : q.isBracketed = n.isPaged := by
  cases h with
  | select hparts hblock => exact isPaged_eq hparts hblock
  | values _ _ => rfl
  | setOperation _ _ => rfl

theorem precedence_eq (h : n.OutlinedBy d aliasPrefix q) : q.precedence = n.setPrecedence := by
  cases h <;> rfl

theorem grouped_iff (h : n.OutlinedBy d aliasPrefix q) : q.Grouped ↔ n.Grouped := by
  induction h with
  | select _ _ => exact Iff.rfl
  | values _ _ => exact Iff.rfl
  | setOperation hl hr ihl ihr =>
    simp only [Outline.Grouped, Node.Grouped, hl.precedence_eq, hr.precedence_eq, ihl, ihr]

theorem tailsEnclosed_iff (h : n.OutlinedBy d aliasPrefix q) :
    q.TailsEnclosed ↔ n.TailsEnclosed := by
  induction h with
  | @select block s body tail hparts hblock =>
    have hpaged := isPaged_eq hparts hblock
    have hkeys : tail.orderBy = none ↔ block.orderBy = [] := by
      rw [← Option.not_isSome_iff_eq_none, ← isSome_of_rel hblock.orderBy,
        ← Dialect.writeAll_eq_nil hparts.orderBy]
      unfold Dialect.listContent
      split_ifs with hempty <;> simpa using hempty
    simp only [Outline.TailsEnclosed, Node.TailsEnclosed, hpaged, ← hkeys]
    refine or_congr_right' fun hnot => ?_
    obtain ⟨orderBy, offset, fetch⟩ := tail
    rw [← hpaged, Tail.isPaged, Bool.or_eq_true, not_or, Option.not_isSome_iff_eq_none,
      Option.not_isSome_iff_eq_none] at hnot
    obtain ⟨rfl, rfl⟩ := hnot
    simp
  | values _ _ => simp [Outline.TailsEnclosed, Node.TailsEnclosed]
  | setOperation _ _ ihl ihr => exact and_congr ihl ihr

end Node.OutlinedBy

/-! ## What is written -/

theorem ShownAs.level {words : List String} {ts : List Token} {ls : List Lexeme}
    (h : ShownAs aliasPrefix ts ls) (hts : Phrase raw words ts)
    (hraw : ∀ t, raw t → Level words t.lexemes) : Level words ls := by
  obtain ⟨number, rfl⟩ := h
  exact hts.settle.level hraw

theorem level_of_rel {words : List String} {content : Option (List Token)}
    {shown : Option (List Lexeme)} (h : Option.Rel (ShownAs aliasPrefix) content shown)
    (hcontent : ∀ ts ∈ content, Phrase raw words ts)
    (hraw : ∀ t, raw t → Level words t.lexemes) : ∀ ls ∈ shown, Level words ls := by
  cases h with
  | none => simp
  | some hshown =>
    rintro ls ⟨⟩
    exact hshown.level (hcontent _ rfl) hraw

/-- A clause is shown with its content. -/
theorem exists_shown_clause (aliasPrefix keyword : String) (c : Clause) (closing : List Token)
    (hopening : (Token.word keyword).lexemes = c.opening) (hclosing : lexemesOf closing = c.closing)
    (hmadeUp : .madeUpName ∉ closing) (content : Option (List Token)) (number : Nat) :
    ∃ shown, Option.Rel (ShownAs aliasPrefix) content shown ∧
      lexemesOf (settle aliasPrefix number (Dialect.clause keyword (content.map (· ++ closing)))) =
        c.lexemes shown := by
  cases content with
  | none => exact ⟨none, .none, rfl⟩
  | some ts =>
    refine ⟨some _, .some ⟨number, rfl⟩, ?_⟩
    simp [Dialect.clause, spaced, settle_cons, settle_append, settle_of_not_mem hmadeUp, hopening,
      hclosing, Clause.lexemes]

/-- A clause in which nothing stands behind its content. -/
theorem exists_shown_openClause (aliasPrefix keyword : String) (c : Clause)
    (hopening : (Token.word keyword).lexemes = c.opening) (hclosing : c.closing = [])
    (content : Option (List Token)) (number : Nat) :
    ∃ shown, Option.Rel (ShownAs aliasPrefix) content shown ∧
      lexemesOf (settle aliasPrefix number (Dialect.clause keyword content)) = c.lexemes shown := by
  simpa using exists_shown_clause aliasPrefix keyword c [] hopening hclosing.symm (by simp) content
    number

theorem exists_shown_bounds (aliasPrefix : String) (style : Pagination)
    (offset fetch : Option (List Token)) (number : Nat) :
    ∃ o f, Option.Rel (ShownAs aliasPrefix) offset o ∧ Option.Rel (ShownAs aliasPrefix) fetch f ∧
      ∀ keys, lexemesOf (settle aliasPrefix number (Dialect.boundTokens style offset fetch)) =
        (Tail.mk keys o f).boundLexemes style := by
  cases style with
  | offsetFetch =>
    obtain ⟨o, ho, hoffset⟩ := exists_shown_clause aliasPrefix "OFFSET" (.offset .offsetFetch)
      [.blank, .word "ROWS"] rfl rfl (by simp) offset number
    obtain ⟨f, hf, hfetch⟩ := exists_shown_clause aliasPrefix "FETCH NEXT" (.fetch .offsetFetch)
      [.blank, .word "ROWS ONLY"] rfl rfl (by simp) fetch
      (number + (Dialect.clause "OFFSET" _).count .madeUpName)
    refine ⟨o, f, ho, hf, fun keys => ?_⟩
    rw [Dialect.boundTokens, settle_append, lexemesOf_append, hoffset, hfetch, Tail.boundLexemes]
  | limitOffset =>
    obtain ⟨f, hf, hfetch⟩ := exists_shown_openClause aliasPrefix "LIMIT" (.fetch .limitOffset)
      rfl rfl fetch number
    obtain ⟨o, ho, hoffset⟩ := exists_shown_openClause aliasPrefix "OFFSET" (.offset .limitOffset)
      rfl rfl offset (number + (Dialect.clause "LIMIT" fetch).count .madeUpName)
    refine ⟨o, f, ho, hf, fun keys => ?_⟩
    rw [Dialect.boundTokens, settle_append, lexemesOf_append, hoffset, hfetch, Tail.boundLexemes]

/-- A query block is shown as an outline of it. -/
theorem exists_outline_selectTokens (aliasPrefix : String) (style : Pagination)
    (s : Select (List Token)) (number : Nat) :
    ∃ body tail, s.OutlinedBy aliasPrefix body tail ∧
      lexemesOf (settle aliasPrefix number (Dialect.selectTokens style s)) =
        (Outline.block body tail).lexemes style := by
  obtain ⟨keys, hkeys, horder⟩ := exists_shown_openClause aliasPrefix "ORDER BY" .orderBy rfl rfl
    (Dialect.listContent s.orderBy) (number + (Dialect.headTokens s).count .madeUpName)
  obtain ⟨o, f, ho, hf, hbounds⟩ := exists_shown_bounds aliasPrefix style s.offset s.fetch
    (number + (Dialect.headTokens s ++
      Dialect.clause "ORDER BY" (Dialect.listContent s.orderBy)).count .madeUpName)
  refine ⟨_, ⟨keys, o, f⟩, ⟨⟨number, rfl⟩, hkeys, ho, hf⟩, ?_⟩
  rw [Dialect.selectTokens_eq, settle_append, settle_append, lexemesOf_append, lexemesOf_append,
    horder, hbounds keys, List.append_assoc]
  rfl

/-- The outline of a block can be read, as what stands in it is put together of phrases. -/
theorem regular_of_writesParts (hown : ∀ t ∈ ownRaws, raw t)
    (hlevel : ∀ t, raw t → Level endingWords t.lexemes) {s : Select (List Token)}
    {body : List Lexeme} {tail : Tail} (h : s.OutlinedBy aliasPrefix body tail) :
    ∀ {block : Select Node}, d.WritesParts block s → (∀ t ∈ Node.selectRaws block, raw t) →
      (Outline.block body tail).Regular
  | ⟨distinct, items, source, condition, groupBy, having, orderBy, offset, fetch⟩, hs, hraw => by
    simp only [Node.selectRaws, List.forall_mem_append] at hraw
    obtain ⟨⟨⟨⟨⟨⟨⟨hrItems, hrSource⟩, hrCondition⟩, hrGroup⟩, hrHaving⟩, hrOrder⟩, hrOffset⟩,
      hrFetch⟩ := hraw
    have free {us : List Token} (h : Phrase raw Place.free.avoided us) : Phrase raw endingWords us :=
      h.mono (by decide)
    have hhead : Phrase raw endingWords (Dialect.headTokens s) := Dialect.phrase_headTokens
      (List.Subset.refl _)
      (fun us hus => free (Dialect.phrase_writeAll hown items hs.items hrItems us hus))
      (fun us hus => (Dialect.phrase_writeOption hown source hs.source hrSource us hus).mono
        (by decide))
      (fun us hus => free (Dialect.phrase_writeOption hown condition hs.condition hrCondition us hus))
      (fun us hus => free (Dialect.phrase_writeAll hown groupBy hs.groupBy hrGroup us hus))
      (fun us hus => free (Dialect.phrase_writeOption hown having hs.having hrHaving us hus))
    have hkeys := Dialect.phrase_listContent fun us hus =>
      free (Dialect.phrase_writeAll hown orderBy hs.orderBy hrOrder us hus)
    have hoffset := fun us hus =>
      free (Dialect.phrase_writeOption hown offset hs.offset hrOffset us hus)
    have hfetch := fun us hus =>
      free (Dialect.phrase_writeOption hown fetch hs.fetch hrFetch us hus)
    refine ⟨?_, h.body.level hhead hlevel, level_of_rel h.orderBy hkeys hlevel,
      level_of_rel h.offset hoffset hlevel, level_of_rel h.fetch hfetch hlevel⟩
    obtain ⟨number, hbody⟩ := h.body
    exact ⟨"SELECT", _, hbody.symm, by decide⟩

theorem regular_of_values {rows : List (List Node)} {ts : List Token} {body : List Lexeme}
    (hown : ∀ t ∈ ownRaws, raw t) (hlevel : ∀ t, raw t → Level endingWords t.lexemes)
    (hts : d.write .statement (.values rows) = .ok ts) (hraw : ∀ t ∈ Node.rowRaws rows, raw t)
    (h : ShownAs aliasPrefix ts body) : (Outline.block body {}).Regular := by
  obtain ⟨-, rows', hrows, rfl⟩ := Dialect.write_values_eq_ok.1 hts
  have hphrases := Dialect.phrase_writeRows hown rows hrows hraw
  have hphrase := Phrase.leading (fits_headKeyword (w := "VALUES") (by decide))
    (.commaSeparated fun us hus => hphrases us hus endingWords)
  refine ⟨?_, h.level hphrase hlevel, by rintro ls ⟨⟩, by rintro ls ⟨⟩, by rintro ls ⟨⟩⟩
  obtain ⟨number, hbody⟩ := h
  exact ⟨"VALUES", _, hbody.symm, by decide⟩

namespace Node

/-- Beside a set operator a query is written as by itself, in brackets if it is paged. -/
theorem write_setOperand {n : Node} {ts : List Token} (hn : n.isSetTree = true)
    (h : d.write .setOperand n = .ok ts) :
    ∃ us, d.write .statement n = .ok us ∧ ts = if n.isPaged then bracketed us else us := by
  have hquery : n.isQuery = true := by
    cases n with
    | select _ | setOperation _ _ _ | values _ => rfl
    | _ => cases hn
  rw [Dialect.write_of_isQuery hquery] at h
  simp only [bind_eq_ok, pure_eq_ok] at h
  obtain ⟨us, hus, rfl⟩ := h
  exact ⟨us, hus, rfl⟩

theorem operandLexemes_eq {n : Node} {q : Outline} {us : List Token} {number : Nat}
    {style : Pagination} (h : n.OutlinedBy d aliasPrefix q)
    (hus : lexemesOf (settle aliasPrefix number us) = q.lexemes style) :
    lexemesOf (settle aliasPrefix number (if n.isPaged then bracketed us else us)) =
      q.operandLexemes style := by
  rw [Outline.operandLexemes, Outline.beside, h.isBracketed_eq, ← hus]
  split_ifs
  · simp [bracketed, inBrackets, settle_cons, settle_append, settle]
  · rfl

/-- What is written of set operations is an outline of them. -/
theorem exists_outline (hown : ∀ t ∈ ownRaws, raw t)
    (hlevel : ∀ t, raw t → Level endingWords t.lexemes) :
    ∀ (n : Node) {ts : List Token} (number : Nat), n.isSetTree = true → (∀ t ∈ n.raws, raw t) →
      d.write .statement n = .ok ts → ∃ q, n.OutlinedBy d aliasPrefix q ∧ q.Regular ∧
        lexemesOf (settle aliasPrefix number ts) = q.lexemes d.features.pagination
  | .select block, ts, number, _, hraw, h => by
    obtain ⟨query, hquery, rfl⟩ := Dialect.write_select_eq_ok.1 h
    obtain ⟨s, hs, rfl⟩ := Dialect.writesParts_of_writeSelect hquery
    obtain ⟨body, tail, hblock, hlexemes⟩ :=
      exists_outline_selectTokens aliasPrefix d.features.pagination s number
    rw [raws] at hraw
    exact ⟨_, .select hs hblock, regular_of_writesParts hown hlevel hblock hs hraw, hlexemes⟩
  | .values rows, ts, number, _, hraw, h => by
    have hshown : ShownAs aliasPrefix ts _ := ⟨number, rfl⟩
    rw [raws] at hraw
    refine ⟨_, .values h hshown, regular_of_values hown hlevel h hraw hshown, ?_⟩
    rw [Outline.lexemes, Tail.lexemes_empty, List.append_nil]
  | .setOperation op left right, ts, number, hn, hraw, h => by
    rw [isSetTree, Bool.and_eq_true] at hn
    rw [raws, List.forall_mem_append] at hraw
    obtain ⟨left', hleft, right', hright, rfl⟩ := Dialect.write_setOperation_eq_ok.1 h
    obtain ⟨us, hus, rfl⟩ := write_setOperand hn.1 hleft
    obtain ⟨vs, hvs, rfl⟩ := write_setOperand hn.2 hright
    -- Made-up names are numbered through both operands.
    obtain ⟨l, hl, hlregular, hllexemes⟩ := exists_outline hown hlevel left number hn.1 hraw.1 hus
    obtain ⟨r, hr, hrregular, hrlexemes⟩ := exists_outline hown hlevel right
      (number + ((if left.isPaged then bracketed us else us) ++ spaced op.name).count .madeUpName)
      hn.2 hraw.2 hvs
    refine ⟨_, .setOperation hl hr, ⟨hlregular, hrregular⟩, ?_⟩
    rw [Dialect.placeQuery, settle_append, settle_append, lexemesOf_append, lexemesOf_append,
      operandLexemes_eq hl hllexemes, operandLexemes_eq hr hrlexemes, lexemesOf_settle_spaced]
    rfl
  | .name _, _, _, hn, _, _ | .star, _, _, hn, _, _ | .literal _, _, _, hn, _, _
  | .call .., _, _, hn, _, _ | .cast .., _, _, hn, _, _ | .caseOf .., _, _, hn, _, _
  | .parameter .., _, _, hn, _, _ | .array _, _, _, hn, _, _ | .window .., _, _, hn, _, _
  | .aliased .., _, _, hn, _, _ | .sortKey .., _, _, hn, _, _ | .join .., _, _, hn, _, _ => by
    cases hn

end Node

end StorePlan.Sql
