import StorePlan.Proofs.Sql.FromClause.Reading
import StorePlan.Proofs.Sql.Parts
import StorePlan.Proofs.Sql.SetOperation.Outlining

/-
The `FROM` clause of a query block reads back as the same joins exactly if
every `CROSS JOIN` has a single item on its right: no join is put in brackets.
-/

namespace StorePlan.Sql

open Lexeme

variable {d : Dialect} {aliasPrefix : String} {raw : Token → Prop}

/-! ## Joins of trees -/

namespace Node

/-- Lexemes that a tree may have in a text, if it is written in a place. -/
def ShownIn (d : Dialect) (aliasPrefix : String) (place : Place) (n : Node) (ls : List Lexeme) :
    Prop :=
  ∃ ts, d.write place n = .ok ts ∧ ShownAs aliasPrefix ts ls

/-- The joins of a tree in a dialect. -/
inductive JoinedAs (d : Dialect) (aliasPrefix : String) : Node → Joined → Prop where
  | item {n : Node} {ls : List Lexeme} :
    n.isJoin = false → n.ShownIn d aliasPrefix .source ls → JoinedAs d aliasPrefix n (.item ls)
  | join {kind : JoinKind} {left right : Node} {condition : Option Node} {l r : Joined}
    {c : Option (List Lexeme)} :
    JoinedAs d aliasPrefix left l → JoinedAs d aliasPrefix right r →
      Option.Rel (ShownIn d aliasPrefix .free) condition c →
        JoinedAs d aliasPrefix (.join left right kind condition) (.join kind l r c)

/-- Whether every `CROSS JOIN` has a single item on its right and no condition, and every other join
has a condition. -/
def JoinsGrammatical : Node → Prop
  | .join left right kind condition =>
    left.JoinsGrammatical ∧ right.JoinsGrammatical ∧
      if kind = .cross then right.isJoin = false ∧ condition = none else condition.isSome = true
  | _ => True

theorem joinsGrammatical_of_not_isJoin {n : Node} (h : n.isJoin = false) : n.JoinsGrammatical := by
  cases n with
  | join left right kind condition => cases h
  | _ => trivial

namespace JoinedAs

variable {n : Node} {t : Joined}

theorem isItem_eq (h : n.JoinedAs d aliasPrefix t) : t.isItem = !n.isJoin := by
  cases h with
  | item hn _ => rw [hn]; rfl
  | join _ _ _ => rfl

theorem grammatical_iff (h : n.JoinedAs d aliasPrefix t) :
    t.Grammatical ↔ n.JoinsGrammatical := by
  induction h with
  | item hn _ => exact iff_of_true trivial (joinsGrammatical_of_not_isJoin hn)
  | @join kind left right condition l r c hl hr hc ihl ihr =>
    have hright : r.isItem = true ↔ right.isJoin = false := by simp [hr.isItem_eq]
    have hcondition : c.isSome = condition.isSome := (isSome_of_rel hc).symm
    have hnone : c = none ↔ condition = none := by
      rw [← Option.not_isSome_iff_eq_none, hcondition, Option.not_isSome_iff_eq_none]
    simp only [Joined.Grammatical, JoinsGrammatical, ihl, ihr, hright, hnone, hcondition]

end JoinedAs

end Node

/-! ## What is written -/

namespace Dialect

variable {ts : List Token}

/-- An item is written as an expression is, and a query may be given a name. -/
theorem write_item {n : Node} (hn : n.isJoin = false) (h : d.write .source n = .ok ts) :
    ∃ us, d.write .free n = .ok us ∧ (ts = us ∨ ts = us ++ aliasTokens .madeUpName) := by
  cases hquery : n.isQuery with
  | true =>
    rw [write_of_isQuery hquery] at h
    simp only [bind_eq_ok, pure_eq_ok] at h
    obtain ⟨us, hus, rfl⟩ := h
    have hfree : d.write .free n = .ok (bracketed us) := by
      rw [write_of_isQuery hquery, hus]
      rfl
    refine ⟨_, hfree, ?_⟩
    simp only [placeQuery]
    split_ifs <;> simp
  | false =>
    cases n with
    | join left right kind condition => cases hn
    | select _ | setOperation _ _ _ | values _ => cases hquery
    | _ => exact ⟨ts, h, .inl rfl⟩

theorem markWords_subset : markWords ⊆ queryWords := by decide

/-- No mark stands in an item outside of brackets. -/
theorem phrase_item (hown : ∀ t ∈ ownRaws, raw t) {n : Node} (hn : n.isJoin = false)
    (h : d.write .source n = .ok ts) (hraw : ∀ t ∈ n.raws, raw t) : Phrase raw markWords ts := by
  obtain ⟨us, hus, heq⟩ := write_item hn h
  have hphrase : Phrase raw markWords us := (phrase_write hown n hus hraw).mono markWords_subset
  rcases heq with rfl | rfl
  · exact hphrase
  · exact phrase_aliasTokens hphrase markWords_subset trivial

end Dialect

namespace Node

theorem rel_shownIn {place : Place} {n : Option Node} {content : Option (List Token)}
    {shown : Option (List Lexeme)} (h : d.writeOption place n = .ok content)
    (hshown : Option.Rel (ShownAs aliasPrefix) content shown) :
    Option.Rel (ShownIn d aliasPrefix place) n shown := by
  cases n with
  | none =>
    cases h
    cases hshown
    exact .none
  | some n =>
    obtain ⟨ts, hts, rfl⟩ := Dialect.writeOption_some_eq_ok.1 h
    cases hshown with
    | some hshown => exact .some ⟨ts, hts, hshown⟩

theorem exists_item (hown : ∀ t ∈ ownRaws, raw t)
    (hlevel : ∀ t, raw t → Level markWords t.lexemes) {n : Node} {ts : List Token} (number : Nat)
    (hn : n.isJoin = false) (hraw : ∀ t ∈ n.raws, raw t) (h : d.write .source n = .ok ts) :
    ∃ t, n.JoinedAs d aliasPrefix t ∧ t.Regular ∧
      lexemesOf (settle aliasPrefix number ts) = t.lexemes := by
  have hshown : ShownAs aliasPrefix ts _ := ⟨number, rfl⟩
  exact ⟨.item _, .item hn ⟨ts, h, hshown⟩,
    hshown.level (Dialect.phrase_item hown hn h hraw) hlevel, rfl⟩

/-- What is written in a `FROM` clause are the joins of the tree. -/
theorem exists_joined (hown : ∀ t ∈ ownRaws, raw t)
    (hlevel : ∀ t, raw t → Level markWords t.lexemes) :
    ∀ (n : Node) {ts : List Token} (number : Nat), (∀ t ∈ n.raws, raw t) →
      d.write .source n = .ok ts → ∃ t, n.JoinedAs d aliasPrefix t ∧ t.Regular ∧
        lexemesOf (settle aliasPrefix number ts) = t.lexemes
  | .join left right kind condition, ts, number, hraw, h => by
    simp only [raws, List.forall_mem_append] at hraw
    obtain ⟨⟨hrLeft, hrRight⟩, hrCondition⟩ := hraw
    obtain ⟨-, left', hleft, right', hright, condition', hcondition, rfl⟩ :=
      Dialect.write_join_eq_ok.1 h
    -- Made-up names are numbered through both sides and the condition.
    obtain ⟨l, hl, hlregular, hllexemes⟩ := exists_joined hown hlevel left number hrLeft hleft
    obtain ⟨r, hr, hrregular, hrlexemes⟩ := exists_joined hown hlevel right
      (number + (left' ++ spaced kind.name).count .madeUpName) hrRight hright
    obtain ⟨c, hc, hclexemes⟩ := exists_shown_openClause aliasPrefix "ON" .on rfl rfl condition'
      (number + (left' ++ spaced kind.name ++ right').count .madeUpName)
    have hphrases := Dialect.phrase_writeOption hown condition hcondition hrCondition
    have hclevel := level_of_rel hc
      (fun us hus => (hphrases us hus).mono Dialect.markWords_subset) hlevel
    refine ⟨_, .join hl hr (rel_shownIn hcondition hc), ⟨hlregular, hrregular, hclevel⟩, ?_⟩
    rw [settle_append, settle_append, settle_append, lexemesOf_append, lexemesOf_append,
      lexemesOf_append, hllexemes, lexemesOf_settle_spaced, hrlexemes, hclexemes]
    rfl
  | .name _, _, number, hraw, h | .star, _, number, hraw, h | .literal _, _, number, hraw, h
  | .call .., _, number, hraw, h | .cast .., _, number, hraw, h | .caseOf .., _, number, hraw, h
  | .parameter .., _, number, hraw, h | .array _, _, number, hraw, h
  | .window .., _, number, hraw, h | .aliased .., _, number, hraw, h
  | .sortKey .., _, number, hraw, h | .select _, _, number, hraw, h
  | .setOperation .., _, number, hraw, h | .values _, _, number, hraw, h =>
    exists_item hown hlevel number rfl hraw h

end Node

/-! ## Query blocks -/

namespace Dialect

/-- The clauses behind the `FROM` clause. -/
def clauseTokens (style : Pagination) (s : Select (List Token)) : List Token :=
  clause "WHERE" s.condition ++ (clause "GROUP BY" (listContent s.groupBy) ++
    (clause "HAVING" s.having ++ (clause "ORDER BY" (listContent s.orderBy) ++
      boundTokens style s.offset s.fetch)))

theorem selectTokens_of_source {style : Pagination} {s : Select (List Token)} {us : List Token}
    (h : s.source = some us) :
    selectTokens style s =
      [.word "SELECT", .blank] ++ selectedTokens s ++ spaced "FROM" ++ us ++
        clauseTokens style s := by
  rw [selectTokens_eq, headTokens, h]
  simp [selectedTokens, clauseTokens, clause]

theorem follows_clause {keyword w : String} {opening : List Lexeme}
    (hkeyword : (Token.word keyword).lexemes = .word w :: opening) (hw : w ∈ clauseWords)
    (content : Option (List Token)) {more : List Token}
    (hmore : ∀ number, Joined.Follows (lexemesOf (settle aliasPrefix number more))) (number : Nat) :
    Joined.Follows (lexemesOf (settle aliasPrefix number (clause keyword content ++ more))) := by
  cases content with
  | none => exact hmore number
  | some us =>
    intro l hl
    simp only [clause, spaced, List.cons_append, List.nil_append, settle_cons, ne_eq,
      reduceCtorEq, not_false_eq_true, lexemesOf_cons, Token.lexemes_blank, hkeyword,
      List.head?_cons] at hl
    cases hl
    exact List.contains_iff_mem.2 hw

theorem follows_clauseTokens (aliasPrefix : String) (style : Pagination) (s : Select (List Token))
    (number : Nat) :
    Joined.Follows (lexemesOf (settle aliasPrefix number (clauseTokens style s))) := by
  have hbounds (number : Nat) : Joined.Follows
      (lexemesOf (settle aliasPrefix number (boundTokens style s.offset s.fetch))) := by
    have hnone (number : Nat) : Joined.Follows (lexemesOf (settle aliasPrefix number [])) := by
      rintro l ⟨⟩
    rw [← List.append_nil (boundTokens style s.offset s.fetch)]
    cases style with
    | offsetFetch =>
      rw [boundTokens, List.append_assoc]
      exact follows_clause rfl (by decide) _ (follows_clause rfl (by decide) _ hnone) number
    | limitOffset =>
      rw [boundTokens, List.append_assoc]
      exact follows_clause rfl (by decide) _ (follows_clause rfl (by decide) _ hnone) number
  exact follows_clause rfl (by decide) _ (follows_clause rfl (by decide) _
    (follows_clause rfl (by decide) _ (follows_clause rfl (by decide) _ hbounds))) number

end Dialect

namespace Node

/-- The `FROM` clause of a block is parted into the pieces of the joins in it. -/
theorem exists_fromClause (aliasPrefix : String) (hown : ∀ t ∈ ownRaws, raw t)
    (hlevel : ∀ t, raw t → Level markWords t.lexemes) {block : Select Node} {n : Node}
    {s : Select (List Token)} (hs : d.WritesParts block s) (hsource : block.source = some n)
    (hitems : ∀ t ∈ allRaws block.items, raw t) (hn : ∀ t ∈ n.raws, raw t) :
    ∃ t, n.JoinedAs d aliasPrefix t ∧
      fromClause? (lexemesOf (settle aliasPrefix 0
        (Dialect.selectTokens d.features.pagination s))) = some t.pieces := by
  have hwritten := hs.source
  rw [hsource] at hwritten
  obtain ⟨us, hus, heq⟩ := bind_eq_ok.1 hwritten
  have hus' : s.source = some us := (pure_eq_ok.1 heq).symm
  let before : List Token :=
    [.word "SELECT", .blank] ++ Dialect.selectedTokens s ++ spaced "FROM"
  obtain ⟨t, ht, hregular, hlexemes⟩ :=
    exists_joined hown hlevel n (0 + before.count .madeUpName) hn hus
  have hselected := Dialect.phrase_selectedTokens (s := s) (List.Subset.refl _)
    (Dialect.phrase_writeAll hown block.items hs.items hitems)
  have hlevelSelected (number : Nat) :
      Level markWords (lexemesOf (settle aliasPrefix number (Dialect.selectedTokens s))) :=
    (hselected.mono Dialect.markWords_subset).settle.level hlevel
  refine ⟨t, ht, ?_⟩
  have hword (number : Nat) (w : String) :
      settle aliasPrefix number (spaced w) = spaced w := settle_of_not_mem (by simp [spaced])
  rw [Dialect.selectTokens_of_source hus', settle_append, settle_append, settle_append,
    settle_append, lexemesOf_append, lexemesOf_append, lexemesOf_append, lexemesOf_append,
    hlexemes, hword]
  exact Joined.fromClause?_query (hlevelSelected _) hregular
    (Dialect.follows_clauseTokens aliasPrefix d.features.pagination s _)

end Node

/-- Whether the text of a token scans by itself and no clause or join is marked in it. -/
def Token.IsUnmarked (t : Token) : Prop := Complete t.chars ∧ Level markWords t.lexemes

instance (t : Token) : Decidable t.IsUnmarked := inferInstanceAs (Decidable (_ ∧ _))

namespace Node

/-- The `FROM` clause of a block reads back as the joins in it if and only if every `CROSS JOIN` has
a single item on its right, and the conditions are where joins need them. -/
theorem joinedAs_ofText?_text_iff {block : Select Node} {n : Node} {s : String}
    (hn : block.source = some n) (hraw : ∀ t ∈ selectRaws block, t.IsUnmarked)
    (hs : d.text aliasPrefix (.select block) = .ok s) :
    (∃ t, Joined.ofText? s = some t ∧ n.JoinedAs d aliasPrefix t) ↔ n.JoinsGrammatical := by
  obtain ⟨ts, hts, hrender⟩ := bind_eq_ok.1 hs
  cases hrender
  have hown : ∀ t ∈ ownRaws, t.IsUnmarked := by decide
  obtain ⟨query, hquery, hplace⟩ := bind_eq_ok.1 hts
  cases hplace
  have hphrase := Dialect.phrase_writeSelect hown block hquery hraw
  obtain ⟨parts, hparts, rfl⟩ := Dialect.writesParts_of_writeSelect hquery
  have htext := ofText?_render aliasPrefix hphrase fun t ht => ht.1
  obtain ⟨distinct, items, source, condition, groupBy, having, orderBy, offset, fetch⟩ := block
  simp only [selectRaws, List.forall_mem_append] at hraw
  obtain ⟨⟨⟨⟨⟨⟨⟨hrItems, hrSource⟩, -⟩, -⟩, -⟩, -⟩, -⟩, -⟩ := hraw
  cases hn
  obtain ⟨t, ht, hclause⟩ := exists_fromClause aliasPrefix hown (fun t ht => ht.2)
    hparts rfl hrItems hrSource
  have hread (u : Joined) : Joined.ofText? (render aliasPrefix
      (Dialect.selectTokens d.features.pagination parts)) = some u ↔
        u.Grammatical ∧ u.pieces = t.pieces := by
    rw [Joined.ofText?, htext]
    simp only [Option.bind_eq_bind, Option.bind_some, hclause]
    exact Joined.ofPieces?_eq_some_iff
  constructor
  · rintro ⟨u, hu, hjoined⟩
    exact hjoined.grammatical_iff.1 ((hread u).1 hu).1
  · intro h
    exact ⟨t, (hread t).2 ⟨ht.grammatical_iff.2 h, rfl⟩, ht⟩

/-- Joins on the right of other joins need no brackets as long as none is a `CROSS JOIN`: the
conditions tell where they end. -/
theorem joinedAs_ofText?_text_nested :
    let onId (a b : String) : Option Node := some (.apply .equals [.name [a, "id"], .name [b, "id"]])
    let recent : Node := .aliased (.select { items := [], source := some (.name ["d"]) }) "r"
    let crossed : Node := .join (.name ["b"]) (.aliased (.name ["c"]) "x") .cross none
    let n : Node :=
      .join (.name ["a"]) (.join crossed recent .inner (onId "x" "r")) .left (onId "a" "b")
    let block : Select Node := { items := [], source := some n, fetch := some (.number 1) }
    let s : String := "SELECT * FROM \"a\" LEFT JOIN \"b\" CROSS JOIN \"c\" AS \"x\" " ++
      "INNER JOIN (SELECT * FROM \"d\") AS \"r\" ON \"x\".\"id\" = \"r\".\"id\" " ++
      "ON \"a\".\"id\" = \"b\".\"id\" LIMIT 1"
    block.source = some n ∧ (∀ t ∈ selectRaws block, t.IsUnmarked) ∧
      Dialect.hsqldb.text "t" (.select block) = .ok s ∧ n.JoinsGrammatical ∧
      ∃ t, Joined.ofText? s = some t ∧ n.JoinedAs .hsqldb "t" t := by
  intro onId recent crossed n block s
  have hraw : ∀ t ∈ selectRaws block, t.IsUnmarked := by decide
  have hs : Dialect.hsqldb.text "t" (.select block) = .ok s := by decide +kernel
  have hjoins : n.JoinsGrammatical := ⟨trivial, ⟨⟨trivial, trivial, rfl, rfl⟩, trivial, rfl⟩, rfl⟩
  exact ⟨rfl, hraw, hs, hjoins, (joinedAs_ofText?_text_iff rfl hraw hs).2 hjoins⟩

/-- `a CROSS JOIN (b INNER JOIN c)` is written without brackets and reads back as
`(a CROSS JOIN b) INNER JOIN c`, which are other joins. -/
theorem not_joinedAs_ofText?_text_crossed :
    let column (t : String) : Node := .name [t, "id"]
    let inner : Node :=
      .join (.name ["b"]) (.name ["c"]) .inner (some (.apply .equals [column "b", column "c"]))
    let n : Node := .join (.name ["a"]) inner .cross none
    let block : Select Node := { items := [], source := some n }
    let s : String := "SELECT * FROM \"a\" CROSS JOIN \"b\" INNER JOIN \"c\" " ++
      "ON \"b\".\"id\" = \"c\".\"id\""
    let shown (t : String) : Joined := .item [.quoted nameQuote t]
    let condition : List Lexeme :=
      [.quoted nameQuote "b", .sign ".", .quoted nameQuote "id", .sign "=",
       .quoted nameQuote "c", .sign ".", .quoted nameQuote "id"]
    let t : Joined :=
      .join .inner (.join .cross (shown "a") (shown "b") none) (shown "c") (some condition)
    Dialect.ansi.text "t" (.select block) = .ok s ∧ Joined.ofText? s = some t ∧
      ¬n.JoinedAs .ansi "t" t := by
  intro column inner n block s shown condition t
  have hs : Dialect.ansi.text "t" (.select block) = .ok s := by decide +kernel
  have hread : Joined.ofText? s = some t := by decide +kernel
  have ht : t.Grammatical := ⟨⟨trivial, trivial, rfl, rfl⟩, trivial, rfl⟩
  refine ⟨hs, hread, fun h => ?_⟩
  have hn : n.JoinsGrammatical := h.grammatical_iff.1 ht
  exact absurd hn.2.2.1 (by decide)

end Node

end StorePlan.Sql
