import StorePlan.Proofs.Sql.SetOperation.Outlining

/-
The text of set operations reads back as the same set operations exactly if
they are grouped as they are without brackets and every ordered block in them
is paged: only paged blocks are put in brackets.
-/

namespace StorePlan.Sql

open Lexeme

variable {d : Dialect} {aliasPrefix : String}

/-- Whether the text of a token scans by itself and no part of a query ends in it. -/
def Token.IsInert (t : Token) : Prop := Complete t.chars ∧ Level endingWords t.lexemes

instance (t : Token) : Decidable t.IsInert := inferInstanceAs (Decidable (_ ∧ _))

namespace Node

/-- The text of set operations over blocks scans to the lexemes of an outline of them. -/
theorem exists_ofText?_text {n : Node} {s : String} (hn : n.isSetTree = true)
    (hraw : ∀ t ∈ n.raws, t.IsInert) (hs : d.text aliasPrefix n = .ok s) :
    ∃ q, n.OutlinedBy d aliasPrefix q ∧ q.Regular ∧
      Lexeme.ofText? s = some (q.lexemes d.features.pagination) := by
  obtain ⟨ts, hts, hrender⟩ := bind_eq_ok.1 hs
  cases hrender
  have hown : ∀ t ∈ ownRaws, t.IsInert := by decide
  obtain ⟨q, hq, hregular, hlexemes⟩ :=
    exists_outline hown (fun t ht => ht.2) n 0 hn hraw hts
  have hphrase := Dialect.phrase_write hown n hts hraw
  exact ⟨q, hq, hregular, (ofText?_render aliasPrefix hphrase fun t ht => ht.1).trans
    (congrArg some hlexemes)⟩

theorem ofText?_eq_some_iff {style : Pagination} {s : String} {ls : List Lexeme} {q : Outline}
    (h : Lexeme.ofText? s = some ls) :
    Outline.ofText? style s = some q ↔ Outline.readQuery style ls = some (q, []) := by
  rw [Outline.ofText?, h]
  simp only [Option.bind_eq_bind, Option.bind_some, Option.bind_eq_some_iff]
  constructor
  · rintro ⟨⟨q', rest⟩, hread, hq⟩
    split_ifs at hq with hrest
    cases hq
    obtain rfl : rest = [] := List.isEmpty_iff.1 hrest
    exact hread
  · intro hread
    exact ⟨_, hread, rfl⟩

/-- A block by itself keeps its clauses. -/
theorem readQuery_lexemes_block {style : Pagination} {body : List Lexeme} {tail : Tail}
    (h : (Outline.block body tail).Regular) :
    Outline.readQuery style ((Outline.block body tail).lexemes style) =
      some (.block body tail, []) := by
  have hclosed : Outline.Closes [] := by rintro l ⟨⟩
  simpa using Outline.readQuery_block style h hclosed

/-- The text of set operations over blocks reads back as an outline of them if and only if nothing
is lost of them without brackets. -/
theorem outlinedBy_ofText?_text_iff {n : Node} {s : String} (hn : n.isSetTree = true)
    (hraw : ∀ t ∈ n.raws, t.IsInert) (hs : d.text aliasPrefix n = .ok s) :
    (∃ q, Outline.ofText? d.features.pagination s = some q ∧ n.OutlinedBy d aliasPrefix q) ↔
      n.KeepsOutline := by
  obtain ⟨e, he, hregular, hlexemes⟩ := exists_ofText?_text hn hraw hs
  simp only [ofText?_eq_some_iff hlexemes]
  cases he with
  | select hparts hblock =>
    exact ⟨fun _ => trivial,
      fun _ => ⟨_, readQuery_lexemes_block hregular, .select hparts hblock⟩⟩
  | values hrows hbody =>
    exact ⟨fun _ => trivial, fun _ => ⟨_, readQuery_lexemes_block hregular, .values hrows hbody⟩⟩
  | @setOperation op left right l r hl hr =>
    have he : (Node.setOperation op left right).OutlinedBy d aliasPrefix (.setOperation op l r) :=
      .setOperation hl hr
    constructor
    · rintro ⟨q, hread, hq⟩
      by_cases henclosed : (Outline.setOperation op l r).TailsEnclosed
      · rw [Outline.readQuery_setOperation hregular henclosed] at hread
        cases hread
        exact ⟨hq.grouped_iff.1 (Outline.grouped_regrouped _), he.tailsEnclosed_iff.1 henclosed⟩
      · cases hq
        exact absurd rfl (Outline.readQuery_ne hregular henclosed hread _ _ _)
    · rintro ⟨hgrouped, henclosed⟩
      refine ⟨_, ?_, he⟩
      rw [Outline.readQuery_setOperation hregular (he.tailsEnclosed_iff.2 henclosed),
        Outline.regrouped_of_grouped (he.grouped_iff.2 hgrouped)]

/-- `(a EXCEPT b) UNION (c INTERSECT d)` needs no brackets but those around `d`, of which the rows
are ordered and bounded. -/
theorem outlinedBy_ofText?_text_bounded :
    let all (t : String) : Select Node := { items := [], source := some (.name [t]) }
    let bounded : Select Node := { all "d" with orderBy := [.name ["x"]], fetch := some (.number 1) }
    let n : Node := .setOperation .union
      (.setOperation .except (.select (all "a")) (.select (all "b")))
      (.setOperation .intersect (.select (all "c")) (.select bounded))
    let s : String := "SELECT * FROM \"a\" EXCEPT SELECT * FROM \"b\" UNION " ++
      "SELECT * FROM \"c\" INTERSECT (SELECT * FROM \"d\" ORDER BY \"x\" LIMIT 1)"
    n.isSetTree = true ∧ (∀ t ∈ n.raws, t.IsInert) ∧ Dialect.hsqldb.text "t" n = .ok s ∧
      n.KeepsOutline ∧
      ∃ q, Outline.ofText? .limitOffset s = some q ∧ n.OutlinedBy .hsqldb "t" q := by
  intro all bounded n s
  have hn : n.isSetTree = true := rfl
  have hraw : ∀ t ∈ n.raws, t.IsInert := by decide
  have hs : Dialect.hsqldb.text "t" n = .ok s := by decide +kernel
  have hkeeps : n.KeepsOutline := by
    refine ⟨⟨⟨by decide, ⟨by decide, trivial⟩, by decide, trivial⟩, by decide,
      ⟨by decide, trivial⟩, by decide, trivial⟩, ⟨.inr rfl, .inr rfl⟩, .inr rfl, .inl rfl⟩
  exact ⟨hn, hraw, hs, hkeeps, (outlinedBy_ofText?_text_iff hn hraw hs).2 hkeeps⟩

/-- `a EXCEPT (b EXCEPT c)` is written without brackets and reads back as `(a EXCEPT b) EXCEPT c`,
which is another query. -/
theorem not_outlinedBy_ofText?_text_difference :
    let all (t : String) : Node := .select { items := [], source := some (.name [t]) }
    let body (t : String) : List Lexeme :=
      [.word "SELECT", .sign "*", .word "FROM", .quoted nameQuote t]
    let n : Node := .setOperation .except (all "a") (.setOperation .except (all "b") (all "c"))
    let s : String :=
      "SELECT * FROM \"a\" EXCEPT SELECT * FROM \"b\" EXCEPT SELECT * FROM \"c\""
    let q : Outline := .setOperation .except
      (.setOperation .except (.block (body "a") {}) (.block (body "b") {})) (.block (body "c") {})
    Dialect.ansi.text "t" n = .ok s ∧ Outline.ofText? .offsetFetch s = some q ∧
      ¬n.OutlinedBy .ansi "t" q := by
  intro all body n s q
  have hs : Dialect.ansi.text "t" n = .ok s := by decide +kernel
  let e : Outline := .setOperation .except (.block (body "a") {})
    (.setOperation .except (.block (body "b") {}) (.block (body "c") {}))
  have hlexemes : Lexeme.ofText? s = some (e.lexemes .offsetFetch) := by decide +kernel
  have hbody (t : String) : (Outline.block (body t) {}).Regular :=
    ⟨⟨_, _, rfl, by decide⟩, rfl, by rintro ls ⟨⟩, by rintro ls ⟨⟩, by rintro ls ⟨⟩⟩
  have hregular : e.Regular := ⟨hbody "a", hbody "b", hbody "c"⟩
  have henclosed : e.TailsEnclosed := ⟨.inr rfl, .inr rfl, .inr rfl⟩
  refine ⟨hs, (ofText?_eq_some_iff hlexemes).2 ?_, ?_⟩
  · exact Outline.readQuery_setOperation hregular henclosed
  · intro h
    have hgrouped : n.Grouped := h.grouped_iff.1 (Outline.grouped_regrouped e)
    exact absurd hgrouped.2.1 (by decide)

end Node

end StorePlan.Sql
