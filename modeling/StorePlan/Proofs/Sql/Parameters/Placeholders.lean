import StorePlan.Proofs.Sql.Parameters.Holding

/-
Values that are bound by position reach the same parameters in two dialects if
both page in the same style, or no block of the tree has its bounds in the
way: `LIMIT ? OFFSET ?` has the placeholders of `OFFSET ? FETCH ?` the other
way round.
-/

namespace StorePlan.Sql

open Lexeme

/-- Whether the text of a token scans by itself and has no placeholder. -/
def Token.IsClear (t : Token) : Prop := Complete t.chars ∧ placeholder ∉ t.lexemes

instance (t : Token) : Decidable t.IsClear := inferInstanceAs (Decidable (_ ∧ _))

namespace Dialect

variable {d e : Dialect} {p q s t : String} {n : Node} {ts : List Token}

/-- The text of a tree is that of these tokens. If its numbers and names of functions are clear of
placeholders, the tokens scan one by one, and those with a placeholder are the parameters. -/
structure WrittenFrom (d : Dialect) (aliasPrefix : String) (n : Node) (s : String)
    (ts : List Token) : Prop where
  write_eq : d.write .statement n = .ok ts
  render_eq : render aliasPrefix ts = s
  lexemes : (∀ t ∈ n.raws, t.IsClear) →
    Lexeme.ofText? s = some (lexemesOf (settle aliasPrefix 0 ts))
  placeholder_mem_iff : (∀ t ∈ n.raws, t.IsClear) →
    ∀ t ∈ ts, placeholder ∈ t.lexemes ↔ t.parameter?.isSome = true

/-- The placeholders of the text of a tree stand for these parameters, from left to right. -/
def StandFor (d : Dialect) (aliasPrefix : String) (n : Node) (s : String) (is : List Nat) : Prop :=
  ∃ ts, d.WrittenFrom aliasPrefix n s ts ∧ ts.filterMap Token.parameter? = is

theorem writtenFrom_of_write (hn : ∀ m ∈ n.subtrees, m.isSingleValue = false)
    (h : d.write .statement n = .ok ts) : d.WrittenFrom p n (render p ts) ts := by
  refine ⟨h, rfl, fun hraw => ?_, fun hraw t ht => ?_⟩
  · have hown : ∀ t ∈ ownRaws, t.IsClear := by decide
    exact ofText?_render p (phrase_write hown n h hraw) fun t ht => ht.1
  · have hholds : Holds (fun t => placeholder ∉ t.lexemes) ts _ :=
      holds_write n h hn fun t ht => (hraw t ht).2
    cases hindex : t.parameter? with
    | none => simpa using or_self_iff.1 (hholds.isOther ht hindex).2
    | some index =>
      cases t with
      | parameter i => simp [placeholder]
      | _ => cases hindex

/-- The placeholders of a text stand for the parameters of the tree in the order of the dialect. -/
theorem standFor_parameters (hn : ∀ m ∈ n.subtrees, m.isSingleValue = false)
    (hs : d.text p n = .ok s) : d.StandFor p n s (n.parameters d.features.pagination) := by
  obtain ⟨ts, hts, hrender⟩ := bind_eq_ok.1 hs
  cases hrender
  have hholds : Holds (fun _ => True) ts _ := holds_write n hts hn fun _ _ => trivial
  exact ⟨ts, writtenFrom_of_write hn hts, hholds.filterMap_eq⟩

theorem StandFor.eq {is js : List Nat} (h : d.StandFor p n s is) (h' : d.StandFor p n s js) :
    is = js := by
  obtain ⟨ts, hts, rfl⟩ := h
  obtain ⟨us, hus, rfl⟩ := h'
  cases hts.write_eq.symm.trans hus.write_eq
  rfl

/-- The placeholders of a tree in two dialects stand for the same parameters. They come in the same
order if and only if the dialects page in the same style or no block outside of the bounds of others
has parameters in its bounds that change places. -/
theorem exists_standFor_iff (hn : ∀ m ∈ n.subtrees, m.isSingleValue = false)
    (hs : d.text p n = .ok s) (ht : e.text q n = .ok t) :
    ∃ is js, d.StandFor p n s is ∧ e.StandFor q n t js ∧ is.Perm js ∧
      (is = js ↔
        d.features.pagination = e.features.pagination ∨
          ∀ block ∈ n.blocks, Node.BoundsAgree block) := by
  obtain ⟨hperm, hiff⟩ := n.reorders_parameters
  refine ⟨_, _, standFor_parameters hn hs, standFor_parameters hn ht, ?_⟩
  cases d.features.pagination <;> cases e.features.pagination
  · simp
  · exact ⟨hperm, by simpa using hiff⟩
  · exact ⟨hperm.symm, by simpa [eq_comm] using hiff⟩
  · simp

/-- Rounding and parameters of intervals are written in other words, but the placeholders stay in
order; of the bounds only one is a parameter. -/
theorem exists_standFor_fetch :
    let rounded : Node := .apply .floor [.parameter 0 none, .literal (.unit .month)]
    let condition : Node := .apply .and
      [.apply .greaterThan [.name ["b"], .parameter 2 (some (.interval .day))],
       .apply .equals [rounded, .name ["c"]]]
    let n : Node := .select
      { items := [.name ["a"]], source := some (.name ["t"]), condition := some condition,
        offset := some (.number 5), fetch := some (.parameter 1 none) }
    let s : String := "SELECT \"a\" FROM \"t\" WHERE \"b\" > CAST(? AS interval) " ++
      "AND DATE_TRUNC('MONTH', ?) = \"c\" OFFSET 5 ROWS FETCH NEXT ? ROWS ONLY"
    let t : String := "SELECT \"a\" FROM \"t\" WHERE \"b\" > ? " ++
      "AND TRUNC(?, 'MM') = \"c\" LIMIT ? OFFSET 5"
    (∀ m ∈ n.subtrees, m.isSingleValue = false) ∧ postgresql.text "x" n = .ok s ∧
      hsqldb.text "x" n = .ok t ∧ (∀ block ∈ n.blocks, Node.BoundsAgree block) ∧
      ∃ is, postgresql.StandFor "x" n s is ∧ hsqldb.StandFor "x" n t is := by
  intro rounded condition n s t
  have hn : ∀ m ∈ n.subtrees, m.isSingleValue = false := by decide
  have hs : postgresql.text "x" n = .ok s := by decide +kernel
  have ht : hsqldb.text "x" n = .ok t := by decide +kernel
  have hblocks : ∀ block ∈ n.blocks, Node.BoundsAgree block := by decide
  obtain ⟨is, js, his, hjs, -, hiff⟩ := exists_standFor_iff hn hs ht
  obtain rfl := hiff.2 (.inr hblocks)
  exact ⟨hn, hs, ht, hblocks, is, his, hjs⟩

/-- Where both bounds are parameters they change places. -/
theorem not_exists_standFor_bounds :
    let n : Node := .select
      { items := [], source := some (.name ["t"]), offset := some (.parameter 0 none),
        fetch := some (.parameter 1 none) }
    let s : String := "SELECT * FROM \"t\" OFFSET ? ROWS FETCH NEXT ? ROWS ONLY"
    let t : String := "SELECT * FROM \"t\" LIMIT ? OFFSET ?"
    (∀ m ∈ n.subtrees, m.isSingleValue = false) ∧ ansi.text "x" n = .ok s ∧
      hsqldb.text "x" n = .ok t ∧ ¬∃ is, ansi.StandFor "x" n s is ∧ hsqldb.StandFor "x" n t is := by
  intro n s t
  have hn : ∀ m ∈ n.subtrees, m.isSingleValue = false := by decide
  have hs : ansi.text "x" n = .ok s := by decide +kernel
  have ht : hsqldb.text "x" n = .ok t := by decide +kernel
  refine ⟨hn, hs, ht, ?_⟩
  rintro ⟨is, his, his'⟩
  have hoffset : is = [0, 1] := his.eq (standFor_parameters hn hs)
  have hlimit : is = [1, 0] := his'.eq (standFor_parameters hn ht)
  exact absurd (hoffset.symm.trans hlimit) (by decide)

end Dialect

end StorePlan.Sql
