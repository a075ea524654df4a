import StorePlan.Proofs.Sql.Expression.ReadBack
import StorePlan.Proofs.Sql.Expression.Writing

/-
The text of a tree that is an expression can always be read back, and it
gives the expression up to the nesting of associative chains exactly if no
chain mixes operators of one strength: brackets are left out around the
right operand of an associative operator even if another operator of the
same strength stands in it.
-/

namespace StorePlan.Sql

open Lexeme Expression Reading

variable {d : Dialect}

/-! ## Raw texts of expressions -/

theorem Literal.complete_of_mem_raws {l : Literal} {leaf : Leaf} (h : l.leaf? = some leaf) :
    ∀ t ∈ l.raws, Complete t.chars := by
  cases l with
  | exact t | approximate t =>
    simp only [leaf?] at h
    split_ifs at h with hnumeral
    intro u hu
    rw [List.mem_singleton.1 hu]
    exact (numeral?_ofChars hnumeral).1
  | _ => simp [raws]

theorem Op.complete_of_mem_raws {op : Op} {distinct : Bool} {fs : List Formula} {x : Formula}
    (h : op.formula? distinct fs = some x) : ∀ t ∈ op.raws, Complete t.chars := by
  cases op with
  | function name =>
    simp only [formula?, layout] at h
    split_ifs at h with hcall
    intro t ht
    rw [List.mem_singleton.1 ht]
    exact (complete_functionName hcall.2.2).1
  | _ => simp [raws]

namespace Node

mutual

/-- Numbers and names of functions in a formula scan by themselves. -/
theorem complete_of_mem_raws {x : Formula} :
    ∀ n : Node, n.formula? d = some x → ∀ t ∈ n.raws, Complete t.chars
  | .literal l, h => by
    obtain ⟨leaf, hleaf, -⟩ := Option.map_eq_some_iff.1 h
    exact Literal.complete_of_mem_raws hleaf
  | .call op operands distinct, h => by
    simp only [formula?, Option.bind_eq_bind, Option.bind_eq_some_iff] at h
    obtain ⟨fs, hfs, hx⟩ := h
    rw [raws, List.forall_mem_append]
    exact ⟨Op.complete_of_mem_raws hx, complete_of_mem_allRaws operands hfs⟩
  | .cast operand type, h => by
    simp only [formula?, Option.bind_eq_bind, Option.bind_eq_some_iff] at h
    obtain ⟨x', hx', -⟩ := h
    rw [raws]
    exact complete_of_mem_raws operand hx'
  | .caseOf subject branches otherwise, h => by
    simp only [formula?] at h
    split_ifs at h
    simp only [Option.bind_eq_bind, Option.bind_eq_some_iff] at h
    obtain ⟨subject', hsubject, branches', hbranches, otherwise', hotherwise, -⟩ := h
    rw [raws, List.forall_mem_append, List.forall_mem_append]
    exact ⟨⟨complete_of_mem_optionRaws subject hsubject,
      complete_of_mem_branchRaws branches hbranches⟩,
      complete_of_mem_optionRaws otherwise hotherwise⟩
  | .name _, _ | .star, _ | .parameter _ _, _ => by simp [raws]
  | .array _, h | .window .., h | .aliased .., h | .sortKey .., h | .join .., h | .select _, h
  | .setOperation .., h | .values _, h => by cases h

theorem complete_of_mem_allRaws {fs : List Formula} :
    ∀ ns : List Node, allFormulas? d ns = some fs → ∀ t ∈ allRaws ns, Complete t.chars
  | [], _ => by simp [allRaws]
  | n :: rest, h => by
    simp only [allFormulas?, Option.bind_eq_bind, Option.bind_eq_some_iff] at h
    obtain ⟨x, hx, fs', hfs, -⟩ := h
    rw [allRaws, List.forall_mem_append]
    exact ⟨complete_of_mem_raws n hx, complete_of_mem_allRaws rest hfs⟩

theorem complete_of_mem_optionRaws {fs : List Formula} :
    ∀ n : Option Node, optionFormulas? d n = some fs → ∀ t ∈ optionRaws n, Complete t.chars
  | none, _ => by simp [optionRaws]
  | some n, h => by
    simp only [optionFormulas?, Option.bind_eq_bind, Option.bind_eq_some_iff] at h
    obtain ⟨x, hx, -⟩ := h
    rw [optionRaws]
    exact complete_of_mem_raws n hx

theorem complete_of_mem_branchRaws {fs : List Formula} :
    ∀ bs : List (Node × Node), branchFormulas? d bs = some fs →
      ∀ t ∈ branchRaws bs, Complete t.chars
  | [], _ => by simp [branchRaws]
  | (condition, result) :: rest, h => by
    simp only [branchFormulas?, Option.bind_eq_bind, Option.bind_eq_some_iff] at h
    obtain ⟨x, hx, x', hx', fs', hfs, -⟩ := h
    rw [branchRaws, List.forall_mem_append, List.forall_mem_append]
    exact ⟨⟨complete_of_mem_raws condition hx, complete_of_mem_raws result hx'⟩,
      complete_of_mem_branchRaws rest hfs⟩

end

end Node

/-! ## Reading what was written -/

/-- The text of a formula scans to the lexemes of what it is spelled as. -/
theorem ofText?_text_formula {aliasPrefix s : String} {n : Node} {x : Formula}
    (h : n.formula? d = some x) (hs : d.text aliasPrefix n = .ok s) :
    ofText? s = some x.spelled.lexemes := by
  obtain ⟨ts, hts, hrender⟩ := bind_eq_ok.1 hs
  cases hrender
  have hown : ∀ t ∈ ownRaws, Complete t.chars := by decide
  have hraws := Node.complete_of_mem_raws n h
  have hphrase : Phrase (fun t => Complete t.chars) Place.statement.avoided ts :=
    Dialect.phrase_write hown n hts hraws
  obtain ⟨hlexemes, hsettled⟩ := shows_write n h (Nat.zero_le _) hts
  rw [ofText?_render aliasPrefix hphrase fun _ ht => ht, settle_of_not_mem hsettled, hlexemes]
  exact congrArg some x.placed_free

/-- What is read of the text of a formula is regrouped by the brackets that were left out. -/
theorem readText_text {aliasPrefix s : String} {n : Node} {x : Formula}
    (h : n.formula? d = some x) (hs : d.text aliasPrefix n = .ok s) :
    readText s = some x.spelled.regrouped :=
  readText_eq (x.regular_spelled (Node.regular_of_formula? n h)) (ofText?_text_formula h hs)

/-- The text of an expression scans to the lexemes of the expression. -/
theorem ofText?_text {aliasPrefix s : String} {n : Node} {e : Expression}
    (h : n.expression? d = some e) (hs : d.text aliasPrefix n = .ok s) :
    ofText? s = some e.lexemes := by
  rw [ofText?_text_formula (Node.formula?_of_expression? n h) hs, spelled_formula]

/-- The text of an expression reads back as the same expression, up to the nesting of associative
chains, if and only if no chain mixes operators of one strength to the right of an associative
one. -/
theorem renests_readText_text {aliasPrefix s : String} {n : Node} {e : Expression}
    (h : n.expression? d = some e) (hs : d.text aliasPrefix n = .ok s) :
    ∃ read, readText s = some read ∧ (Renests read e ↔ e.Unmixed) := by
  have hregular := Node.regular_of_expression? n h
  exact ⟨e.regrouped, readText_eq hregular (ofText?_text h hs), renests_regrouped_iff⟩

/-- `a + (b + -c)` stands without brackets and reads back as `(a + b) + -c`. -/
theorem renests_readText_sum :
    let n : Node := .apply .plus
      [.name ["a"], .apply .plus [.name ["b"], .apply .negate [.name ["c"]]]]
    let e : Expression := .binary .plus (.leaf (.name ["a"]))
      (.binary .plus (.leaf (.name ["b"]))
        (.frame (.operator .negate) [.leaf (.name ["c"])]))
    n.expression? .ansi = some e ∧ Dialect.ansi.text "t" n = .ok "\"a\" + \"b\" + -\"c\"" ∧
      ∃ read, readText "\"a\" + \"b\" + -\"c\"" = some read ∧ (Renests read e ↔ e.Unmixed) := by
  intro n e
  have h : n.expression? .ansi = some e := rfl
  have hs : Dialect.ansi.text "t" n = .ok "\"a\" + \"b\" + -\"c\"" := by decide +kernel
  exact ⟨h, hs, renests_readText_text h hs⟩

/-- `a * (b / c)` is written without brackets and reads back as `(a * b) / c`, which is no other
nesting of it. -/
theorem not_renests_readText_quotient :
    let n : Node := .apply .times
      [.name ["a"], .apply .divide [.name ["b"], .name ["c"]]]
    let e : Expression := .binary .times (.leaf (.name ["a"]))
      (.binary .divide (.leaf (.name ["b"])) (.leaf (.name ["c"])))
    let read : Expression := .binary .divide
      (.binary .times (.leaf (.name ["a"])) (.leaf (.name ["b"]))) (.leaf (.name ["c"]))
    n.expression? .ansi = some e ∧ Dialect.ansi.text "t" n = .ok "\"a\" * \"b\" / \"c\"" ∧
      readText "\"a\" * \"b\" / \"c\"" = some read ∧ ¬Renests read e := by
  intro n e read
  have h : n.expression? .ansi = some e := rfl
  have hs : Dialect.ansi.text "t" n = .ok "\"a\" * \"b\" / \"c\"" := by decide +kernel
  have hread : readText "\"a\" * \"b\" / \"c\"" = some read :=
    readText_eq (Node.regular_of_expression? n h) (ofText?_text h hs)
  refine ⟨h, hs, hread, fun hrenests => ?_⟩
  have hweight : read.weight = e.weight := hrenests.measures.2
  exact absurd hweight (by decide)

end StorePlan.Sql
