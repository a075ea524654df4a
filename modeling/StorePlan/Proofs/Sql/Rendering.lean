import StorePlan.Proofs.Sql.Phrase

/-
The text of tokens scans to their lexemes. Names that are made up are settled
first: every one becomes the name that it will have in the text.
-/

namespace StorePlan.Sql

open Text

/-- The tokens with their made-up names, numbered from `number` on. -/
def settle (aliasPrefix : String) : Nat → List Token → List Token
  | _, [] => []
  | number, .madeUpName :: rest =>
    .name (aliasPrefix ++ natText number) :: settle aliasPrefix (number + 1) rest
  | number, t :: rest => t :: settle aliasPrefix number rest

section Settling

variable {aliasPrefix : String} {number : Nat} {ts us : List Token}

theorem settle_cons {t : Token} (h : t ≠ .madeUpName) :
    settle aliasPrefix number (t :: ts) = t :: settle aliasPrefix number ts := by
  cases t <;> first | rfl | contradiction

theorem settle_append :
    settle aliasPrefix number (ts ++ us) =
      settle aliasPrefix number ts ++
        settle aliasPrefix (number + ts.count .madeUpName) us := by
  induction ts generalizing number with
  | nil => rfl
  | cons t rest ih =>
    by_cases h : t = .madeUpName
    · subst h
      simp [settle, ih, Nat.add_assoc, Nat.add_comm 1]
    · rw [List.cons_append, settle_cons h, settle_cons h, ih, List.count_cons_of_ne h,
        List.cons_append]

theorem settle_of_not_mem (h : .madeUpName ∉ ts) : settle aliasPrefix number ts = ts := by
  induction ts generalizing number with
  | nil => rfl
  | cons t rest ih =>
    rw [List.mem_cons, not_or] at h
    rw [settle_cons (Ne.symm h.1), ih h.2]

theorem madeUpName_not_mem_settle : .madeUpName ∉ settle aliasPrefix number ts := by
  induction ts generalizing number with
  | nil => simp [settle]
  | cons t rest ih =>
    by_cases h : t = .madeUpName
    · subst h
      simpa [settle] using ih
    · simpa [settle_cons h, Ne.symm h] using ih

theorem startsWithMinus_settle :
    startsWithMinus (settle aliasPrefix number ts) = startsWithMinus ts := by
  induction ts generalizing number with
  | nil => rfl
  | cons t rest ih =>
    by_cases h : t = .madeUpName
    · subst h
      rfl
    · rw [settle_cons h]
      cases t <;> simp [startsWithMinus, ih]

/-- A word stands between blanks as it does by itself. -/
theorem lexemesOf_settle_spaced (w : String) :
    lexemesOf (settle aliasPrefix number (spaced w)) = (Token.word w).lexemes := by
  rw [settle_of_not_mem (by simp [spaced])]
  simp [spaced]

theorem madeUpName_not_mem_nameTokens : ∀ parts : List String,
    .madeUpName ∉ Dialect.nameTokens parts
  | [] => by simp [Dialect.nameTokens]
  | [part] => by unfold Dialect.nameTokens Dialect.namePart; split_ifs <;> simp
  | part :: next :: rest => by
    have := madeUpName_not_mem_nameTokens (next :: rest)
    unfold Dialect.nameTokens Dialect.namePart
    split_ifs <;> simp [this]

theorem Phrase.settle {raw : Token → Prop} {words : List String} (h : Phrase raw words ts) :
    Phrase raw words (settle aliasPrefix number ts) := by
  induction h generalizing number with
  | nil => exact .nil
  | @leaf words t ht =>
    by_cases hmade : t = .madeUpName
    · subst hmade
      exact .leaf trivial
    · rw [settle_cons hmade]
      exact .leaf ht
  | name parts =>
    rw [settle_of_not_mem (madeUpName_not_mem_nameTokens parts)]
    exact .name parts
  | gap _ _ iht ihu =>
    rw [settle_append, settle_cons (by simp)]
    exact .gap iht ihu
  | comma _ _ iht ihu =>
    rw [settle_append, settle_cons (by simp)]
    exact .comma iht ihu
  | bracketed _ _ iht ihu =>
    rw [settle_append, Sql.bracketed, List.cons_append, settle_cons (by simp), settle_append,
      settle_of_not_mem (by simp : Token.madeUpName ∉ [.word ")"])]
    exact .bracketed iht ihu
  | listed _ _ iht ihu =>
    rw [List.append_assoc, settle_append, List.cons_append, settle_cons (by simp), settle_append,
      settle_of_not_mem (by simp : Token.madeUpName ∉ [.word "]"])]
    simpa using Phrase.listed iht ihu
  | minus hminus _ ih =>
    rw [settle_cons (by simp)]
    exact .minus (startsWithMinus_settle.trans hminus) ih

end Settling

theorem toList_join_tokenTexts (aliasPrefix : String) (number : Nat) (ts : List Token) :
    (String.join (tokenTexts aliasPrefix number ts)).toList =
      spelling (settle aliasPrefix number ts) := by
  rw [String.toList_join]
  induction ts generalizing number with
  | nil => rfl
  | cons t rest ih =>
    rw [tokenTexts, List.flatMap_cons, ih]
    cases t <;> rfl

/-- The prefix matters to made-up names only, and those are names once they are settled. -/
theorem render_settle (p q : String) (ts : List Token) :
    render q (settle p 0 ts) = render p ts := by
  apply String.toList_injective
  rw [render, render, toList_join_tokenTexts, toList_join_tokenTexts,
    settle_of_not_mem madeUpName_not_mem_settle]

theorem ofText?_render {raw : Token → Prop} {words : List String} {ts : List Token}
    (aliasPrefix : String) (h : Phrase raw words ts)
    (hraw : ∀ t, raw t → Lexeme.Complete t.chars) :
    Lexeme.ofText? (render aliasPrefix ts) = some (lexemesOf (settle aliasPrefix 0 ts)) := by
  have hscans : Scans (settle aliasPrefix 0 ts) := h.settle.scans hraw
  have hchars := toList_join_tokenTexts aliasPrefix 0 ts
  rw [render, Lexeme.ofText?_eq (by rw [hchars]; exact hscans.complete), hchars, hscans.lexemes]

end StorePlan.Sql
