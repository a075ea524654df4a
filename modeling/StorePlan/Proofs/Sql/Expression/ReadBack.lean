import StorePlan.Proofs.Sql.Expression.Nesting
import StorePlan.Proofs.Sql.Expression.Reading
import StorePlan.Proofs.Sql.Wording

/-
What is read back of the lexemes of an expression: the expression as it is
regrouped by the brackets that were left out.
-/

namespace StorePlan.Sql.Reading

open Lexeme Expression

variable {least place : Nat} {ls rest : List Lexeme} {e : Expression}

/-! ## What follows an expression -/

/-- Whether a lexeme behind a leaf could be taken for a part of it. -/
def continues : Lexeme → Bool
  | .sign s => s == "." || s == "("
  | .word w => w == "TO"
  | .quoted _ _ => true
  | .number _ => false

/-- What may follow an expression that is read with a least strength: nothing that belongs to its
last leaf, and no operator that is strong enough. -/
structure Follows (least : Nat) (rest : List Lexeme) : Prop where
  leaf : ∀ l ∈ rest.head?, continues l = false
  connector : ∀ op rest', connector? rest = some (op, rest') → op.precedence < least

theorem Follows.mono {more : Nat} (h : Follows least rest) (hle : least ≤ more) :
    Follows more rest :=
  ⟨h.leaf, fun op rest' hop => Nat.lt_of_lt_of_le (h.connector op rest' hop) hle⟩

theorem follows_nil : Follows least [] := ⟨by simp, by simp [connector?]⟩

/-- Lexemes behind which another part of an expression begins, or the expression ends. -/
def dividers : List Lexeme :=
  [.sign ")", .sign ",", .word "AS", .word "WHEN", .word "THEN", .word "ELSE", .word "END"]

theorem follows_divider {l : Lexeme} (h : l ∈ dividers) : Follows least (l :: rest) := by
  simp only [dividers, List.mem_cons, List.not_mem_nil, or_false] at h
  rcases h with rfl | rfl | rfl | rfl | rfl | rfl | rfl <;>
    exact ⟨by simp [continues], by simp [connector?]⟩

theorem readChain_of_follows (h : Follows least rest) :
    readChain least e rest = some (e, rest) := by
  rw [readChain]
  cases hop : connector? rest with
  | none => rfl
  | some found =>
    obtain ⟨op, rest'⟩ := found
    exact if_pos (h.connector op rest' hop)

theorem connector?_lexemes {op : Op} (h : op.layout = .binary ∨ op.layout = .trailing)
    (rest : List Lexeme) : connector? (op.lexemes ++ rest) = some (op, rest) := by
  cases op <;> first | rfl | (rcases h with h | h <;> cases h)

theorem follows_lexemes {op : Op} (h : op.layout = .binary ∨ op.layout = .trailing)
    (hlt : op.precedence < least) : Follows least (op.lexemes ++ rest) := by
  refine ⟨fun l hl => ?_, fun op' rest' hop => ?_⟩
  · cases op <;> first | (cases hl; rfl) | (rcases h with h | h <;> cases h)
  · rw [connector?_lexemes h] at hop
    cases hop
    exact hlt

theorem lexemes_ne_nil {op : Op} (h : op.layout = .binary ∨ op.layout = .trailing) :
    op.lexemes ≠ [] := by
  intro hnil
  have := connector?_lexemes h []
  rw [hnil] at this
  cases this

/-- Behind an operand comes an operator between operands. -/
theorem readChain_binary {op : Op} (h : op.layout = .binary) (hle : least ≤ op.precedence) :
    readChain least e (op.lexemes ++ rest) =
      andThen rest (readExpression (op.precedence + 1) rest) fun right rest _ =>
        readChain least (.binary op e right) rest := by
  rw [readChain, connector?_lexemes (.inl h)]
  simp only
  rw [if_neg (Nat.not_lt.2 hle), andThen_some (length_lt_append (lexemes_ne_nil (.inl h)) rest)]
  cases op <;> first | rfl | cases h

/-! ## Leaves -/

theorem part?_partLexeme (part : String) : part? (partLexeme part) = some part := by
  unfold partLexeme
  split_ifs with h
  · rw [h]
    rfl
  · rfl

theorem parts?_single {l : Lexeme} {part : String} (hl : part? l = some part)
    (h : ∀ l ∈ rest.head?, continues l = false) : parts? (l :: rest) = some ([part], rest) := by
  unfold parts?
  split
  · rename_i heq
    cases heq
    cases h _ rfl
  · rename_i heq
    cases heq
    rw [hl]
    rfl
  · rename_i heq
    cases heq

theorem parts?_nameLexemes (h : ∀ l ∈ rest.head?, continues l = false) :
    ∀ parts : List String, parts ≠ [] → parts? (nameLexemes parts ++ rest) = some (parts, rest)
  | [], hne => absurd rfl hne
  | [part], _ => parts?_single (part?_partLexeme part) h
  | part :: next :: more, _ => by
    have ih := parts?_nameLexemes h (next :: more) (by simp)
    simp [nameLexemes, parts?, part?_partLexeme, ih]

theorem opening?_name (h : ∀ l ∈ rest.head?, continues l = false) {parts : List String}
    (hne : parts ≠ []) :
    opening? (nameLexemes parts ++ rest) = some (.leaf (.name parts), rest) := by
  have hparts := parts?_nameLexemes h parts hne
  have hhead : ∃ part more, nameLexemes parts ++ rest = partLexeme part :: more := by
    cases parts with
    | nil => exact absurd rfl hne
    | cons part more =>
      cases more with
      | nil => exact ⟨part, rest, rfl⟩
      | cons next more => exact ⟨part, _, rfl⟩
  obtain ⟨part, more, hlist⟩ := hhead
  have hopening : opening? (partLexeme part :: more) =
      (parts? (partLexeme part :: more)).map fun r => (.leaf (.name r.1), r.2) := by
    unfold partLexeme
    split_ifs <;> rfl
  rw [hlist, hopening, ← hlist, hparts]
  rfl

theorem opening?_number {t : String} (h : numeral? ls = some (t, rest)) :
    opening? ls = some (.leaf (.number t), rest) := by
  have hopening : opening? ls =
      (numeral? ls).map fun r => (.leaf (.number r.1), r.2) := by
    unfold numeral? at h
    split at h
    · rfl
    · unfold unpointed? at h
      split at h
      · rfl
      · cases h
  rw [hopening, h]
  rfl

theorem qualifier?_ofChars (h : ∀ l ∈ rest.head?, continues l = false) (q : IntervalQualifier) :
    qualifier? (ofChars q.text.toList ++ rest) = some (q, rest) := by
  have single (u : String) :
      qualifier? (.word u :: rest) = (IntervalQualifier.ofWords? [u]).map (·, rest) := by
    unfold qualifier?
    split
    · rename_i heq
      cases heq
      cases h _ rfl
    · rename_i heq
      cases heq
      rfl
    · rename_i hne
      exact absurd rfl (hne u rest)
  cases q with
  | year | month | day | hour | minute | second => exact single _
  | _ => rfl

theorem opening?_constant (h : ∀ l ∈ rest.head?, continues l = false) {w : String}
    (hw : constants.contains w = true) :
    opening? (.word w :: rest) = some (.leaf (.constant w), rest) := by
  have hother : w ≠ "NOT" ∧ w ≠ "CASE" ∧ w ≠ "CAST" ∧ w ≠ "INTERVAL" := by
    refine ⟨?_, ?_, ?_, ?_⟩ <;> rintro rfl <;> cases hw
  obtain ⟨hnot, hcase, hcast, hinterval⟩ := hother
  rw [opening?]
  unfold wordOpening?
  split
  · contradiction
  · contradiction
  · contradiction
  · contradiction
  · cases h _ rfl
  · cases h _ rfl
  · exact if_pos hw

theorem opening?_leaf {l : Leaf} (hl : l.isRegular = true)
    (h : ∀ l ∈ rest.head?, continues l = false) :
    opening? (l.lexemes ++ rest) = some (.leaf l, rest) := by
  cases l with
  | name parts => exact opening?_name h (by simpa [Leaf.isRegular] using hl)
  | constant w => exact opening?_constant h hl
  | number t =>
    have hnumeral : isNumeral t.toList = true := hl
    have := (numeral?_ofChars hnumeral).2 rest
    rw [String.ofList_toList] at this
    exact opening?_number this
  | string s => rfl
  | dated w s =>
    have hw : w ∈ datedTypes := List.contains_iff_mem.1 hl
    simp only [datedTypes, List.mem_cons, List.not_mem_nil, or_false] at hw
    rcases hw with rfl | rfl | rfl <;> rfl
  | interval s q =>
    have := qualifier?_ofChars h q
    simp [Leaf.lexemes, opening?, wordOpening?, stringQuote, this]
  | parameter => rfl

theorem readExpression_of_readOperand {e : Expression}
    (h : readOperand least ls = some (e, rest)) (hlt : rest.length < ls.length) :
    readExpression least ls = readChain least e rest := by
  rw [readExpression, h, andThen_some hlt]

theorem leaf_lexemes_ne_nil {l : Leaf} (hl : l.isRegular = true) : l.lexemes ≠ [] := by
  intro hnil
  have hend : ∀ l ∈ ([] : List Lexeme).head?, continues l = false := by simp
  have hopening := opening?_leaf hl hend
  rw [hnil] at hopening
  cases hopening

theorem readExpression_leaf {l : Leaf} (hl : l.isRegular = true) (h : Follows least rest) :
    readExpression place (l.lexemes ++ rest) = readChain place (.leaf l) rest := by
  have hlt := length_lt_append (leaf_lexemes_ne_nil hl) rest
  refine readExpression_of_readOperand ?_ hlt
  rw [readOperand, opening?_leaf hl h.leaf, andThen_some hlt]

/-! ## Operands in their places -/

/-- The lexemes of an expression are read back as the regrouped expression, and what is strong
enough behind it as operators. -/
def ReadsAlone (e : Expression) : Prop :=
  ∀ ⦃least : Nat⦄ ⦃rest : List Lexeme⦄, least ≤ e.precedence → Follows (e.precedence + 1) rest →
    readExpression least (e.lexemes ++ rest) = readChain least e.regrouped rest

/-- As the right operand of an associative operator, an expression is grafted onto what has been
read. -/
def ReadsGrafted (e : Expression) : Prop :=
  ∀ ⦃op : Op⦄ ⦃left : Expression⦄ ⦃least : Nat⦄ ⦃rest : List Lexeme⦄, op.isAssociative = true →
    least ≤ op.precedence → Follows (op.precedence + 1) rest →
      andThen (e.placed op.precedence ++ rest)
          (readExpression (op.precedence + 1) (e.placed op.precedence ++ rest))
          (fun right rest _ => readChain least (.binary op left right) rest) =
        readChain least (graft op left e.regrouped) rest

theorem readExpression_inBrackets {e' : Expression} (hne : ls ≠ [])
    (h : readExpression 0 (ls ++ .sign ")" :: rest) = some (e', .sign ")" :: rest)) :
    readExpression least (inBrackets ls ++ rest) = readChain least e' rest := by
  have hlist : inBrackets ls ++ rest = .sign "(" :: (ls ++ .sign ")" :: rest) := by
    simp [inBrackets]
  refine readExpression_of_readOperand ?_ (by simp [inBrackets]; omega)
  rw [hlist, readOperand, opening?, andThen_some (by simp)]
  simp only
  rw [h, andThen_some (length_lt_append hne _), expect?_self, andThen_some (by simp)]

namespace ReadsAlone

/-- Something is read. -/
theorem ne_nil (h : ReadsAlone e) : e.lexemes ≠ [] := by
  intro hnil
  have hread := h (Nat.zero_le _) follows_nil
  rw [hnil, readExpression, readOperand, readChain] at hread
  cases hread

theorem length_lt (h : ReadsAlone e) (rest : List Lexeme) :
    rest.length < (e.lexemes ++ rest).length := length_lt_append h.ne_nil rest

theorem free (h : ReadsAlone e) (hfollows : Follows 0 rest) :
    readExpression 0 (e.lexemes ++ rest) = some (e.regrouped, rest) :=
  (h (Nat.zero_le _) (hfollows.mono (Nat.zero_le _))).trans (readChain_of_follows hfollows)

theorem placed (h : ReadsAlone e) (hle : least ≤ place) (hfollows : Follows (place + 1) rest) :
    readExpression least (e.placed place ++ rest) = readChain least e.regrouped rest := by
  unfold Expression.placed Expression.enclosed
  split_ifs with hlt
  · exact readExpression_inBrackets h.ne_nil (h.free (follows_divider (by simp [dividers])))
  · exact h (by omega) (hfollows.mono (by omega))

theorem length_lt_placed (h : ReadsAlone e) (rest : List Lexeme) :
    rest.length < (e.placed place ++ rest).length := by
  refine length_lt_append ?_ rest
  unfold Expression.placed Expression.enclosed
  split_ifs
  · simp [inBrackets]
  · exact h.ne_nil

/-- An operand in the place of a least strength is read as a whole. -/
theorem whole (h : ReadsAlone e) (hfollows : Follows least rest) :
    readExpression least (e.placed least ++ rest) = some (e.regrouped, rest) :=
  (h.placed (Nat.le_refl _) (hfollows.mono (Nat.le_succ _))).trans (readChain_of_follows hfollows)

end ReadsAlone

/-! ## Operators between operands -/

theorem operandPrecedence_left {op : Op} (h : op.layout = .binary) :
    op.operandPrecedence 0 = op.precedence := by
  simp [Op.operandPrecedence, h]

theorem operandPrecedence_right {op : Op} (h : op.layout = .binary) :
    op.operandPrecedence 1 = if op.isAssociative then op.precedence else op.precedence + 1 := by
  simp [Op.operandPrecedence, h]

theorem lexemes_binary {op : Op} {l r : Expression} (h : op.layout = .binary) :
    (binary op l r).lexemes = l.placed op.precedence ++ op.lexemes ++
      r.placed (if op.isAssociative then op.precedence else op.precedence + 1) := by
  rw [lexemes, operandPrecedence_left h, operandPrecedence_right h]
  rfl

/-- Behind what has been read, an operator and its right operand. -/
theorem readChain_right {op : Op} {left r : Expression} (h : op.layout = .binary)
    (halone : ReadsAlone r) (hgrafted : ReadsGrafted r) (hle : least ≤ op.precedence)
    (hfollows : Follows (op.precedence + 1) rest) :
    readChain least left (op.lexemes ++
        (r.placed (if op.isAssociative then op.precedence else op.precedence + 1) ++ rest)) =
      readChain least
        (if op.isAssociative then graft op left r.regrouped else binary op left r.regrouped)
        rest := by
  rw [readChain_binary h hle]
  by_cases hassoc : op.isAssociative = true
  · rw [if_pos hassoc, if_pos hassoc]
    exact hgrafted hassoc hle hfollows
  · rw [if_neg hassoc, if_neg hassoc, halone.whole hfollows,
      andThen_some (halone.length_lt_placed rest)]

theorem readsAlone_binary {op : Op} {l r : Expression} (h : op.layout = .binary)
    (hl : ReadsAlone l) (hr : ReadsAlone r) (hgrafted : ReadsGrafted r) :
    ReadsAlone (binary op l r) := by
  intro least rest hle hfollows
  have hle : least ≤ op.precedence := hle
  have hfollows : Follows (op.precedence + 1) rest := hfollows
  rw [lexemes_binary h, List.append_assoc, List.append_assoc,
    hl.placed hle (follows_lexemes (.inl h) (Nat.lt_succ_self _)), readChain_right h hr hgrafted hle hfollows,
    regrouped]

/-- The operators as strong as an associative one stand between operands. -/
theorem layout_of_same {op op' : Op} (h : op.isAssociative = true)
    (hsame : op'.precedence = op.precedence) : op'.layout = .binary := by
  cases op <;> cases h <;> cases op' <;> first | rfl | cases hsame

theorem precedence_lt_leafPrecedence {op : Op} (h : op.isAssociative = true) :
    op.precedence < Op.leafPrecedence := by
  cases op <;> first | decide | cases h

/-- An operand of another strength is read as a whole. -/
theorem readsGrafted_of_ne {op : Op} {left : Expression} (h : ReadsAlone e)
    (hne : e.precedence ≠ op.precedence) (hfollows : Follows (op.precedence + 1) rest) :
    andThen (e.placed op.precedence ++ rest)
        (readExpression (op.precedence + 1) (e.placed op.precedence ++ rest))
        (fun right rest _ => readChain least (.binary op left right) rest) =
      readChain least (graft op left e.regrouped) rest := by
  have hplaced : e.placed op.precedence = e.placed (op.precedence + 1) := by
    unfold Expression.placed Expression.enclosed
    split_ifs <;> first | rfl | omega
  rw [hplaced, h.whole hfollows, graft_of_other (by rwa [precedence_regrouped]),
    andThen_some (h.length_lt_placed rest)]

theorem readsGrafted_binary {op : Op} {l r : Expression} (h : op.layout = .binary)
    (halone : ReadsAlone (binary op l r)) (hl : ReadsGrafted l) (hr : ReadsAlone r)
    (hgrafted : ReadsGrafted r) : ReadsGrafted (binary op l r) := by
  intro op' left least rest hassoc hle hfollows
  by_cases hsame : op.precedence = op'.precedence
  · have hplaced : (binary op l r).placed op'.precedence = (binary op l r).lexemes :=
      if_neg (by rw [← hsame]; exact Nat.lt_irrefl _)
    rw [hplaced, lexemes_binary h, List.append_assoc, List.append_assoc, hsame,
      hl hassoc hle (follows_lexemes (.inl h) (by omega)), ← hsame,
      readChain_right h hr hgrafted (by omega) (by rwa [hsame]), regrouped]
    split_ifs
    · rw [graft_graft hsame]
    · rw [graft_of_same hsame]
  · exact readsGrafted_of_ne halone hsame hfollows

/-! ## Lists of operands -/

theorem allRegrouped_eq_map (es : List Expression) :
    allRegrouped es = es.map Expression.regrouped := by
  induction es with
  | nil => rfl
  | cons e rest ih => rw [allRegrouped, ih, List.map_cons]

theorem readItems_listed {e : Expression} {es : List Expression}
    (h : ∀ e' ∈ e :: es, ReadsAlone e') (rest : List Lexeme) :
    readItems (listed ((e :: es).map Expression.lexemes) ++ .sign ")" :: rest) =
      some ((e :: es).map Expression.regrouped, rest) := by
  induction es generalizing e with
  | nil =>
    have he : ReadsAlone e := h e (by simp)
    have hclosing : Follows 0 (.sign ")" :: rest) := follows_divider (by simp [dividers])
    rw [List.map_singleton, listed, readItems, he.free hclosing, andThen_some (he.length_lt _)]
    rfl
  | cons next more ih =>
    have he : ReadsAlone e := h e (by simp)
    have ih := ih fun e' he' => h e' (List.mem_cons_of_mem e he')
    have hne : listed ((next :: more).map Expression.lexemes) ≠ [] := by
      have hnext : ReadsAlone next := h next (by simp)
      cases more with
      | nil => simpa [listed] using hnext.ne_nil
      | cons _ _ => simp [listed]
    have hlist : listed ((e :: next :: more).map Expression.lexemes) ++ .sign ")" :: rest =
        e.lexemes ++ .sign "," ::
          (listed ((next :: more).map Expression.lexemes) ++ .sign ")" :: rest) := by
      simp [listed]
    rw [hlist, readItems, he.free (follows_divider (by simp [dividers])),
      andThen_some (he.length_lt _), expect?_of_ne (by simp)]
    simp only
    rw [expect?_self, andThen_some (by simp), ih,
      andThen_some (Nat.lt_trans (by simp) (length_lt_append hne _))]
    rfl

theorem parts?_eq_none {l : Lexeme} (h : part? l = none) : parts? (l :: rest) = none := by
  unfold parts?
  split
  · rename_i heq
    cases heq
    rw [h]
    rfl
  · rename_i heq
    cases heq
    rw [h]
    rfl
  · rfl

/-- No operand begins with a closing bracket. -/
theorem opening?_closing : opening? (.sign ")" :: rest) = none :=
  (congrArg _ (parts?_eq_none rfl) : _ = Option.map _ none)

theorem readExpression_of_opening?_eq_none (h : opening? ls = none) :
    readExpression least ls = none := by
  rw [readExpression, readOperand, h]
  rfl

theorem readItems_of_opening?_eq_none (h : opening? ls = none) : readItems ls = none := by
  rw [readItems, readExpression_of_opening?_eq_none h]
  rfl

theorem readArguments_of_readItems {es : List Expression} (h : readItems ls = some (es, rest)) :
    readArguments ls = some (es, rest) := by
  rw [readArguments.eq_def]
  split
  · rw [readItems_of_opening?_eq_none opening?_closing] at h
    cases h
  · exact h

theorem readArguments_listed {es : List Expression} (h : ∀ e ∈ es, ReadsAlone e)
    (rest : List Lexeme) :
    readArguments (listed (es.map Expression.lexemes) ++ .sign ")" :: rest) =
      some (es.map Expression.regrouped, rest) := by
  cases es with
  | nil =>
    rw [readArguments.eq_def]
    rfl
  | cons e es => exact readArguments_of_readItems (readItems_listed h rest)

theorem length_lt_bracketed (ls rest : List Lexeme) :
    rest.length < (ls ++ .sign ")" :: rest).length := by
  rw [List.length_append, List.length_cons]
  omega

/-! ## Frames -/

/-- No operand begins with `WHEN` or `DISTINCT`. -/
theorem opening?_word {w : String} (h : w = "WHEN" ∨ w = "DISTINCT") :
    opening? (.word w :: rest) = none := by
  rw [opening?]
  unfold wordOpening?
  split
  · exact absurd h (by decide)
  · exact absurd h (by decide)
  · exact absurd h (by decide)
  · exact absurd h (by decide)
  · rcases h with rfl | rfl <;> rfl
  · rcases h with rfl | rfl <;> rfl
  · rcases h with rfl | rfl <;> rfl

theorem readsAlone_leading {op : Op} (hop : op.layout = .leading) (h : ReadsAlone e) :
    ReadsAlone (frame (.operator op) [e]) := by
  intro least rest hle hfollows
  have hle : least ≤ op.precedence := hle
  have hfollows : Follows (op.precedence + 1) rest := hfollows
  have hopening : ∃ l, op.lexemes = [l] ∧ ∀ ls, opening? (l :: ls) = some (.leading op, ls) := by
    cases op <;> first | exact ⟨_, rfl, fun _ => rfl⟩ | cases hop
  obtain ⟨l, hl, hopening⟩ := hopening
  have hlexemes : (frame (.operator op) [e]).lexemes ++ rest =
      op.lexemes ++ (e.placed (op.precedence + 1) ++ rest) := by
    cases op <;> first | rfl | cases hop
  have hread : readOperand least (l :: (e.placed (op.precedence + 1) ++ rest)) =
      some (.frame (.operator op) [e.regrouped], rest) := by
    rw [readOperand, hopening, andThen_some (by simp)]
    simp only
    rw [if_neg (Nat.not_lt.2 hle), h.whole hfollows, andThen_some (h.length_lt_placed rest)]
  rw [hlexemes, hl]
  exact readExpression_of_readOperand hread (by simp)

theorem readsAlone_trailing {op : Op} (hop : op.layout = .trailing) (h : ReadsAlone e) :
    ReadsAlone (frame (.operator op) [e]) := by
  intro least rest hle hfollows
  have hle : least ≤ op.precedence := hle
  have hlexemes : (frame (.operator op) [e]).lexemes ++ rest =
      e.placed (op.precedence + 1) ++ (op.lexemes ++ rest) := by
    cases op <;> first | exact List.append_assoc .. | cases hop
  rw [hlexemes, h.placed (by omega) (follows_lexemes (.inr hop) (by omega)), readChain,
    connector?_lexemes (.inr hop)]
  simp only
  rw [if_neg (Nat.not_lt.2 hle), andThen_some (length_lt_append (lexemes_ne_nil (.inr hop)) rest)]
  cases op <;> first | rfl | cases hop

theorem readsAlone_isIn {es : List Expression} (h : ReadsAlone e) (hes : ∀ e ∈ es, ReadsAlone e) :
    ReadsAlone (frame (.operator .isIn) (e :: es)) := by
  intro least rest hle hfollows
  have hle : least ≤ 4 := hle
  have hnlt : ¬Op.isIn.precedence < least := Nat.not_lt.2 hle
  have hlist : operandLexemes (.operator .isIn) 1 es = es.map Expression.lexemes :=
    operandLexemes_eq_map es fun i hi => if_pos ⟨rfl, by omega⟩
  have hlexemes : (frame (.operator .isIn) (e :: es)).lexemes ++ rest =
      e.placed 5 ++ .word "IN" :: .sign "(" ::
        (listed (es.map Expression.lexemes) ++ .sign ")" :: rest) := by
    rw [← hlist]
    simp [lexemes, operandLexemes, Frame.around, Op.around, inBrackets, Expression.placed,
      Frame.operandPrecedence, Op.operandPrecedence, Op.layout, Op.precedence]
  have hnext (ls : List Lexeme) : Follows 6 (.word "IN" :: .sign "(" :: ls) :=
    ⟨by simp [continues], by rintro op rest' h; cases h; decide⟩
  rw [hlexemes, h.placed (by omega) (hnext _), readChain]
  simp only [connector?]
  rw [if_neg hnlt, andThen_some (by simp), readArguments_listed hes,
    andThen_some (length_lt_bracketed _ _), regrouped, allRegrouped, allRegrouped_eq_map]

theorem readsAlone_between {low high : Expression} (h : ReadsAlone e) (hlow : ReadsAlone low)
    (hhigh : ReadsAlone high) : ReadsAlone (frame (.operator .between) [e, low, high]) := by
  intro least rest hle hfollows
  have hle : least ≤ 4 := hle
  have hnlt : ¬Op.between.precedence < least := Nat.not_lt.2 hle
  have hfollows : Follows 5 rest := hfollows
  have hlexemes : (frame (.operator .between) [e, low, high]).lexemes ++ rest =
      e.placed 5 ++ .word "BETWEEN" ::
        (low.placed 5 ++ .word "AND" :: (high.placed 5 ++ rest)) := by
    simp [lexemes, operandLexemes, Frame.around, Op.around, Expression.placed,
      Frame.operandPrecedence, Op.operandPrecedence, Op.layout, Op.precedence]
  have hnext (ls : List Lexeme) : Follows 6 (.word "BETWEEN" :: ls) :=
    ⟨by simp [continues], by rintro op rest' h; cases h; decide⟩
  have hand (ls : List Lexeme) : Follows 5 (.word "AND" :: ls) :=
    ⟨by simp [continues], by rintro op rest' h; cases h; decide⟩
  rw [hlexemes, h.placed (by omega) (hnext _), readChain]
  simp only [connector?]
  rw [if_neg hnlt, andThen_some (by simp)]
  simp only [Op.precedence]
  rw [hlow.whole (hand _), andThen_some (hlow.length_lt_placed _), expect?_self,
    andThen_some (by simp), hhigh.whole hfollows, andThen_some (hhigh.length_lt_placed _)]
  rfl

theorem behindBracket?_append {depth behind : Nat} (more : List Lexeme) :
    ∀ ls : List Lexeme, depthBehind? [] depth ls = some behind →
      behindBracket? depth (ls ++ more) =
        (behindBracket? behind more).map fun (inner, rest) => (ls ++ inner, rest)
  | [], h => by
    cases h
    simp
  | l :: ls, h => by
    rw [depthBehind?_cons] at h
    rw [List.cons_append, behindBracket?.eq_def]
    simp only
    split_ifs at h ⊢ with hopening hclosing hword
    · simp [behindBracket?_append more ls h, Function.comp_def]
    · cases depth with
      | zero => cases h
      | succ depth =>
        simp only at h
        simp [behindBracket?_append more ls h, Function.comp_def]
    · simp [behindBracket?_append more ls h, Function.comp_def]

theorem readsAlone_cast {target : List Lexeme} (htarget : Level [] target) (h : ReadsAlone e) :
    ReadsAlone (frame (.cast target) [e]) := by
  intro least rest hle hfollows
  have hlexemes : (frame (.cast target) [e]).lexemes ++ rest =
      .word "CAST" :: .sign "(" ::
        (e.lexemes ++ .word "AS" :: (target ++ .sign ")" :: rest)) := by
    simp [lexemes, operandLexemes, Frame.around, Frame.operandPrecedence, Expression.enclosed,
      inBrackets, listed]
  have hclosing : behindBracket? 0 (target ++ .sign ")" :: rest) = some (target, rest) := by
    rw [behindBracket?_append _ target htarget]
    simp [behindBracket?, isOpening, isClosing]
  rw [hlexemes]
  refine readExpression_of_readOperand ?_ (by simp; omega)
  rw [readOperand, opening?, wordOpening?, andThen_some (by simp)]
  simp only
  rw [h.free (follows_divider (by simp [dividers])), andThen_some (h.length_lt _), expect?_self,
    andThen_some (by simp), hclosing, andThen_some (length_lt_bracketed _ _)]
  rfl

theorem opening?_call {name : String} (h : isFunctionName name = true) (rest : List Lexeme) :
    opening? (.word name :: .sign "(" :: rest) = some (callOpening name rest) := by
  rw [isFunctionName, Bool.and_eq_true, Bool.not_eq_true'] at h
  rw [opening?]
  unfold wordOpening?
  split
  · exact absurd h.2 (by decide)
  · exact absurd h.2 (by decide)
  · exact absurd h.2 (by decide)
  · rename_i heq
    cases heq
  · rename_i heq
    cases heq
    rw [if_neg (by rw [h.2]; simp)]
  · rename_i heq
    cases heq
  · rename_i hcalled _ _ _
    exact absurd rfl (hcalled rest)

theorem readArguments_distinct : readArguments (.word "DISTINCT" :: rest) = none := by
  rw [readArguments.eq_def]
  exact readItems_of_opening?_eq_none (opening?_word (.inr rfl))

/-- The arguments of a call begin with no `DISTINCT` of their own. -/
theorem callOpening_arguments {name : String} {distinct : Bool} {es : List Expression}
    (h : readArguments ls = some (es, rest)) :
    callOpening name ((if distinct then [.word "DISTINCT"] else []) ++ ls) =
      (.call name distinct, ls) := by
  cases distinct with
  | true => rfl
  | false =>
    rw [if_neg (by simp), List.nil_append]
    unfold callOpening
    split
    · rw [readArguments_distinct] at h
      cases h
    · rfl

theorem readsAlone_call {name : String} {distinct : Bool} {es : List Expression}
    (hname : isFunctionName name = true) (h : ∀ e ∈ es, ReadsAlone e) :
    ReadsAlone (frame (.call name distinct) es) := by
  intro least rest hle hfollows
  have harguments := readArguments_listed h rest
  have hlexemes : (frame (.call name distinct) es).lexemes ++ rest =
      .word name :: .sign "(" :: ((if distinct then [.word "DISTINCT"] else []) ++
        (listed (es.map Expression.lexemes) ++ .sign ")" :: rest)) := by
    rw [lexemes, operandLexemes_eq_map es fun _ _ => rfl]
    simp [Frame.around, inBrackets]
  rw [hlexemes]
  refine readExpression_of_readOperand ?_ (by simp; omega)
  rw [readOperand, opening?_call hname, callOpening_arguments harguments,
    andThen_some (by simp; omega)]
  simp only
  rw [harguments, andThen_some (length_lt_bracketed _ _), regrouped, allRegrouped_eq_map]

/-- What follows a result is a divider. -/
theorem branchLexemes_eq_cons (lss : List (List Lexeme)) :
    ∃ l ls, branchLexemes lss = l :: ls ∧ l ∈ dividers := by
  cases lss with
  | nil => exact ⟨_, _, rfl, by simp [dividers]⟩
  | cons condition lss =>
    cases lss with
    | nil => exact ⟨_, _, rfl, by simp [dividers]⟩
    | cons result lss => exact ⟨_, _, rfl, by simp [dividers]⟩

theorem follows_branchLexemes (lss : List (List Lexeme)) :
    Follows least (branchLexemes lss ++ rest) := by
  obtain ⟨l, ls, hls, hl⟩ := branchLexemes_eq_cons lss
  rw [hls]
  exact follows_divider hl

theorem length_lt_branchLexemes (lss : List (List Lexeme)) (rest : List Lexeme) :
    rest.length < (branchLexemes lss ++ rest).length := by
  obtain ⟨l, ls, hls, -⟩ := branchLexemes_eq_cons lss
  exact length_lt_append (by simp [hls]) rest

theorem readBranches_branchLexemes (rest : List Lexeme) :
    ∀ es : List Expression, (∀ e ∈ es, ReadsAlone e) →
      readBranches (branchLexemes (es.map Expression.lexemes) ++ rest) =
        some (es.map Expression.regrouped, rest)
  | [], _ => by
    rw [readBranches.eq_def]
    rfl
  | [e], h => by
    have he : ReadsAlone e := h e (by simp)
    have hlist : branchLexemes ([e].map Expression.lexemes) ++ rest =
        .word "ELSE" :: (e.lexemes ++ .word "END" :: rest) := by
      simp [branchLexemes]
    rw [hlist, readBranches.eq_def]
    simp only
    rw [he.free (follows_divider (by simp [dividers])), andThen_some (he.length_lt _), expect?_self,
      andThen_some (by simp)]
    rfl
  | condition :: result :: more, h => by
    have hcondition : ReadsAlone condition := h condition (by simp)
    have hresult : ReadsAlone result := h result (by simp)
    have ih := readBranches_branchLexemes rest more fun e he => h e (by simp [he])
    have hlist : branchLexemes ((condition :: result :: more).map Expression.lexemes) ++ rest =
        .word "WHEN" :: (condition.lexemes ++ .word "THEN" ::
          (result.lexemes ++ (branchLexemes (more.map Expression.lexemes) ++ rest))) := by
      simp [branchLexemes]
    rw [hlist, readBranches.eq_def]
    simp only
    rw [hcondition.free (follows_divider (by simp [dividers])),
      andThen_some (hcondition.length_lt _), expect?_self, andThen_some (by simp),
      hresult.free (follows_branchLexemes _), andThen_some (hresult.length_lt _), ih,
      andThen_some (length_lt_branchLexemes _ _)]
    rfl

/-- Behind `CASE` comes a subject unless `WHEN` does. -/
theorem opening?_caseOf (hasSubject : Bool)
    (h : (ls.head? != some (.word "WHEN")) = hasSubject) :
    opening? (.word "CASE" :: ls) = some (.caseOf hasSubject, ls) := by
  rw [opening?, wordOpening?, h]

theorem ReadsAlone.head?_ne_when (h : ReadsAlone e) (rest : List Lexeme) :
    ((e.lexemes ++ rest).head? != some (.word "WHEN")) = true := by
  rw [bne_iff_ne]
  intro hhead
  cases hlexemes : e.lexemes with
  | nil => exact h.ne_nil hlexemes
  | cons l ls =>
    rw [hlexemes] at hhead
    cases hhead
    have hread := h.free follows_nil
    rw [hlexemes, List.cons_append, readExpression_of_opening?_eq_none (opening?_word (.inl rfl))]
      at hread
    cases hread

theorem readsAlone_caseOf {hasSubject : Bool} {es : List Expression}
    (htakes : (Frame.caseOf hasSubject).takes es.length = true) (h : ∀ e ∈ es, ReadsAlone e) :
    ReadsAlone (frame (.caseOf hasSubject) es) := by
  intro least rest hle hfollows
  have hbranches (es : List Expression) (h : ∀ e ∈ es, ReadsAlone e) :=
    readBranches_branchLexemes rest es h
  rw [lexemes, operandLexemes_eq_map es fun _ _ => rfl, regrouped, allRegrouped_eq_map]
  cases hasSubject with
  | false =>
    -- The first branch stands right behind `CASE`.
    have hwhen : ((branchLexemes (es.map Expression.lexemes) ++ rest).head? !=
        some (.word "WHEN")) = false := by
      cases es with
      | nil => cases htakes
      | cons condition es =>
        cases es with
        | nil => cases htakes
        | cons result es => simp [branchLexemes]
    have hlist : Frame.around (.caseOf false) (es.map Expression.lexemes) ++ rest =
        .word "CASE" :: (branchLexemes (es.map Expression.lexemes) ++ rest) := rfl
    rw [hlist]
    refine readExpression_of_readOperand ?_ (by simp)
    rw [readOperand, opening?_caseOf false hwhen, andThen_some (by simp)]
    simp only
    rw [hbranches es h, andThen_some (length_lt_branchLexemes _ _)]
  | true =>
    cases es with
    | nil => cases htakes
    | cons subject es =>
      -- No expression begins with `WHEN`, so the subject is not taken for a branch.
      have hsubject : ReadsAlone subject := h subject (by simp)
      have hes := hbranches es fun e he => h e (List.mem_cons_of_mem subject he)
      have hlist : Frame.around (.caseOf true) ((subject :: es).map Expression.lexemes) ++ rest =
          .word "CASE" :: (subject.lexemes ++
            (branchLexemes (es.map Expression.lexemes) ++ rest)) := by
        simp [Frame.around]
      rw [hlist]
      refine readExpression_of_readOperand ?_ (by simp; omega)
      rw [readOperand, opening?_caseOf true (hsubject.head?_ne_when _), andThen_some (by simp)]
      simp only
      rw [hsubject.free (follows_branchLexemes _), andThen_some (hsubject.length_lt _), hes,
        andThen_some (length_lt_branchLexemes _ _)]
      rfl

theorem readsAlone_frame {f : Frame} {es : List Expression} (htakes : f.takes es.length = true)
    (h : ∀ e ∈ es, ReadsAlone e) : ReadsAlone (frame f es) := by
  cases f with
  | cast target =>
    simp only [Frame.takes, Bool.and_eq_true, beq_iff_eq, decide_eq_true_eq] at htakes
    obtain ⟨e, rfl⟩ := List.length_eq_one_iff.1 htakes.1
    exact readsAlone_cast htakes.2 (h e (by simp))
  | call name distinct => exact readsAlone_call htakes h
  | caseOf hasSubject => exact readsAlone_caseOf htakes h
  | operator op =>
    simp only [Frame.takes, Bool.and_eq_true, bne_iff_ne] at htakes
    obtain ⟨⟨hbinary, hfunction⟩, htakes⟩ := htakes
    cases Op.arranged_of_takes htakes with
    | binary hlayout => exact absurd hlayout hbinary
    | function hlayout => exact absurd hlayout hfunction
    | leading hlayout => exact readsAlone_leading hlayout (h _ (by simp))
    | trailing hlayout => exact readsAlone_trailing hlayout (h _ (by simp))
    | isIn _ => exact readsAlone_isIn (h _ (by simp)) fun e he => h e (List.mem_cons_of_mem _ he)
    | between => exact readsAlone_between (h _ (by simp)) (h _ (by simp)) (h _ (by simp))

theorem precedence_frame_ne {f : Frame} {op : Op} {n : Nat} (htakes : f.takes n = true)
    (hassoc : op.isAssociative = true) : f.precedence ≠ op.precedence := by
  intro hsame
  cases f with
  | operator op' =>
    have hlayout := layout_of_same hassoc hsame
    simp [Frame.takes, hlayout] at htakes
  | cast | call | caseOf => exact absurd hsame (Nat.ne_of_gt (precedence_lt_leafPrecedence hassoc))

/-! ## Trees -/

mutual

theorem readsBack : ∀ e : Expression, e.Regular → ReadsAlone e ∧ ReadsGrafted e
  | .leaf l, h => by
    have halone : ReadsAlone (.leaf l) := fun _ _ _ hfollows => readExpression_leaf h hfollows
    refine ⟨halone, fun op left least rest hassoc _ hfollows => ?_⟩
    have hne := Nat.ne_of_gt (precedence_lt_leafPrecedence hassoc)
    exact readsGrafted_of_ne halone hne hfollows
  | .binary op l r, h => by
    obtain ⟨hlayout, hl, hr⟩ := h
    obtain ⟨hlAlone, hlGrafted⟩ := readsBack l hl
    obtain ⟨hrAlone, hrGrafted⟩ := readsBack r hr
    have halone := readsAlone_binary hlayout hlAlone hrAlone hrGrafted
    exact ⟨halone, readsGrafted_binary hlayout halone hlGrafted hrAlone hrGrafted⟩
  | .frame f es, h => by
    obtain ⟨htakes, hes⟩ := h
    have halone := readsAlone_frame htakes (readsBackAll es hes)
    exact ⟨halone, fun _ _ _ _ hassoc _ hfollows =>
      readsGrafted_of_ne halone (precedence_frame_ne htakes hassoc) hfollows⟩

theorem readsBackAll : ∀ es : List Expression, AllRegular es → ∀ e ∈ es, ReadsAlone e
  | [], _ => by simp
  | e :: rest, h => by
    rw [List.forall_mem_cons]
    exact ⟨(readsBack e h.1).1, readsBackAll rest h.2⟩

end

/-- The lexemes of an expression are read back as the expression that is regrouped by the brackets
that were left out. -/
theorem readText_eq {s : String} (h : e.Regular) (hs : ofText? s = some e.lexemes) :
    readText s = some e.regrouped := by
  have hend : Follows 0 [] := follows_nil
  have hread := (readsBack e h).1.free hend
  rw [List.append_nil] at hread
  simp [readText, hs, hread]

end StorePlan.Sql.Reading
