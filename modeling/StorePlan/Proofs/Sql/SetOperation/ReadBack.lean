import StorePlan.Proofs.Sql.SetOperation.Reading

/-
What is read back of the lexemes of a query. The operands of set operations
come out regrouped. A block that is ordered but not paged stands without
brackets, so that its `ORDER BY` ends the whole query there.
-/

namespace StorePlan.Sql

open Lexeme Reading

/-! ## Contents -/

/-- The contents of clauses have balanced brackets, and nothing ends in them. -/
structure Tail.Regular (t : Tail) : Prop where
  orderBy : ∀ ls ∈ t.orderBy, Level endingWords ls
  offset : ∀ ls ∈ t.offset, Level endingWords ls
  fetch : ∀ ls ∈ t.fetch, Level endingWords ls

namespace Outline

/-- Blocks begin with the words of blocks, and what stands in them has balanced brackets and ends
nowhere. No clauses follow a set operation. -/
def Regular : Outline → Prop
  | block body tail =>
    (∃ w ls, body = .word w :: ls ∧ startingWords.contains w = true) ∧
      Level endingWords body ∧ tail.Regular
  | setOperation _ left right => left.Regular ∧ right.Regular
  | tailed _ _ => False

/-- Whether a block that is followed by clauses stands in brackets beside a set operator. -/
def TailsEnclosed : Outline → Prop
  | block _ tail => tail.isPaged = true ∨ tail = {}
  | setOperation _ left right => left.TailsEnclosed ∧ right.TailsEnclosed
  | tailed _ _ => True

variable {style : Pagination} {least : Nat} {ls rest : List Lexeme} {q : Outline}

/-! ## Where parts end -/

/-- Whether what stands in front of a lexeme ends there. -/
def isEnding (l : Lexeme) : Bool := l.isClosing || l.isOneOf endingWords

/-- Lexemes in front of which a part of a query ends. -/
def Ends (rest : List Lexeme) : Prop := ∀ l ∈ rest.head?, isEnding l = true

theorem isOpening_of_isEnding {l : Lexeme} (h : isEnding l = true) : l.isOpening = false := by
  cases l with
  | sign s =>
    by_contra hopen
    simp only [isOpening, Bool.not_eq_false, Bool.or_eq_true, beq_iff_eq, sign.injEq] at hopen
    rcases hopen with rfl | rfl <;> exact absurd h (by decide)
  | _ => rfl

theorem untilEnding_of_ends (h : Ends rest) : untilEnding 0 rest = ([], rest) := by
  cases rest with
  | nil => rfl
  | cons l ls =>
    have hl : isEnding l = true := h l rfl
    rw [untilEnding, if_neg (by simp [isOpening_of_isEnding hl])]
    rw [isEnding, Bool.or_eq_true] at hl
    split_ifs with hclosing hword
    · rfl
    · rfl
    · exact absurd ⟨rfl, hl.resolve_left hclosing⟩ hword

theorem untilEnding_append {depth behind : Nat} (more : List Lexeme) :
    depthBehind? endingWords depth ls = some behind →
      untilEnding depth (ls ++ more) = (untilEnding behind more).map (ls ++ ·) id := by
  induction ls generalizing depth with
  | nil =>
    rintro ⟨⟩
    rfl
  | cons l ls ih =>
    intro h
    rw [depthBehind?_cons] at h
    rw [List.cons_append, untilEnding.eq_def]
    simp only
    split_ifs at h ⊢ with hopening hclosing hword
    · rw [ih h]
      rfl
    · cases depth with
      | zero => cases h
      | succ depth =>
        simp only at h ⊢
        rw [ih h]
        rfl
    · rw [ih h]
      rfl

theorem untilEnding_level (h : Level endingWords ls) (hrest : Ends rest) :
    untilEnding 0 (ls ++ rest) = (ls, rest) := by
  rw [untilEnding_append rest h, untilEnding_of_ends hrest]
  simp

/-! ## Clauses -/

/-- A clause is told apart by the words at its ends. -/
structure Sound (c : Clause) : Prop where
  opening : ∃ l ls, c.opening = l :: ls ∧ isEnding l = true
  closing : Ends c.closing

theorem sound_orderBy : Sound .orderBy := ⟨⟨_, _, rfl, by decide⟩, by rintro l ⟨⟩⟩

theorem sound_offset (style : Pagination) : Sound (.offset style) := by
  cases style <;> exact ⟨⟨_, _, rfl, by decide⟩, by rintro l ⟨⟩ <;> decide⟩

theorem sound_fetch (style : Pagination) : Sound (.fetch style) := by
  cases style <;> exact ⟨⟨_, _, rfl, by decide⟩, by rintro l ⟨⟩ <;> decide⟩

/-- What may follow a clause: nothing that goes on with it, nor the clause itself. -/
structure Clear (c : Clause) (rest : List Lexeme) : Prop where
  ends : Ends rest
  missing : c.opening.head? ≠ rest.head?

theorem readClause_lexemes {c : Clause} {content : Option (List Lexeme)} (hc : Sound c)
    (hcontent : ∀ ls ∈ content, Level endingWords ls) (h : Clear c rest) :
    readClause c (c.lexemes content ++ rest) = (content, rest) := by
  obtain ⟨l, ls, hopening, -⟩ := hc.opening
  cases content with
  | none =>
    have hprefix : c.opening.isPrefixOf? rest = none := by
      rw [hopening]
      cases rest with
      | nil => rfl
      | cons m ms =>
        have hne : l ≠ m := by simpa [hopening] using h.missing
        simp [List.isPrefixOf?, hne]
    rw [Clause.lexemes, List.nil_append, readClause, hprefix]
  | some ls =>
    have hrest : Ends (c.closing ++ rest) := by
      intro l hl
      cases hclosing : c.closing with
      | nil => exact h.ends l (by simpa [hclosing] using hl)
      | cons m ms =>
        refine hc.closing l ?_
        rw [hclosing] at hl ⊢
        exact hl
    have hopening : c.opening.isPrefixOf? (c.opening ++ (ls ++ (c.closing ++ rest))) = some _ :=
      List.isPrefixOf?_eq_some_iff_append_eq.2 rfl
    have hclosing : c.closing.isPrefixOf? (c.closing ++ rest) = some _ :=
      List.isPrefixOf?_eq_some_iff_append_eq.2 rfl
    rw [Clause.lexemes, List.append_assoc, List.append_assoc, readClause, hopening]
    simp only [untilEnding_level (hcontent ls rfl) hrest, hclosing]

theorem clear_lexemes {c other : Clause} {content : Option (List Lexeme)} (ho : Sound other)
    (hne : c.opening.head? ≠ other.opening.head?) (h : Clear c rest) :
    Clear c (other.lexemes content ++ rest) := by
  cases content with
  | none => exact h
  | some ls =>
    obtain ⟨l, ls', hopening, hl⟩ := ho.opening
    rw [hopening] at hne
    rw [Clause.lexemes, hopening]
    exact ⟨fun m hm => Option.some.inj hm ▸ hl, hne⟩

/-- What may follow a whole query. -/
def Closes (rest : List Lexeme) : Prop := ∀ l ∈ rest.head?, l = .sign ")"

theorem Closes.ends (h : Closes rest) : Ends rest := by
  intro l hl
  rw [h l hl]
  decide

theorem Closes.clear {c : Clause} (hc : ∃ w ws, c.opening = .word w :: ws) (h : Closes rest) :
    Clear c rest := by
  obtain ⟨w, ws, hopening⟩ := hc
  refine ⟨h.ends, fun heq => ?_⟩
  rw [hopening] at heq
  cases h _ heq.symm

theorem readTail_lexemes {t : Tail} (ht : t.Regular) (h : Closes rest) :
    readTail style (t.lexemes style ++ rest) = (t, rest) := by
  -- Each clause has to be clear of all that may stand behind it, in the order of the style.
  have hoffset : Clear (.offset style) rest := h.clear (by cases style <;> exact ⟨_, _, rfl⟩)
  have hfetch : Clear (.fetch style) rest := h.clear (by cases style <;> exact ⟨_, _, rfl⟩)
  have horder : Clear .orderBy (t.boundLexemes style ++ rest) := by
    have horder : Clear .orderBy rest := h.clear ⟨_, _, rfl⟩
    have hne : Clause.orderBy.opening.head? ≠ (Clause.offset style).opening.head? ∧
        Clause.orderBy.opening.head? ≠ (Clause.fetch style).opening.head? := by
      cases style <;> decide
    cases style <;> rw [Tail.boundLexemes, List.append_assoc]
    · exact clear_lexemes (sound_offset _) hne.1 (clear_lexemes (sound_fetch _) hne.2 horder)
    · exact clear_lexemes (sound_fetch _) hne.2 (clear_lexemes (sound_offset _) hne.1 horder)
  rw [readTail, Tail.lexemes, List.append_assoc, readClause_lexemes sound_orderBy ht.orderBy horder]
  cases style with
  | offsetFetch =>
    simp only [Tail.boundLexemes, List.append_assoc]
    rw [readClause_lexemes (sound_offset _) ht.offset
      (clear_lexemes (sound_fetch _) (by decide) hoffset)]
    simp only
    rw [readClause_lexemes (sound_fetch _) ht.fetch hfetch]
  | limitOffset =>
    simp only [Tail.boundLexemes, List.append_assoc]
    rw [readClause_lexemes (sound_fetch _) ht.fetch
      (clear_lexemes (sound_offset _) (by decide) hfetch)]
    simp only
    rw [readClause_lexemes (sound_offset _) ht.offset hoffset]

/-! ## Operands -/

/-- What follows a query up to its clauses: the clauses, or what closes it. -/
def Stops (rest : List Lexeme) : Prop :=
  ∀ l ∈ rest.head?,
    l ∈ [.sign ")", .word "ORDER", .word "OFFSET", .word "FETCH", .word "LIMIT"]

theorem Stops.ends (h : Stops rest) : Ends rest := by
  intro l hl
  have : ∀ l ∈ [.sign ")", .word "ORDER", .word "OFFSET", .word "FETCH", .word "LIMIT"],
      isEnding l = true := by decide
  exact this l (h l hl)

theorem Stops.setOperator? (h : Stops rest) : setOperator? rest = none := by
  cases rest with
  | nil => rfl
  | cons l ls =>
    have hl := h l rfl
    simp only [List.mem_cons, List.not_mem_nil, or_false] at hl
    rcases hl with rfl | rfl | rfl | rfl | rfl <;> rfl

theorem Closes.stops (h : Closes rest) : Stops rest := fun l hl => by simp [h l hl]

theorem stops_lexemes {t : Tail} (h : Stops rest) : Stops (t.lexemes style ++ rest) := by
  obtain ⟨orderBy, offset, fetch⟩ := t
  cases orderBy with
  | some ls => rintro l ⟨⟩; simp
  | none =>
    cases style <;> cases offset <;> cases fetch <;> first | exact h | (rintro l ⟨⟩; simp)

theorem readChain_of_stops (h : Stops rest) : readChain style least q rest = some (q, rest) := by
  rw [readChain, h.setOperator?]

theorem readOperand_body {body : List Lexeme}
    (hstart : ∃ w ls, body = .word w :: ls ∧ startingWords.contains w = true)
    (hbody : Level endingWords body) (h : Ends rest) :
    readOperand style (body ++ rest) = some (block body {}, rest) := by
  obtain ⟨w, ls, rfl, hw⟩ := hstart
  have huntil := untilEnding_level hbody h
  rw [List.cons_append] at huntil ⊢
  rw [readOperand, if_pos hw, huntil]

theorem readOperation_of_readOperand (h : readOperand style ls = some (q, rest))
    (hlt : rest.length < ls.length) :
    readOperation style least ls = readChain style least q rest := by
  rw [readOperation, h, andThen_some hlt]

theorem lexemes_ne_nil (style : Pagination) {body : List Lexeme} {tail : Tail}
    (h : (block body tail).Regular) : (block body tail).lexemes style ≠ [] := by
  obtain ⟨⟨w, ls, rfl, -⟩, -⟩ := h
  simp [lexemes]

theorem withTail_block (body : List Lexeme) (tail : Tail) :
    (block body {}).withTail tail = block body tail := by
  unfold withTail
  split_ifs with h
  · rw [h]
  · rfl

/-- A block with its clauses is read back whole. -/
theorem readQuery_block (style : Pagination) {body : List Lexeme} {tail : Tail}
    (h : (block body tail).Regular) (hrest : Closes rest) :
    readQuery style ((block body tail).lexemes style ++ rest) = some (block body tail, rest) := by
  obtain ⟨hstart, hbody, htail⟩ := h
  have hstops : Stops (tail.lexemes style ++ rest) := stops_lexemes hrest.stops
  have hne : body ≠ [] := by
    obtain ⟨w, ls, rfl, -⟩ := hstart
    simp
  have hlt := length_lt_append hne (tail.lexemes style ++ rest)
  rw [lexemes, List.append_assoc, readQuery,
    readOperation_of_readOperand (readOperand_body hstart hbody hstops.ends) hlt,
    readChain_of_stops hstops, andThen_some hlt, readTail_lexemes htail hrest, withTail_block]

/-- A block beside a set operator is read back whole, unless clauses follow it without brackets. -/
theorem readOperand_block {body : List Lexeme} {tail : Tail} (h : (block body tail).Regular)
    (henclosed : (block body tail).TailsEnclosed) (hrest : Ends rest) :
    readOperand style ((block body tail).operandLexemes style ++ rest) =
      some (block body tail, rest) := by
  unfold operandLexemes beside
  split_ifs with hpaged
  · have hclosing : Closes (.sign ")" :: rest) := by
      rintro l ⟨⟩
      rfl
    have hquery := readQuery_block style h hclosing
    have hlt := length_lt_append (lexemes_ne_nil style h) (.sign ")" :: rest)
    simp only [inBrackets, List.cons_append, List.append_assoc, List.nil_append]
    rw [readOperand, hquery, andThen_some hlt, expect?_self]
    rfl
  · obtain rfl : tail = {} := henclosed.resolve_left hpaged
    rw [lexemes, Tail.lexemes_empty, List.append_nil]
    exact readOperand_body h.1 h.2.1 hrest

/-! ## Operators -/

theorem readOperand_all : readOperand style (.word "ALL" :: ls) = none := by
  rw [readOperand]
  exact if_neg (by decide)

theorem setOperator?_lexemes (op : SetOperator) (h : readOperand style ls = some (q, rest)) :
    setOperator? (op.lexemes ++ ls) = some (op, ls) := by
  cases op with
  | union =>
    change setOperator? (.word "UNION" :: ls) = _
    unfold setOperator?
    split
    · rename_i heq
      cases heq
      rw [readOperand_all] at h
      cases h
    · rename_i heq
      cases heq
      rfl
    · rename_i heq
      simp at heq
    · rename_i heq
      simp at heq
    · rename_i hne _ _
      exact absurd rfl (hne ls)
  | unionAll | intersect | except => rfl

theorem length_lt_lexemes (op : SetOperator) (ls : List Lexeme) :
    ls.length < (op.lexemes ++ ls).length :=
  length_lt_append (by cases op <;> decide) ls

theorem ends_lexemes (op : SetOperator) (ls : List Lexeme) : Ends (op.lexemes ++ ls) := by
  cases op <;> (rintro l ⟨⟩; decide)

/-- An operator that is strong enough is followed by what binds more strongly. -/
theorem readChain_operator {left : Outline} (op : SetOperator)
    (h : readOperand style ls = some (q, rest)) (hlt : rest.length < ls.length)
    (hle : least ≤ op.precedence) :
    readChain style least left (op.lexemes ++ ls) =
      andThen ls (readChain style (op.precedence + 1) q rest) fun right rest _ =>
        readChain style least (.setOperation op left right) rest := by
  rw [readChain, setOperator?_lexemes op h]
  simp only
  rw [if_neg (Nat.not_lt.2 hle), andThen_some (length_lt_lexemes op ls),
    readOperation_of_readOperand h hlt]

/-- An operator that is too weak ends what stands in front of it. -/
theorem readChain_of_lt {left : Outline} (op : SetOperator)
    (h : readOperand style ls = some (q, rest)) (hlt : op.precedence < least) :
    readChain style least left (op.lexemes ++ ls) = some (left, op.lexemes ++ ls) := by
  rw [readChain, setOperator?_lexemes op h]
  exact if_pos hlt

theorem readChain_two (q : Outline) (rest : List Lexeme) :
    readChain style 2 q rest = some (q, rest) := by
  rw [readChain]
  cases setOperator? rest with
  | none => rfl
  | some found => exact if_pos (Nat.lt_succ_of_le found.1.precedence_le)

theorem length_le_of_readChain (ls : List Lexeme) {left : Outline}
    (h : readChain style least left ls = some (q, rest)) : rest.length ≤ ls.length := by
  rw [readChain] at h
  cases hop : setOperator? ls with
  | none =>
    rw [hop] at h
    cases h
    exact Nat.le_refl _
  | some found =>
    obtain ⟨op, more⟩ := found
    rw [hop] at h
    simp only at h
    split_ifs at h
    · cases h
      exact Nat.le_refl _
    · obtain ⟨_, _, heq, hmore, h⟩ := andThen_eq_some h
      cases heq
      obtain ⟨right, behind, -, hbehind, h⟩ := andThen_eq_some h
      have := length_le_of_readChain behind h
      omega
termination_by ls.length

/-! ## Operands and operators by turns -/

/-- Reading on behind operands and operators: what waits goes on when its right operand ends. -/
def resume (style : Pagination) (p : Pending) (ls : List Lexeme) :
    Option (Outline × List Lexeme) :=
  match p.waiting with
  | none => readChain style 0 p.last ls
  | some (left, op) =>
    (readChain style 1 p.last ls).bind fun found =>
      readChain style 0 (.setOperation op left found.1) found.2

theorem resume_of_stops {p : Pending} (h : Stops rest) :
    resume style p rest = some (p.query, rest) := by
  obtain ⟨waiting, last⟩ := p
  cases waiting with
  | none => exact readChain_of_stops h
  | some found =>
    rw [resume]
    simp only [readChain_of_stops h, Option.bind_some]
    rfl

/-- Behind `INTERSECT` comes one operand. -/
theorem readChain_intersect {left : Outline} (h : readOperand style ls = some (q, rest))
    (hlt : rest.length < ls.length) (hle : least ≤ 1) :
    readChain style least left (SetOperator.intersect.lexemes ++ ls) =
      readChain style least (.setOperation .intersect left q) rest := by
  rw [readChain_operator .intersect h hlt hle]
  exact (congrArg (andThen ls · _) (readChain_two q rest)).trans (andThen_some hlt)

/-- Behind the other operators come intersections. -/
theorem readChain_of_ne {left : Outline} {op : SetOperator} (hop : op ≠ .intersect)
    (h : readOperand style ls = some (q, rest)) (hlt : rest.length < ls.length) :
    readChain style 0 left (op.lexemes ++ ls) = resume style ⟨some (left, op), q⟩ rest := by
  rw [readChain_operator op h hlt (Nat.zero_le _), SetOperator.precedence_of_ne hop, resume]
  simp only
  cases hright : readChain style (0 + 1) q rest with
  | none => rfl
  | some found =>
    obtain ⟨right, behind⟩ := found
    have hle := length_le_of_readChain rest hright
    rw [andThen_some (by omega)]
    rfl

theorem resume_add {p : Pending} {op : SetOperator} (h : readOperand style ls = some (q, rest))
    (hlt : rest.length < ls.length) :
    resume style p (op.lexemes ++ ls) = resume style (p.add op q) rest := by
  obtain ⟨waiting, last⟩ := p
  by_cases hop : op = .intersect
  · subst hop
    cases waiting with
    | none => exact readChain_intersect h hlt (by decide)
    | some found =>
      rw [resume]
      simp only [readChain_intersect h hlt (Nat.le_refl 1)]
      rfl
  · rw [Pending.add_of_ne hop]
    cases waiting with
    | none => exact readChain_of_ne hop h hlt
    | some found =>
      have hend : op.precedence < 1 := by
        have := SetOperator.precedence_of_ne hop
        omega
      rw [resume]
      simp only [readChain_of_lt op h hend, Option.bind_some]
      exact readChain_of_ne hop h hlt

/-- Whether a reader goes on behind a first operand as `first` says. -/
def ReadsOn (style : Pagination) (read : List Lexeme → Option (Outline × List Lexeme))
    (first : Outline → Pending) : Prop :=
  ∀ ⦃ls q rest⦄, readOperand style ls = some (q, rest) → rest.length < ls.length →
    read ls = resume style (first q) rest

theorem readsOn_readOperation (style : Pagination) :
    ReadsOn style (readOperation style 0) (Pending.mk none) :=
  fun _ _ _ h hlt => readOperation_of_readOperand h hlt

theorem readsOn_add (p : Pending) (op : SetOperator) :
    ReadsOn style (fun ls => resume style p (op.lexemes ++ ls)) (p.add op) :=
  fun _ _ _ h hlt => resume_add h hlt

theorem operandLexemes_setOperation (op : SetOperator) (left right : Outline) :
    (setOperation op left right).operandLexemes style ++ rest =
      left.operandLexemes style ++ (op.lexemes ++ (right.operandLexemes style ++ rest)) := by
  simp [operandLexemes, beside, isBracketed, lexemes]

theorem operandLexemes_ne_nil {body : List Lexeme} {tail : Tail} (h : (block body tail).Regular) :
    (block body tail).operandLexemes style ≠ [] := by
  unfold operandLexemes beside
  split_ifs
  · simp [inBrackets]
  · exact lexemes_ne_nil style h

variable {read : List Lexeme → Option (Outline × List Lexeme)} {first : Outline → Pending}

/-- All operands of a query are read one after the other, whatever is read before. -/
theorem ReadsOn.operands (hread : ReadsOn style read first) (h : q.Regular)
    (henclosed : q.TailsEnclosed) (hrest : Ends rest) :
    read (q.operandLexemes style ++ rest) = resume style (q.after first) rest := by
  -- Behind the left operand of a set operation it is another reader that meets the right one.
  induction q generalizing read first rest with
  | block body tail =>
    exact hread (readOperand_block h henclosed hrest)
      (length_lt_append (operandLexemes_ne_nil h) rest)
  | setOperation op left right ihl ihr =>
    rw [operandLexemes_setOperation, ihl hread h.1 henclosed.1 (ends_lexemes op _)]
    exact ihr (readsOn_add (left.after first) op) h.2 henclosed.2 hrest
  | tailed query tail => exact h.elim

theorem orderBy_of_not_enclosed {body : List Lexeme} {tail : Tail}
    (h : ¬(block body tail).TailsEnclosed) :
    ∃ keys, tail = { orderBy := some keys, offset := none, fetch := none } := by
  obtain ⟨orderBy, offset, fetch⟩ := tail
  obtain ⟨hpaged, hempty⟩ := not_or.1 h
  cases offset <;> cases fetch <;> first | exact absurd rfl hpaged | skip
  cases orderBy with
  | none => exact absurd rfl hempty
  | some keys => exact ⟨keys, rfl⟩

/-- Reading ends at the first `ORDER BY` without brackets. -/
theorem ReadsOn.orderBy (hread : ReadsOn style read first) (h : q.Regular)
    (henclosed : ¬q.TailsEnclosed) (rest : List Lexeme) :
    ∃ query more, read (q.operandLexemes style ++ rest) =
      some (query, Clause.orderBy.opening ++ more) := by
  induction q generalizing read first rest with
  | block body tail =>
    obtain ⟨hstart, hbody, -⟩ := h
    obtain ⟨keys, rfl⟩ := orderBy_of_not_enclosed henclosed
    have hlexemes : (block body { orderBy := some keys }).operandLexemes style ++ rest =
        body ++ (Clause.orderBy.opening ++ (keys ++ rest)) := by
      cases style <;> simp [operandLexemes, beside, isBracketed, Tail.isPaged, lexemes,
        Tail.lexemes, Tail.boundLexemes, Clause.lexemes, Clause.orderBy]
    have hstops : Stops (Clause.orderBy.opening ++ (keys ++ rest)) := by
      rintro l ⟨⟩
      simp
    have hne : body ≠ [] := by
      obtain ⟨w, ls, rfl, -⟩ := hstart
      simp
    rw [hlexemes, hread (readOperand_body hstart hbody hstops.ends) (length_lt_append hne _),
      resume_of_stops hstops]
    exact ⟨_, _, rfl⟩
  | setOperation op left right ihl ihr =>
    rw [operandLexemes_setOperation]
    by_cases hleft : left.TailsEnclosed
    · rw [hread.operands h.1 hleft (ends_lexemes op _)]
      exact ihr (readsOn_add (left.after first) op) h.2 (fun hright => henclosed ⟨hleft, hright⟩) rest
    · exact ihl hread h.1 hleft _
  | tailed query tail => exact h.elim

/-! ## Whole queries -/

theorem withTail_empty (q : Outline) : q.withTail {} = q := if_pos rfl

/-- Clauses belong to a block, or to a query as a whole. -/
theorem withTail_ne {tail : Tail} (h : tail ≠ {}) (op : SetOperator) (left right : Outline) :
    q.withTail tail ≠ setOperation op left right := by
  unfold withTail
  rw [if_neg h]
  cases q with
  | block body own =>
    simp only
    split_ifs <;> simp
  | _ => simp

theorem readTail_orderBy (style : Pagination) (ls : List Lexeme) :
    (readTail style (Clause.orderBy.opening ++ ls)).1.orderBy = some (untilEnding 0 ls).1 := by
  have hopening : Clause.orderBy.opening.isPrefixOf? (Clause.orderBy.opening ++ ls) = some ls :=
    List.isPrefixOf?_eq_some_iff_append_eq.2 rfl
  have hclause : readClause .orderBy (Clause.orderBy.opening ++ ls) =
      (some (untilEnding 0 ls).1, (untilEnding 0 ls).2) := by
    unfold readClause
    rw [hopening]
    rfl
  rw [readTail, hclause]
  cases style <;> rfl

section SetOperations

variable {op : SetOperator} {left right : Outline}

theorem lexemes_eq_operandLexemes :
    (setOperation op left right).lexemes style =
      (setOperation op left right).operandLexemes style ++ [] :=
  (List.append_nil _).symm

/-- If all blocks with clauses are in brackets, a set operation is read back regrouped. -/
theorem readQuery_setOperation (h : (setOperation op left right).Regular)
    (henclosed : (setOperation op left right).TailsEnclosed) :
    readQuery style ((setOperation op left right).lexemes style) =
      some ((setOperation op left right).regrouped, []) := by
  have hclosed : Closes [] := by rintro l ⟨⟩
  have hoperands := (readsOn_readOperation style).operands h henclosed hclosed.ends
  have hlt : ([] : List Lexeme).length <
      ((setOperation op left right).operandLexemes style ++ []).length := by
    have hop : 0 < op.lexemes.length := by cases op <;> decide
    rw [operandLexemes_setOperation]
    simp only [List.length_append, List.length_nil]
    omega
  have htail : readTail style [] = ({}, []) := by cases style <;> rfl
  rw [lexemes_eq_operandLexemes, readQuery, hoperands, resume_of_stops hclosed.stops,
    andThen_some hlt, htail, withTail_empty]
  rfl

/-- Otherwise what is read is no set operation, if it is read at all. -/
theorem readQuery_ne (h : (setOperation op left right).Regular)
    (henclosed : ¬(setOperation op left right).TailsEnclosed)
    (hread : readQuery style ((setOperation op left right).lexemes style) = some (q, rest))
    (other : SetOperator) (l r : Outline) : q ≠ setOperation other l r := by
  obtain ⟨query, more, hstop⟩ := (readsOn_readOperation style).orderBy h henclosed []
  rw [lexemes_eq_operandLexemes, readQuery, hstop] at hread
  obtain ⟨_, _, heq, _, hread⟩ := andThen_eq_some hread
  cases heq
  cases hread
  refine withTail_ne (fun hempty => ?_) other l r
  have hnone := congrArg Tail.orderBy hempty
  rw [readTail_orderBy] at hnone
  cases hnone

end SetOperations

end Outline

end StorePlan.Sql
