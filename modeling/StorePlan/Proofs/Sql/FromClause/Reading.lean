import StorePlan.Proofs.Sql.FromClause.Joined
import StorePlan.Proofs.Sql.SetOperation.Outline
import StorePlan.Proofs.Sql.Wording

/-
Reading the `FROM` clause of a query. The lexemes of the query are parted at
the words of clauses and joins that stand outside of brackets; the clause is
what stands between `FROM` and the next word of a clause. What stands between
two marks is passed over, as long as none of the words stands in it outside
of brackets.

The word for the kind of a join is no mark by itself, as functions may have
such names.
-/

namespace StorePlan.Sql

open Lexeme

/-! ## Marks -/

/-- Words that part a text outside of brackets. -/
def markWords : List String := clauseWords ++ ["JOIN", "ON"]

namespace Lexeme

/-- The mark that a word is. -/
def mark? (l : Lexeme) : Option Mark :=
  if l = .word "JOIN" then some (.join none)
  else if l = .word "ON" then some .on
  else
    match l with
    | .word w => if clauseWords.contains w then some (.clause w) else none
    | _ => none

/-- The kind of join that a word in front of `JOIN` names. -/
def joinKind? : Lexeme → Option JoinKind
  | .word w =>
    if w = "INNER" then some .inner
    else if w = "LEFT" then some .left
    else if w = "RIGHT" then some .right
    else if w = "FULL" then some .full
    else if w = "CROSS" then some .cross
    else none
  | _ => none

theorem mark?_eq_none {l : Lexeme} (h : l.isOneOf markWords = false) : l.mark? = none := by
  cases l with
  | word w =>
    have hw : w ∉ markWords := by simpa [isOneOf] using h
    simp only [markWords, List.mem_append, not_or, List.mem_cons] at hw
    simp [mark?, hw]
  | _ => rfl

end Lexeme

/-! ## Parting a text -/

namespace Pieces

/-- Puts a lexeme in front. The word for a kind of join belongs to the `JOIN` directly behind it. -/
def prepend (l : Lexeme) (ps : Pieces) : Pieces :=
  match l.joinKind?, ps with
  | some kind, ⟨[], (.join none, ls) :: rest⟩ => ⟨[], (.join (some kind), ls) :: rest⟩
  | _, ps => ⟨l :: ps.first, ps.rest⟩

/-- Puts a mark in front. -/
def mark (m : Mark) (ps : Pieces) : Pieces := ⟨[], (m, ps.first) :: ps.rest⟩

/-- The lexemes are parted at the marks outside of brackets, where so many brackets are open in
front of them. -/
def ofLexemes : Nat → List Lexeme → Pieces
  | _, [] => ⟨[], []⟩
  | depth, l :: ls =>
    if l.isOpening then (ofLexemes (depth + 1) ls).prepend l
    else if l.isClosing then (ofLexemes (depth - 1) ls).prepend l
    else
      match if depth = 0 then l.mark? else none with
      | some m => (ofLexemes depth ls).mark m
      | none => (ofLexemes depth ls).prepend l

/-- The text does not begin with a `JOIN` to which a word in front of it would belong. -/
def Closed (ps : Pieces) : Prop := ps.first = [] → ∀ p ∈ ps.rest.head?, p.1 ≠ .join none

theorem prepend_of_closed {ps : Pieces} (h : ps.Closed) (l : Lexeme) :
    ps.prepend l = ⟨l :: ps.first, ps.rest⟩ := by
  unfold prepend
  split
  · exact absurd rfl (h rfl _ rfl)
  · rfl

/-- Lexemes with balanced brackets, outside of which no mark stands, go to the first piece. -/
theorem ofLexemes_append {depth behind : Nat} {ls more : List Lexeme}
    (h : depthBehind? markWords depth ls = some behind) (hmore : (ofLexemes behind more).Closed) :
    ofLexemes depth (ls ++ more) =
      ⟨ls ++ (ofLexemes behind more).first, (ofLexemes behind more).rest⟩ := by
  induction ls generalizing depth with
  | nil =>
    cases h
    rfl
  | cons l ls ih =>
    rw [depthBehind?_cons] at h
    have hprepend {ps : Pieces}
        (hps : ps = ⟨ls ++ (ofLexemes behind more).first, (ofLexemes behind more).rest⟩) :
        ps.prepend l = ⟨l :: ls ++ (ofLexemes behind more).first, (ofLexemes behind more).rest⟩ := by
      subst hps
      refine prepend_of_closed (fun hnil => ?_) l
      exact hmore (List.append_eq_nil_iff.1 hnil).2
    rw [List.cons_append, ofLexemes]
    split_ifs at h ⊢ with hopening hclosing hzero hword
    · exact hprepend (ih h)
    · cases depth with
      | zero => cases h
      | succ depth => exact hprepend (ih h)
    · have hmark : l.mark? = none := mark?_eq_none (by simpa [hzero] using hword)
      rw [hmark]
      exact hprepend (ih h)
    · exact hprepend (ih h)

/-- Nothing stands in front of the first mark, which is whole. -/
structure Marked (ps : Pieces) : Prop where
  first : ps.first = []
  closed : ps.Closed

theorem marked_mark {m : Mark} (h : m ≠ .join none) (ps : Pieces) : (ps.mark m).Marked := by
  refine ⟨rfl, ?_⟩
  rintro - p ⟨⟩
  exact h

theorem ofLexemes_kind (kind : JoinKind) (ls : List Lexeme) :
    ofLexemes 0 (ofChars kind.name.toList ++ ls) = (ofLexemes 0 ls).mark (.join (some kind)) := by
  cases kind <;> rfl

theorem ofLexemes_on (ls : List Lexeme) :
    ofLexemes 0 (.word "ON" :: ls) = (ofLexemes 0 ls).mark .on := rfl

theorem ofLexemes_clause {w : String} (h : w ∈ clauseWords) (ls : List Lexeme) :
    ofLexemes 0 (.word w :: ls) = (ofLexemes 0 ls).mark (.clause w) := by
  have hmark : ∀ w ∈ clauseWords, (Lexeme.word w).mark? = some (.clause w) := by decide
  have hword : (Lexeme.word w).isOpening = false ∧ (Lexeme.word w).isClosing = false := ⟨rfl, rfl⟩
  simp only [ofLexemes, hword, hmark w h, if_pos]
  rfl

end Pieces

/-! ## Joins -/

/-- The condition of a join. -/
def Clause.on : Clause := ⟨[.word "ON"], []⟩

namespace Joined

/-- Joins as they are written: nothing brings brackets. -/
def lexemes : Joined → List Lexeme
  | item ls => ls
  | join kind left right condition =>
    left.lexemes ++ ofChars kind.name.toList ++ right.lexemes ++ Clause.on.lexemes condition

/-- No mark stands in an item or a condition outside of brackets. -/
def Regular : Joined → Prop
  | item ls => Level markWords ls
  | join _ left right condition =>
    left.Regular ∧ right.Regular ∧ ∀ ls ∈ condition, Level markWords ls

/-- Joins are parted into their pieces. -/
theorem ofLexemes_lexemes {t : Joined} (h : t.Regular) {more : List Lexeme}
    (hmore : (Pieces.ofLexemes 0 more).Marked) :
    Pieces.ofLexemes 0 (t.lexemes ++ more) = t.pieces.append (Pieces.ofLexemes 0 more).rest := by
  induction t generalizing more with
  | item ls =>
    rw [lexemes, Pieces.ofLexemes_append h hmore.closed, hmore.first, List.append_nil]
    rfl
  | join kind left right condition ihl ihr =>
    obtain ⟨hleft, hright, hcondition⟩ := h
    have hkind (ls : List Lexeme) :
        (Pieces.ofLexemes 0 (ofChars kind.name.toList ++ ls)).Marked := by
      rw [Pieces.ofLexemes_kind]
      exact Pieces.marked_mark (by simp) _
    rw [lexemes, List.append_assoc, List.append_assoc, List.append_assoc, ihl hleft (hkind _),
      Pieces.ofLexemes_kind]
    cases condition with
    | none =>
      rw [Clause.lexemes, List.nil_append, ihr hright hmore]
      simp [pieces, Pieces.append, Pieces.mark, first, rest, conditionPieces]
    | some ls =>
      have hwritten : Clause.on.lexemes (some ls) = .word "ON" :: ls := List.append_nil _
      have hon : (Pieces.ofLexemes 0 (.word "ON" :: ls ++ more)).Marked := by
        rw [List.cons_append, Pieces.ofLexemes_on]
        exact Pieces.marked_mark (by simp) _
      rw [hwritten, ihr hright hon, List.cons_append, Pieces.ofLexemes_on,
        Pieces.ofLexemes_append (hcondition ls rfl) hmore.closed, hmore.first]
      simp [pieces, Pieces.append, Pieces.mark, first, rest, conditionPieces]

end Joined

/-! ## The clause in a query -/

def Mark.isClause : Mark → Bool
  | clause _ => true
  | _ => false

/-- The pieces of the first `FROM` clause outside of brackets. -/
def fromClause? (ls : List Lexeme) : Option Pieces :=
  match (Pieces.ofLexemes 0 ls).rest.dropWhile (·.1 != .clause "FROM") with
  | [] => none
  | (_, first) :: rest => some ⟨first, rest.takeWhile (!·.1.isClause)⟩

namespace Joined

/-- The joins of the first `FROM` clause of a text. -/
def ofText? (s : String) : Option Joined := do ofPieces? (← fromClause? (← Lexeme.ofText? s))

/-- Lexemes that are nothing or begin with a clause. -/
def Follows (ls : List Lexeme) : Prop := ∀ l ∈ ls.head?, l.isOneOf clauseWords = true

theorem isClause_rest {t : Joined} : ∀ p ∈ t.rest, p.1.isClause = false := by
  induction t with
  | item ls => simp [rest]
  | join kind left right condition ihl ihr =>
    intro p hp
    simp only [rest, conditionPieces, List.mem_append, List.mem_cons, List.mem_map] at hp
    rcases hp with (hp | rfl | hp) | ⟨ls, -, rfl⟩
    · exact ihl p hp
    · rfl
    · exact ihr p hp
    · rfl

theorem ofLexemes_of_follows {ls : List Lexeme} (h : Follows ls) :
    (Pieces.ofLexemes 0 ls).Marked ∧
      (Pieces.ofLexemes 0 ls).rest.takeWhile (!·.1.isClause) = [] := by
  cases ls with
  | nil => exact ⟨⟨rfl, by rintro - p ⟨⟩⟩, rfl⟩
  | cons l ls =>
    have hl := h l rfl
    cases l with
    | word w =>
      rw [Pieces.ofLexemes_clause (List.contains_iff_mem.1 hl)]
      exact ⟨Pieces.marked_mark (by simp) _, rfl⟩
    | _ => cases hl

/-- The `FROM` clause of a query ends in front of the next clause. -/
theorem fromClause?_query {selected behind : List Lexeme} {t : Joined}
    (hselected : Level markWords selected) (ht : t.Regular) (hbehind : Follows behind) :
    fromClause? ([.word "SELECT"] ++ selected ++ [.word "FROM"] ++ t.lexemes ++ behind) =
      some t.pieces := by
  obtain ⟨hmarked, hnone⟩ := ofLexemes_of_follows hbehind
  have hfrom (ls : List Lexeme) : (Pieces.ofLexemes 0 ([.word "FROM"] ++ ls)).Marked := by
    rw [List.singleton_append, Pieces.ofLexemes_clause (by decide)]
    exact Pieces.marked_mark (by simp) _
  have hpieces : Pieces.ofLexemes 0
      ([.word "SELECT"] ++ selected ++ [.word "FROM"] ++ t.lexemes ++ behind) =
        ⟨[], (.clause "SELECT", selected) :: (.clause "FROM", t.first) ::
          (t.rest ++ (Pieces.ofLexemes 0 behind).rest)⟩ := by
    rw [List.append_assoc, List.append_assoc, List.append_assoc, List.singleton_append,
      Pieces.ofLexemes_clause (by decide), Pieces.ofLexemes_append hselected (hfrom _).closed,
      (hfrom _).first, List.singleton_append, Pieces.ofLexemes_clause (by decide),
      ofLexemes_lexemes ht hmarked, List.append_nil]
    rfl
  rw [fromClause?, hpieces]
  have hrest : (t.rest ++ (Pieces.ofLexemes 0 behind).rest).takeWhile (!·.1.isClause) = t.rest := by
    rw [List.takeWhile_append_of_pos (by simpa using isClause_rest), hnone, List.append_nil]
  simp [hrest, pieces]

end Joined

end StorePlan.Sql
