import StorePlan.Proofs.Sql.Scanning
import StorePlan.Sql.Node

/-
The joins of a `FROM` clause, and how SQL groups them where no brackets stand.
Joins lean to the left. `CROSS JOIN` takes the single item behind it; any
other join waits for its `ON`, and the innermost one that waits takes the next
condition. What stands in an item or a condition is a list of lexemes here.

Not every tree is what SQL makes of its own text: `ofPieces?_eq_some_iff` says
that the trees which are read are the grammatical ones, each from its own
text only.
-/

namespace StorePlan.Sql

/-- Items as joins put them together. -/
inductive Joined where
  | item (ls : List Lexeme)
  | join (kind : JoinKind) (left right : Joined) (condition : Option (List Lexeme))
deriving DecidableEq

/-- What parts a text outside of brackets. -/
inductive Mark where
  /-- The first word of a clause. -/
  | clause (word : String)
  /-- `JOIN`, with the kind that the word in front of it names. -/
  | join (kind : Option JoinKind)
  | on
deriving DecidableEq

/-- A text that is parted at marks: what stands in front of the first one, and each mark with what
stands behind it. -/
structure Pieces where
  first : List Lexeme
  rest : List (Mark × List Lexeme)
deriving DecidableEq

/-- The pieces with more marks behind them. -/
def Pieces.append (ps : Pieces) (more : List (Mark × List Lexeme)) : Pieces :=
  ⟨ps.first, ps.rest ++ more⟩

namespace Joined

def isItem : Joined → Bool
  | item _ => true
  | join .. => false

/-- Whether every `CROSS JOIN` has an item on its right and no condition, and every other join has a
condition. -/
def Grammatical : Joined → Prop
  | item _ => True
  | join kind left right condition =>
    left.Grammatical ∧ right.Grammatical ∧
      if kind = .cross then right.isItem = true ∧ condition = none else condition.isSome = true

/-! ## Texts of joins -/

/-- What stands in front of the first mark. -/
def first : Joined → List Lexeme
  | item ls => ls
  | join _ left _ _ => left.first

/-- A condition behind its mark. -/
def conditionPieces (condition : Option (List Lexeme)) : List (Mark × List Lexeme) :=
  condition.toList.map fun ls => (.on, ls)

/-- The marks with what stands behind them. -/
def rest : Joined → List (Mark × List Lexeme)
  | item _ => []
  | join kind left right condition =>
    left.rest ++ (.join (some kind), right.first) :: right.rest ++ conditionPieces condition

/-- The pieces of joins that are written without brackets. -/
def pieces (t : Joined) : Pieces := ⟨t.first, t.rest⟩

/-! ## Reading -/

/-- Joins that wait for their right operands to end, the innermost first, and what has been read of
the operand of the innermost. -/
structure Prefix where
  waiting : List (Joined × JoinKind)
  last : Joined

/-- Goes on with a mark and what stands behind it. -/
def Prefix.step (p : Prefix) : Mark × List Lexeme → Option Prefix
  | (.join (some kind), ls) =>
    if kind = .cross then some ⟨p.waiting, .join .cross p.last (.item ls) none⟩
    else some ⟨(p.last, kind) :: p.waiting, .item ls⟩
  | (.on, ls) =>
    match p.waiting with
    | (left, kind) :: waiting => some ⟨waiting, .join kind left p.last (some ls)⟩
    | [] => none
  | (.join none, _) | (.clause _, _) => none

/-- The joins of a text that is parted at its marks, if none is left without its condition. -/
def ofPieces? (ps : Pieces) : Option Joined := do
  let p ← ps.rest.foldlM Prefix.step ⟨[], .item ps.first⟩
  if p.waiting.isEmpty then some p.last else none

/-! ## What is read is grammatical -/

namespace Prefix

/-- All that has been read is grammatical, and no `CROSS JOIN` waits. -/
structure Grammatical (p : Prefix) : Prop where
  last : p.last.Grammatical
  waiting : ∀ left kind, (left, kind) ∈ p.waiting → left.Grammatical ∧ kind ≠ .cross

/-- The pieces of what has been read. -/
def piecesOf : List (Joined × JoinKind) → Joined → Pieces
  | [], last => last.pieces
  | (left, kind) :: waiting, last =>
    (piecesOf waiting left).append ((.join (some kind), last.first) :: last.rest)

/-- The pieces grow where the last operand does, at its end. -/
theorem piecesOf_eq_append {waiting : List (Joined × JoinKind)} {last grown : Joined}
    {more : List (Mark × List Lexeme)} (hfirst : grown.first = last.first)
    (hrest : grown.rest = last.rest ++ more) :
    piecesOf waiting grown = (piecesOf waiting last).append more := by
  cases waiting with
  | nil => simp [piecesOf, pieces, Pieces.append, hfirst, hrest]
  | cons found waiting => simp [piecesOf, Pieces.append, hfirst, hrest]

theorem grammatical_step {p q : Prefix} {piece : Mark × List Lexeme} (hp : p.Grammatical)
    (h : p.step piece = some q) :
    q.Grammatical ∧ piecesOf q.waiting q.last = (piecesOf p.waiting p.last).append [piece] := by
  obtain ⟨m, ls⟩ := piece
  cases m with
  | clause word => cases h
  | join kind =>
    cases kind with
    | none => cases h
    | some kind =>
      rw [step] at h
      split_ifs at h with hcross <;> cases h
      · subst hcross
        exact ⟨⟨⟨hp.last, trivial, rfl, rfl⟩, hp.waiting⟩,
          piecesOf_eq_append rfl (List.append_nil _)⟩
      · refine ⟨⟨trivial, ?_⟩, rfl⟩
        rintro left kind' hmem
        rcases List.mem_cons.1 hmem with heq | hmem
        · cases heq
          exact ⟨hp.last, hcross⟩
        · exact hp.waiting left kind' hmem
  | on =>
    obtain ⟨waiting, last⟩ := p
    cases waiting with
    | nil => cases h
    | cons found waiting =>
      obtain ⟨left, kind⟩ := found
      cases h
      obtain ⟨hleft, hkind⟩ := hp.waiting left kind List.mem_cons_self
      have hwaiting (l : Joined) (k : JoinKind) (hmem : (l, k) ∈ waiting) :=
        hp.waiting l k (List.mem_cons_of_mem _ hmem)
      refine ⟨⟨⟨hleft, hp.last, ?_⟩, hwaiting⟩, ?_⟩
      · rw [if_neg hkind]
        rfl
      · let closed : Joined := .join kind left last (some ls)
        have hfirst : closed.first = left.first := rfl
        have hrest : closed.rest =
            left.rest ++ ((.join (some kind), last.first) :: last.rest ++ [(.on, ls)]) :=
          List.append_assoc ..
        refine (piecesOf_eq_append hfirst hrest).trans ?_
        simp [piecesOf, Pieces.append]

/-- Whatever is read stays grammatical, and no piece is lost. -/
theorem grammatical_foldlM {p q : Prefix} {more : List (Mark × List Lexeme)} (hp : p.Grammatical)
    (h : more.foldlM step p = some q) :
    q.Grammatical ∧ piecesOf q.waiting q.last = (piecesOf p.waiting p.last).append more := by
  induction more generalizing p with
  | nil =>
    cases h
    exact ⟨hp, by simp [Pieces.append]⟩
  | cons piece more ih =>
    rw [List.foldlM_cons] at h
    obtain ⟨p', hstep, hmore⟩ := Option.bind_eq_some_iff.1 h
    obtain ⟨hp', hpieces⟩ := grammatical_step hp hstep
    obtain ⟨hq, hall⟩ := ih hp' hmore
    exact ⟨hq, by simpa [Pieces.append, hpieces] using hall⟩

end Prefix

/-! ## What is grammatical is read -/

/-- From in front of a tree its pieces lead to the tree, whatever waits for it. -/
theorem foldlM_rest {t : Joined} (h : t.Grammatical) (waiting : List (Joined × JoinKind)) :
    t.rest.foldlM Prefix.step ⟨waiting, .item t.first⟩ = some ⟨waiting, t⟩ := by
  induction t generalizing waiting with
  | item ls => rfl
  | join kind left right condition ihl ihr =>
    obtain ⟨hleft, hright, hjoin⟩ := h
    rw [rest, List.append_assoc, List.foldlM_append, first, ihl hleft, List.cons_append]
    simp only [Option.bind_eq_bind, Option.bind_some, List.foldlM_cons, List.foldlM_append,
      Prefix.step]
    split_ifs at hjoin ⊢ with hcross
    · obtain ⟨hitem, rfl⟩ := hjoin
      subst hcross
      cases right with
      | join _ _ _ _ => cases hitem
      | item ls => rfl
    · obtain ⟨ls, rfl⟩ := Option.isSome_iff_exists.1 hjoin
      simp only [Option.bind_some, ihr hright]
      rfl

/-- What is read of a text are the grammatical joins with that text. -/
theorem ofPieces?_eq_some_iff {ps : Pieces} {t : Joined} :
    ofPieces? ps = some t ↔ t.Grammatical ∧ t.pieces = ps := by
  constructor
  · intro h
    obtain ⟨⟨waiting, last⟩, hread, hlast⟩ := Option.bind_eq_some_iff.1 h
    have hstart : Prefix.Grammatical ⟨[], .item ps.first⟩ := ⟨trivial, by simp⟩
    obtain ⟨hgrammatical, hpieces⟩ := Prefix.grammatical_foldlM hstart hread
    cases waiting with
    | cons found waiting => cases hlast
    | nil =>
      cases hlast
      exact ⟨hgrammatical.last, hpieces⟩
  · rintro ⟨h, rfl⟩
    simp [ofPieces?, pieces, foldlM_rest h []]

end Joined

end StorePlan.Sql
