import StorePlan.Proofs.Sql.Expression.Formula

/-
Where parameters stand in a formula, and where question marks stand in an
expression.

The text of an interval is one operand of its holder in what is read if the
operator in front of it spares it: one that is as strong as the holder takes
the text away from the holder, unless both are the same operator, and one that
is as strong as the text itself splits it.
-/

namespace StorePlan.Sql

open Expression

/-! ## Question marks in an expression -/

namespace Expression

/-- What an expression with operands is around them. -/
def frame? : Expression → Option Frame
  | leaf _ => none
  | binary op _ _ => some (.operator op)
  | frame f _ => some f

mutual

/-- For every question mark from left to right, the expressions in which it stands, from the
question mark itself outwards. -/
def lineages : Expression → List Expression → List (List Expression)
  | leaf l, around => if l = .parameter then [leaf l :: around] else []
  | binary op left right, around =>
    left.lineages (binary op left right :: around) ++
      right.lineages (binary op left right :: around)
  | frame f operands, around => allLineages operands (frame f operands :: around)
termination_by structural e => e

def allLineages : List Expression → List Expression → List (List Expression)
  | [], _ => []
  | e :: rest, around => e.lineages around ++ allLineages rest around
termination_by structural es => es

end

end Expression

/-- The question mark of a parameter stands in the text of the parameter, and that is as a whole an
operand of the frame. -/
def IntervalText.IsOperandOf (t : IntervalText) (f : Frame) (lineage : List Expression) : Prop :=
  ∃ e around, t.expression.lineages (e :: around) = [lineage] ∧ e.frame? = some f

/-! ## Parameters in a formula -/

/-- Where a parameter stands in a formula. -/
structure Stance where
  /-- How it is written if it is an interval. -/
  text? : Option IntervalText
  /-- What it is an operand of. -/
  holder? : Option Frame
  /-- The operator right in front of it, if there is one within the same brackets. -/
  front? : Option Op

namespace Formula

/-- The operator right in front of an operand of a frame, if there is one within the same brackets:
what is in front of the frame is in front of its first operand as well. -/
def front? (x : Formula) (f : Frame) (position : Nat) (outer? : Option Op) : Option Op :=
  match f with
  | .operator op =>
    if op.operandPrecedence position = 0 ∨ x.precedence < op.operandPrecedence position then none
    else if position = 0 ∧ op.layout ≠ .leading then outer?
    else some op
  | _ => none

mutual

/-- The parameters from left to right. -/
def stances : Formula → Option Frame → Option Op → List Stance
  | leaf l, holder?, front? => if l = .parameter then [⟨none, holder?, front?⟩] else []
  | interval t, holder?, front? => [⟨some t, holder?, front?⟩]
  | binary op left right, _, front? =>
    left.stances (some (.operator op)) (left.front? (.operator op) 0 front?) ++
      right.stances (some (.operator op)) (right.front? (.operator op) 1 front?)
  | frame f operands, _, front? => operandStances operands f front? 0
termination_by structural x => x

def operandStances : List Formula → Frame → Option Op → Nat → List Stance
  | [], _, _, _ => []
  | x :: rest, f, front?, position =>
    x.stances (some f) (x.front? f position front?) ++ operandStances rest f front? (position + 1)
termination_by structural fs => fs

end

end Formula

/-- An operator in front of an operand leaves it to the frame it belongs to. -/
def Op.Spares (op : Op) (f : Frame) (strength : Nat) : Prop :=
  op.precedence < strength ∧ (op.precedence < f.precedence ∨ f = .operator op)

/-- An interval is read as one operand of its holder if and only if the operator in front of it
leaves it to the holder. -/
def Stance.Agrees (s : Stance) (lineage : List Expression) : Prop :=
  ∀ t f, s.text? = some t → s.holder? = some f →
    (t.IsOperandOf f lineage ↔ ∀ op ∈ s.front?, op.Spares f t.expression.precedence)

/-! ## The texts of intervals -/

namespace IntervalText

variable {t : IntervalText} {f g : Frame} {e : Expression} {around : List Expression}

/-- What its question mark stands in within the text of a parameter. -/
def lineage : IntervalText → List Expression
  | plain => [.leaf .parameter]
  | t => [.leaf .parameter, t.expression]

theorem lineages_expression (t : IntervalText) (around : List Expression) :
    t.expression.lineages around = [t.lineage ++ around] := by
  cases t <;> rfl

/-- The text of a parameter is an operand of what stands right around it, and of nothing else. -/
theorem isOperandOf_append (h : e.frame? = some g) :
    t.IsOperandOf f (t.lineage ++ e :: around) ↔ f = g := by
  constructor
  · rintro ⟨e', around', hlineage, hf⟩
    rw [lineages_expression] at hlineage
    have heq := List.append_cancel_left (List.singleton_inj.1 hlineage)
    rw [(List.cons.inj heq).1, h] at hf
    exact (Option.some.inj hf).symm
  · rintro rfl
    exact ⟨e, around, lineages_expression t _, h⟩

/-- Nothing has a multiple for an operand if the question mark has another neighbour. -/
theorem not_isOperandOf_multiple {unit : IntervalQualifier}
    (h : e ≠ (multiple unit).expression) :
    ¬(multiple unit).IsOperandOf f (.leaf .parameter :: e :: around) := by
  rintro ⟨e', around', hlineage, -⟩
  rw [lineages_expression] at hlineage
  exact h (List.cons.inj (List.cons.inj (List.singleton_inj.1 hlineage)).2).1.symm

end IntervalText

/-! ## Operators in front -/

namespace Formula

variable {op : Op} {x : Formula} {f : Frame}

theorem precedence_le_operandPrecedence {position : Nat} (h : op.operandPrecedence position ≠ 0) :
    op.precedence ≤ op.operandPrecedence position ∧
      (op.layout ≠ .binary → op.precedence < op.operandPrecedence position) := by
  unfold Op.operandPrecedence at h ⊢
  cases hlayout : op.layout with
  | function =>
    rw [hlayout] at h
    exact absurd rfl h
  | binary | leading | trailing | special =>
    rw [hlayout] at h
    simp only at h ⊢
    try split_ifs at h ⊢
    all_goals simp <;> omega

/-- What stands in front of a frame and is weaker spares its operands, and so does the operator of
the frame, as far as the operands are as strong as their places demand. -/
theorem spares_of_mem_front? {position : Nat} {outer? : Option Op}
    (hplace : f.operandPrecedence position ≤ x.precedence →
      f.operandPrecedence position ≤ x.spelled.precedence)
    (hself : f = .operator op → op.layout = .binary → position = 0)
    (houter : ∀ op ∈ outer?, op.precedence < f.precedence) (h : op ∈ x.front? f position outer?) :
    op.Spares f x.spelled.precedence := by
  cases f with
  | cast | call | caseOf => cases h
  | operator op' =>
    simp only [front?] at h
    split_ifs at h with hfree hinherited
    · cases h
    · obtain ⟨hne, hle⟩ := not_or.1 hfree
      have hlt : op.precedence < op'.precedence := houter op h
      have hdemand := (precedence_le_operandPrecedence hne).1
      have hplaced : op'.operandPrecedence position ≤ x.spelled.precedence :=
        hplace (Nat.not_lt.1 hle)
      exact ⟨by omega, .inl hlt⟩
    · obtain ⟨hne, hle⟩ := not_or.1 hfree
      cases h
      have hlayout : op.layout ≠ .binary := fun hlayout =>
        hinherited ⟨hself rfl hlayout, by simp [hlayout]⟩
      have hdemand := (precedence_le_operandPrecedence hne).2 hlayout
      have hplaced : op.operandPrecedence position ≤ x.spelled.precedence :=
        hplace (Nat.not_lt.1 hle)
      exact ⟨by omega, .inr rfl⟩

end Formula

end StorePlan.Sql
