import StorePlan.Proofs.Sql.Expression.Nesting

/-
Expressions in which parameters may be intervals.

Such a parameter is placed as a leaf is, without brackets. Where it is written
as a multiple of one unit, `? * INTERVAL '1' DAY`, it binds no more strongly
than a product does, and an operator in front of it that is as strong takes the
question mark alone: `a / ? * INTERVAL '1' DAY` is the product of `a / ?` and
the unit. A formula keeps the parameter whole, and `spelled` is the expression
that its lexemes are those of.
-/

namespace StorePlan.Sql

open Lexeme

/-- How a parameter that is an interval is written. -/
inductive IntervalText where
  | plain
  | cast (target : List Lexeme)
  /-- A multiple of one unit. -/
  | multiple (unit : IntervalQualifier)

/-- The expression that the text of the parameter is by itself. -/
def IntervalText.expression : IntervalText → Expression
  | plain => .leaf .parameter
  | cast target => .frame (.cast target) [.leaf .parameter]
  | multiple unit => .binary .times (.leaf .parameter) (.leaf (.interval "1" unit))

/-- An expression in which parameters may be intervals. -/
inductive Formula where
  | leaf (l : Leaf)
  | interval (t : IntervalText)
  | binary (op : Op) (left right : Formula)
  | frame (f : Frame) (operands : List Formula)

/-- What becomes of an operand that is placed with a strength which it may lack: without the
brackets that it needs, it loses its left operand to what takes it. -/
def Expression.taken (strength place : Nat) (take : Expression → Expression) :
    Expression → Expression
  | binary op left right =>
    if place ≤ strength ∧ op.precedence < place then binary op (take left) right
    else take (binary op left right)
  | e => take e

/-- A frame around operands that are placed with these strengths. -/
def Frame.applied (f : Frame) : List Nat → List Expression → Expression
  | [strength], [operand] => operand.taken strength (f.operandPrecedence 0) fun e => .frame f [e]
  | _, operands => .frame f operands

namespace Formula

/-- How strongly a formula binds where it is placed. -/
def precedence : Formula → Nat
  | leaf _ | interval _ => Op.leafPrecedence
  | binary op _ _ => op.precedence
  | frame f _ => f.precedence

mutual

/-- The expression that the lexemes of a formula are those of. -/
def spelled : Formula → Expression
  | leaf l => .leaf l
  | interval t => t.expression
  | binary op left right =>
    right.spelled.taken right.precedence (op.operandPrecedence 1) (.binary op left.spelled)
  | frame f operands => f.applied (operands.map precedence) (allSpelled operands)
termination_by structural f => f

def allSpelled : List Formula → List Expression
  | [] => []
  | x :: rest => x.spelled :: allSpelled rest
termination_by structural fs => fs

end

/-- The lexemes of a formula in a place. -/
def placed (place : Nat) (x : Formula) : List Lexeme :=
  Expression.enclosed x.precedence place x.spelled.lexemes

/-- The lexemes of the operands of a frame from a position on. -/
def operandLexemes (f : Frame) : Nat → List Formula → List (List Lexeme)
  | _, [] => []
  | position, x :: rest =>
    x.placed (f.operandPrecedence position) :: operandLexemes f (position + 1) rest

mutual

/-- Every operator stands where it can, around as many operands as it takes, and names and numbers
look like such. -/
def Regular : Formula → Prop
  | leaf l => l.isRegular = true
  | interval t => t.expression.Regular
  | binary op left right => op.layout = .binary ∧ left.Regular ∧ right.Regular
  | frame f operands => f.takes operands.length = true ∧ AllRegular operands
termination_by structural f => f

def AllRegular : List Formula → Prop
  | [] => True
  | x :: rest => x.Regular ∧ AllRegular rest
termination_by structural fs => fs

end

theorem length_operandLexemes (f : Frame) (position : Nat) (fs : List Formula) :
    (operandLexemes f position fs).length = fs.length := by
  induction fs generalizing position with
  | nil => rfl
  | cons x rest ih => simp [operandLexemes, ih]

theorem allSpelled_eq_map (fs : List Formula) : allSpelled fs = fs.map spelled := by
  induction fs with
  | nil => rfl
  | cons x rest ih => rw [allSpelled, ih, List.map_cons]

theorem allRegular_iff {fs : List Formula} : AllRegular fs ↔ ∀ x ∈ fs, x.Regular := by
  induction fs with
  | nil => simp [AllRegular]
  | cons x rest ih => simp [AllRegular, ih]

end Formula

/-! ## The strength of what is spelled -/

open Expression

/-- The formula is placed with the strength of the left operand of the product that it is spelled
as. -/
inductive IsLoose (unit : IntervalQualifier) : Formula → Expression → Prop where
  | parameter : IsLoose unit (.interval (.multiple unit)) (.leaf .parameter)
  | negated : IsLoose unit (.frame (.operator .negate) [.interval (.multiple unit)])
      (.frame (.operator .negate) [.leaf .parameter])

namespace IsLoose

variable {unit : IntervalQualifier} {x : Formula} {e : Expression}

theorem spelled (h : IsLoose unit x e) :
    x.spelled = binary .times e (.leaf (.interval "1" unit)) := by
  cases h <;> rfl

theorem strength (h : IsLoose unit x e) : e.precedence = x.precedence := by
  cases h <;> rfl

theorem exceeds (h : IsLoose unit x e) : Op.times.precedence < x.precedence := by
  cases h <;> exact Nat.le_of_ble_eq_true rfl

end IsLoose

/-- An operand is taken as a whole, and it is as strong as its place demands if what it is spelled
as is; or it is loose, and its place demands more than a product. -/
theorem taken_cases {x : Formula} (place : Nat) (take : Expression → Expression)
    (h : x.spelled.precedence = x.precedence ∨ ∃ unit e, IsLoose unit x e) :
    (x.spelled.taken x.precedence place take = take x.spelled ∧
        (place ≤ x.precedence ↔ place ≤ x.spelled.precedence)) ∨
      ∃ unit e, IsLoose unit x e ∧ Op.times.precedence < place ∧ place ≤ x.precedence ∧
        x.spelled.taken x.precedence place take =
          binary .times (take e) (.leaf (.interval "1" unit)) := by
  have whole {e : Expression} {strength : Nat} (h : strength < place ∨ place ≤ e.precedence) :
      e.taken strength place take = take e := by
    cases e with
    | leaf | frame => rfl
    | binary op l r =>
      have h : strength < place ∨ place ≤ op.precedence := h
      exact if_neg (by omega)
  obtain heq | ⟨unit, e, hloose⟩ := h
  · exact .inl ⟨whole (by omega), by rw [heq]⟩
  · have hproduct : x.spelled.precedence = Op.times.precedence := by rw [hloose.spelled]; rfl
    have hexceeds := hloose.exceeds
    by_cases hplace : Op.times.precedence < place ∧ place ≤ x.precedence
    · refine .inr ⟨unit, e, hloose, hplace.1, hplace.2, ?_⟩
      rw [hloose.spelled]
      exact if_pos hplace.symm
    · exact .inl ⟨whole (by omega), by omega⟩

/-- Where both are as strong as the place demands or neither is, both stand in brackets or
neither does. -/
theorem placed_eq_of_iff {x : Formula} {place : Nat}
    (h : place ≤ x.precedence ↔ place ≤ x.spelled.precedence) :
    x.placed place = x.spelled.placed place := by
  unfold Formula.placed Expression.placed Expression.enclosed
  by_cases hplace : x.precedence < place
  · rw [if_pos hplace, if_pos (by omega)]
  · rw [if_neg hplace, if_neg (by omega)]

/-- Only division and the minus sign demand more of an operand than a product has. -/
theorem eq_of_operandPrecedence {op : Op} {position : Nat}
    (h : Op.times.precedence < op.operandPrecedence position) : op = .divide ∨ op = .negate := by
  cases op <;> cases position <;> first
    | exact .inl rfl
    | exact .inr rfl
    | exact absurd h (Nat.not_lt.2 (Nat.le_of_ble_eq_true rfl))

theorem eq_divide_of_lt {op : Op} {position : Nat} (h : op.layout = .binary)
    (hlt : Op.times.precedence < op.operandPrecedence position) : op = .divide := by
  obtain rfl | rfl := eq_of_operandPrecedence hlt
  · rfl
  · cases h

theorem eq_negate_of_lt {f : Frame} {n position : Nat} (h : f.takes n = true)
    (hlt : Op.times.precedence < f.operandPrecedence position) : f = .operator .negate := by
  cases f with
  | cast | call | caseOf => exact absurd hlt (Nat.not_lt_zero _)
  | operator op =>
    obtain rfl | rfl := eq_of_operandPrecedence hlt
    · cases h
    · rfl

namespace Formula

variable {op : Op} {l r x : Formula} {f : Frame} {fs : List Formula}

/-- A frame is spelled as itself around its operand, unless it is a minus sign in front of a
multiple. -/
theorem spelled_single (htakes : f.takes 1 = true)
    (h : x.spelled.precedence = x.precedence ∨ ∃ unit e, IsLoose unit x e) :
    (frame f [x]).spelled = .frame f [x.spelled] ∨ ∃ unit e, IsLoose unit (frame f [x]) e := by
  obtain ⟨hwhole, -⟩ | ⟨unit, e, hloose, hlt, hle, -⟩ :=
    taken_cases (f.operandPrecedence 0) (fun e => .frame f [e]) h
  · exact .inl hwhole
  · obtain rfl := eq_negate_of_lt htakes hlt
    cases hloose with
    | parameter => exact .inr ⟨unit, _, .negated⟩
    | negated =>
      have hle : 8 ≤ 7 := hle
      omega

/-- What is spelled has the strength that the formula is placed with, or the formula is loose. -/
theorem precedence_spelled : ∀ x : Formula, x.Regular →
    x.spelled.precedence = x.precedence ∨ ∃ unit e, IsLoose unit x e
  | leaf _, _ | interval .plain, _ | interval (.cast _), _ => .inl rfl
  | interval (.multiple unit), _ => .inr ⟨unit, _, .parameter⟩
  | binary op l r, ⟨hlayout, _, hr⟩ => by
    have hright := taken_cases (op.operandPrecedence 1) (.binary op l.spelled)
      (precedence_spelled r hr)
    obtain ⟨hwhole, -⟩ | ⟨unit, e, -, hlt, -, htorn⟩ := hright
    · rw [spelled, hwhole]
      exact .inl rfl
    · obtain rfl := eq_divide_of_lt hlayout hlt
      rw [spelled, htorn]
      exact .inl rfl
  | frame f [], _ | frame f (_ :: _ :: _), _ => .inl rfl
  | frame f [x], ⟨htakes, hx, _⟩ => by
    obtain hspelled | hloose := spelled_single htakes (precedence_spelled x hx)
    · rw [hspelled]
      exact .inl rfl
    · exact .inr hloose

theorem spelled_frame (hfs : AllRegular fs) (htakes : f.takes fs.length = true) :
    (frame f fs).spelled = .frame f (allSpelled fs) ∨ ∃ unit e, IsLoose unit (frame f fs) e := by
  match fs with
  | [] | _ :: _ :: _ => exact .inl rfl
  | [x] => exact spelled_single htakes (precedence_spelled x hfs.1)

/-- A place that demands no more than a product has does not tell a formula from what it is
spelled as. -/
theorem le_precedence_iff {place : Nat} (hx : x.Regular) (h : place ≤ Op.times.precedence) :
    place ≤ x.precedence ↔ place ≤ x.spelled.precedence := by
  obtain ⟨-, hplace⟩ | ⟨_, _, -, hlt, -⟩ := taken_cases place id (precedence_spelled x hx)
  · exact hplace
  · exact absurd hlt (Nat.not_lt.2 h)

theorem operandPrecedence_left_le (h : op.layout = .binary) :
    op.operandPrecedence 0 ≤ Op.times.precedence := by
  refine Nat.not_lt.1 fun hlt => ?_
  obtain rfl := eq_divide_of_lt h hlt
  exact absurd hlt (by decide)

/-! ## Lexemes -/

theorem placed_of_le {place : Nat} (h : place ≤ x.precedence) :
    x.placed place = x.spelled.lexemes := by
  rw [placed, Expression.enclosed, if_neg (Nat.not_lt.2 h)]

theorem placed_free (x : Formula) : x.placed 0 = x.spelled.lexemes := placed_of_le (Nat.zero_le _)

theorem lexemes_binary_of_le {op : Op} {e e' : Expression}
    (h : op.operandPrecedence 0 ≤ e.precedence) :
    (Expression.binary op e e').lexemes =
      e.lexemes ++ op.lexemes ++ e'.placed (op.operandPrecedence 1) := by
  rw [lexemes, Expression.enclosed, if_neg (Nat.not_lt.2 h)]
  rfl

/-- What is torn from a loose operand stands behind it all the same. -/
theorem placed_of_isLoose {unit : IntervalQualifier} {e : Expression} {place : Nat}
    (h : IsLoose unit x e) (hplace : place ≤ x.precedence) :
    x.placed place =
      e.placed place ++ Op.times.lexemes ++ (Leaf.interval "1" unit).lexemes := by
  have hproduct : Op.times.operandPrecedence 0 ≤ e.precedence := h.strength ▸ Nat.le_of_lt h.exceeds
  have hleft : e.placed place = e.lexemes := if_neg (Nat.not_lt.2 (h.strength ▸ hplace))
  rw [placed_of_le hplace, h.spelled, lexemes_binary_of_le hproduct, hleft]
  rfl

/-- An operator between operands is spelled as its operands with the operator between them. -/
theorem lexemes_spelled_binary (hlayout : op.layout = .binary) (hl : l.Regular) (hr : r.Regular) :
    (binary op l r).spelled.lexemes =
      l.placed (op.operandPrecedence 0) ++ op.lexemes ++ r.placed (op.operandPrecedence 1) := by
  have hleft : l.placed (op.operandPrecedence 0) = l.spelled.placed (op.operandPrecedence 0) :=
    placed_eq_of_iff (le_precedence_iff hl (operandPrecedence_left_le hlayout))
  have hright := taken_cases (op.operandPrecedence 1) (.binary op l.spelled)
    (precedence_spelled r hr)
  obtain ⟨hwhole, hplace⟩ | ⟨unit, e, hloose, hlt, hle, htorn⟩ := hright
  · rw [spelled, hwhole, hleft, placed_eq_of_iff hplace]
    rfl
  · obtain rfl := eq_divide_of_lt hlayout hlt
    rw [spelled, htorn, hleft, placed_of_isLoose hloose hle, lexemes_binary_of_le (Nat.le_refl _)]
    simp only [lexemes, List.append_assoc]
    rfl

/-- A frame around operands none of which it demands more of than a product has. -/
theorem operandLexemes_eq {position : Nat} (hfs : AllRegular fs)
    (h : ∀ i, f.operandPrecedence i ≤ Op.times.precedence) :
    operandLexemes f position fs = Expression.operandLexemes f position (allSpelled fs) := by
  induction fs generalizing position with
  | nil => rfl
  | cons x rest ih =>
    rw [operandLexemes, placed_eq_of_iff (le_precedence_iff hfs.1 (h position)), ih hfs.2]
    rfl

theorem operandLexemes_free {position : Nat} (fs : List Formula)
    (h : ∀ i, position ≤ i → f.operandPrecedence i = 0) :
    operandLexemes f position fs = fs.map fun x => x.spelled.lexemes := by
  induction fs generalizing position with
  | nil => rfl
  | cons x rest ih =>
    rw [operandLexemes, h position (Nat.le_refl _), placed_free, ih fun i hi => h i (by omega),
      List.map_cons]

/-- A frame is spelled as itself around its operands. -/
theorem lexemes_spelled_frame (hfs : AllRegular fs) (htakes : f.takes fs.length = true) :
    (frame f fs).spelled.lexemes = f.around (operandLexemes f 0 fs) := by
  by_cases h : f = .operator .negate
  · subst h
    obtain ⟨x, rfl⟩ : ∃ x, fs = [x] := List.length_eq_one_iff.1 (beq_iff_eq.1 htakes)
    have hspelled : (frame (.operator .negate) [x]).spelled =
      x.spelled.taken x.precedence (Op.negate.operandPrecedence 0)
        fun e => .frame (.operator .negate) [e] := rfl
    have hsign (ls : List Lexeme) : Frame.around (.operator .negate) [ls] = .sign "-" :: ls := rfl
    rw [hspelled, operandLexemes, operandLexemes, hsign]
    have hx := precedence_spelled x hfs.1
    obtain ⟨hwhole, hplace⟩ | ⟨unit, e, hloose, hlt, hle, htorn⟩ :=
      taken_cases (Op.negate.operandPrecedence 0) (fun e => .frame (.operator .negate) [e]) hx
    · rw [hwhole]
      exact congrArg _ (placed_eq_of_iff hplace).symm
    · rw [htorn, lexemes_binary_of_le (Nat.le_of_ble_eq_true rfl)]
      exact congrArg _ (placed_of_isLoose hloose hle).symm
  · obtain hspelled | ⟨unit, e, hloose⟩ := spelled_frame hfs htakes
    · rw [hspelled, operandLexemes_eq hfs fun i => Nat.not_lt.1 fun hlt =>
        h (eq_negate_of_lt htakes hlt)]
      rfl
    · cases hloose
      exact absurd rfl h

/-! ## Regularity -/

theorem regular_taken {strength place : Nat} {take : Expression → Expression} {e : Expression}
    (he : e.Regular) (htake : ∀ e, e.Regular → (take e).Regular) :
    (e.taken strength place take).Regular := by
  cases e with
  | leaf | frame => exact htake _ he
  | binary op l r =>
    simp only [Expression.taken]
    split_ifs
    · exact ⟨he.1, htake l he.2.1, he.2.2⟩
    · exact htake _ he

theorem regular_applied {strengths : List Nat} {es : List Expression}
    (htakes : f.takes es.length = true) (hes : Expression.AllRegular es) :
    (f.applied strengths es).Regular := by
  unfold Frame.applied
  split
  · exact regular_taken hes.1 fun _ h => ⟨htakes, h, trivial⟩
  · exact ⟨htakes, hes⟩

mutual

/-- What a regular formula is spelled as is regular. -/
theorem regular_spelled : ∀ x : Formula, x.Regular → x.spelled.Regular
  | leaf _, h | interval _, h => h
  | binary _ l r, ⟨hlayout, hl, hr⟩ =>
    regular_taken (regular_spelled r hr) fun _ h => ⟨hlayout, regular_spelled l hl, h⟩
  | frame f fs, ⟨htakes, hfs⟩ => by
    have hlength : (allSpelled fs).length = fs.length := by rw [allSpelled_eq_map, List.length_map]
    exact regular_applied (hlength ▸ htakes) (allRegular_allSpelled fs hfs)

theorem allRegular_allSpelled : ∀ fs : List Formula, AllRegular fs →
    Expression.AllRegular (allSpelled fs)
  | [], _ => trivial
  | x :: rest, h => ⟨regular_spelled x h.1, allRegular_allSpelled rest h.2⟩

end

/-! ## Formulas without intervals -/

end Formula

mutual

/-- An expression as a formula. -/
def Expression.formula : Expression → Formula
  | .leaf l => .leaf l
  | .binary op l r => .binary op l.formula r.formula
  | .frame f es => .frame f (Expression.allFormulas es)
termination_by structural e => e

def Expression.allFormulas : List Expression → List Formula
  | [] => []
  | e :: rest => e.formula :: Expression.allFormulas rest
termination_by structural es => es

end

namespace Expression

theorem allFormulas_eq_map (es : List Expression) : allFormulas es = es.map formula := by
  induction es with
  | nil => rfl
  | cons e rest ih => rw [allFormulas, ih, List.map_cons]

theorem precedence_formula (e : Expression) : e.formula.precedence = e.precedence := by
  cases e <;> rfl

theorem taken_precedence (e : Expression) (place : Nat) (take : Expression → Expression) :
    e.taken e.precedence place take = take e := by
  cases e with
  | leaf | frame => rfl
  | binary op l r => exact if_neg fun h => Nat.not_lt.2 h.1 h.2

mutual

/-- An expression is spelled as itself. -/
theorem spelled_formula : ∀ e : Expression, e.formula.spelled = e
  | leaf _ => rfl
  | binary op l r => by
    rw [formula, Formula.spelled, spelled_formula l, spelled_formula r, precedence_formula,
      taken_precedence]
  | frame f [] => rfl
  | frame f [e] => by
    have hspelled : (frame f [e]).formula.spelled = e.formula.spelled.taken e.formula.precedence
      (f.operandPrecedence 0) fun e => frame f [e] := rfl
    rw [hspelled, spelled_formula e, precedence_formula, taken_precedence]
  | frame f (e :: e' :: rest) => by
    have hspelled : (frame f (e :: e' :: rest)).formula.spelled =
      frame f (Formula.allSpelled (allFormulas (e :: e' :: rest))) := rfl
    rw [hspelled, allSpelled_allFormulas (e :: e' :: rest)]

theorem allSpelled_allFormulas : ∀ es : List Expression, Formula.allSpelled (allFormulas es) = es
  | [] => rfl
  | e :: rest => by
    rw [allFormulas, Formula.allSpelled, spelled_formula e, allSpelled_allFormulas rest]

end

end Expression

end StorePlan.Sql
