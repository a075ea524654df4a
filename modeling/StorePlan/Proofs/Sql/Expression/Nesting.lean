import StorePlan.Proofs.Sql.Expression.Basic

/-
How brackets that are left out change an expression.

The right operand of an associative operator stands without brackets if its
own operator is of the same strength, so it is read as if it leaned to the
left: `regrouped` is the expression that is read. If all operators of the
chain are the same, that is another nesting of the same chain. If they are
not, as in `a * (b / c)`, it is another expression (`renests_regrouped_iff`).
-/

namespace StorePlan.Sql.Expression

variable {op : Op} {e e' l r : Expression}

/-! ## Nesting -/

/-- The same expression, up to the nesting of chains of one associative operator. -/
inductive Renests : Expression → Expression → Prop where
  | refl (e : Expression) : Renests e e
  | symm {e e' : Expression} : Renests e e' → Renests e' e
  | trans {e₁ e₂ e₃ : Expression} : Renests e₁ e₂ → Renests e₂ e₃ → Renests e₁ e₃
  | binary (op : Op) {l l' r r' : Expression} :
    Renests l l' → Renests r r' → Renests (binary op l r) (binary op l' r')
  | operand (f : Frame) (before after : List Expression) {e e' : Expression} :
    Renests e e' → Renests (frame f (before ++ e :: after)) (frame f (before ++ e' :: after))
  | assoc {op : Op} (e₁ e₂ e₃ : Expression) :
    op.isAssociative = true →
      Renests (binary op (binary op e₁ e₂) e₃) (binary op e₁ (binary op e₂ e₃))

/-- An operator between operands of which the right one is not in brackets. -/
def graft (op : Op) (left : Expression) : Expression → Expression
  | binary op' l r =>
    if op'.precedence = op.precedence then binary op' (graft op left l) r
    else binary op left (binary op' l r)
  | right => binary op left right

mutual

/-- The expression as it is read where no brackets stand around the right operands of associative
operators. -/
def regrouped : Expression → Expression
  | leaf l => leaf l
  | binary op left right =>
    if op.isAssociative then graft op left.regrouped right.regrouped
    else binary op left.regrouped right.regrouped
  | frame f operands => frame f (allRegrouped operands)
termination_by structural e => e

def allRegrouped : List Expression → List Expression
  | [] => []
  | e :: rest => e.regrouped :: allRegrouped rest
termination_by structural es => es

end

/-- Whether operators of the same strength but another kind lead into an operand from the left. -/
def crosses (op : Op) : Expression → Bool
  | binary op' l _ => op'.precedence == op.precedence && (op' != op || crosses op l)
  | _ => false

mutual

/-- The right operand of an associative operator begins with no other operator of its strength. -/
def Unmixed : Expression → Prop
  | leaf _ => True
  | binary op left right =>
    left.Unmixed ∧ right.Unmixed ∧ (op.isAssociative = true → right.crosses op = false)
  | frame _ operands => AllUnmixed operands
termination_by structural e => e

def AllUnmixed : List Expression → Prop
  | [] => True
  | e :: rest => e.Unmixed ∧ AllUnmixed rest
termination_by structural es => es

end

/-! ## What nesting leaves alone -/

mutual

/-- The number of leaves and frames. -/
def size : Expression → Nat
  | leaf _ => 1
  | binary _ left right => left.size + right.size
  | frame _ operands => 1 + totalSize operands
termination_by structural e => e

def totalSize : List Expression → Nat
  | [] => 0
  | e :: rest => e.size + totalSize rest
termination_by structural es => es

end

mutual

/-- The sizes of the left operands of all operators that are not associative. -/
def weight : Expression → Nat
  | leaf _ => 0
  | binary op left right =>
    (if op.isAssociative then 0 else left.size) + left.weight + right.weight
  | frame _ operands => totalWeight operands
termination_by structural e => e

def totalWeight : List Expression → Nat
  | [] => 0
  | e :: rest => e.weight + totalWeight rest
termination_by structural es => es

end

theorem totalSize_append (es es' : List Expression) :
    totalSize (es ++ es') = totalSize es + totalSize es' := by
  induction es with
  | nil => simp [totalSize]
  | cons e rest ih => simp [totalSize, ih, Nat.add_assoc]

theorem totalWeight_append (es es' : List Expression) :
    totalWeight (es ++ es') = totalWeight es + totalWeight es' := by
  induction es with
  | nil => simp [totalWeight]
  | cons e rest ih => simp [totalWeight, ih, Nat.add_assoc]

theorem Renests.measures (h : Renests e e') : e.size = e'.size ∧ e.weight = e'.weight := by
  induction h with
  | refl => exact ⟨rfl, rfl⟩
  | symm _ ih => exact ⟨ih.1.symm, ih.2.symm⟩
  | trans _ _ ih₁ ih₂ => exact ⟨ih₁.1.trans ih₂.1, ih₁.2.trans ih₂.2⟩
  | binary op _ _ ihl ihr =>
    constructor
    · simp only [size, ihl.1, ihr.1]
    · simp only [weight, ihl.1, ihl.2, ihr.2]
  | operand f before after _ ih =>
    constructor
    · simp only [size, totalSize_append, totalSize, ih.1]
    · simp only [weight, totalWeight_append, totalWeight, ih.2]
  | assoc e₁ e₂ e₃ hop =>
    constructor
    · simp only [size, Nat.add_assoc]
    · simp only [weight, hop, if_true, Nat.add_assoc, Nat.zero_add]

/-! ## Grafting -/

theorem graft_of_same {op' : Op} {r₁ r₂ : Expression} (h : op'.precedence = op.precedence) :
    graft op l (binary op' r₁ r₂) = binary op' (graft op l r₁) r₂ := if_pos h

theorem graft_binary_of_other {op' : Op} {r₁ r₂ : Expression}
    (h : op'.precedence ≠ op.precedence) :
    graft op l (binary op' r₁ r₂) = binary op l (binary op' r₁ r₂) := if_neg h

theorem graft_of_other (h : r.precedence ≠ op.precedence) : graft op l r = binary op l r := by
  cases r with
  | binary op' r₁ r₂ => exact graft_binary_of_other h
  | leaf | frame => rfl

theorem precedence_graft : (graft op l r).precedence = op.precedence := by
  by_cases h : r.precedence = op.precedence
  · cases r with
    | binary op' r₁ r₂ =>
      rw [graft_of_same h]
      exact h
    | leaf | frame => rfl
  · rw [graft_of_other h]
    rfl

/-- Grafting an operand is grafting its parts one after the other. -/
theorem graft_graft {op' : Op} (h : op'.precedence = op.precedence) (e₁ e₂ : Expression) :
    ∀ e₃, graft op e₁ (graft op' e₂ e₃) = graft op' (graft op e₁ e₂) e₃
  | leaf _ | frame _ _ => graft_of_same h
  | binary op'' r₁ r₂ => by
    by_cases hsame : op''.precedence = op'.precedence
    · rw [graft_of_same hsame, graft_of_same hsame, graft_of_same (hsame.trans h),
        graft_graft h e₁ e₂ r₁]
    · rw [graft_binary_of_other hsame, graft_binary_of_other hsame, graft_of_same h]

theorem size_graft : ∀ r : Expression, (graft op l r).size = l.size + r.size
  | leaf _ | frame _ _ => rfl
  | binary op' r₁ r₂ => by
    by_cases h : op'.precedence = op.precedence
    · rw [graft_of_same h, size, size_graft r₁, size, Nat.add_assoc]
    · rw [graft_binary_of_other h, size]

theorem crosses_binary_of_same {op' : Op} {r₁ r₂ : Expression}
    (h : op'.precedence = op.precedence) :
    (binary op' r₁ r₂).crosses op = (op' != op || r₁.crosses op) := by
  simp [crosses, h]

/-- Without another operator of the same strength, grafting nests the chain in another way. -/
theorem renests_graft (hop : op.isAssociative = true) :
    ∀ r : Expression, r.crosses op = false → Renests (graft op l r) (binary op l r)
  | leaf _, _ | frame _ _, _ => .refl _
  | binary op' r₁ r₂, h => by
    by_cases hsame : op'.precedence = op.precedence
    · rw [crosses_binary_of_same hsame, Bool.or_eq_false_iff, bne_eq_false_iff_eq] at h
      obtain ⟨heq, hcrosses⟩ := h
      rw [heq, graft_of_same rfl]
      exact (Renests.binary op (renests_graft hop r₁ hcrosses) (.refl r₂)).trans
        (.assoc l r₁ r₂ hop)
    · rw [graft_binary_of_other hsame]
      exact .refl _

theorem crosses_graft {op' : Op} :
    ∀ r : Expression, r.crosses op = false → (graft op l r).crosses op' = (binary op l r).crosses op'
  | leaf _, _ | frame _ _, _ => rfl
  | binary op'' r₁ r₂, h => by
    by_cases hsame : op''.precedence = op.precedence
    · rw [crosses_binary_of_same hsame, Bool.or_eq_false_iff, bne_eq_false_iff_eq] at h
      obtain ⟨heq, hcrosses⟩ := h
      rw [heq, graft_of_same rfl, crosses, crosses_graft r₁ hcrosses, crosses, crosses]
      cases op.precedence == op'.precedence <;> cases op != op' <;> rfl
    · rw [graft_binary_of_other hsame]

theorem eq_of_isAssociative {op' : Op} (h : op.isAssociative = true)
    (h' : op'.isAssociative = true) (hsame : op'.precedence = op.precedence) : op' = op := by
  cases op <;> cases h <;> cases op' <;> cases h' <;> first | rfl | cases hsame

theorem size_pos : ∀ e : Expression, 0 < e.size
  | leaf _ => Nat.one_pos
  | binary _ l r => Nat.add_pos_left l.size_pos r.size
  | frame _ _ => by
    rw [size]
    omega

/-- Grafting only adds to the left operands, and it does so in front of another operator. -/
theorem weight_graft (hop : op.isAssociative = true) :
    ∀ r : Expression, l.weight + r.weight ≤ (graft op l r).weight ∧
      (r.crosses op = true → l.weight + r.weight < (graft op l r).weight)
  | leaf _ | frame _ _ => by simp [graft, weight, crosses, hop]
  | binary op' r₁ r₂ => by
    by_cases hsame : op'.precedence = op.precedence
    · obtain ⟨hle, hlt⟩ := weight_graft hop r₁
      have hl := l.size_pos
      rw [graft_of_same hsame, weight, weight, size_graft, crosses_binary_of_same hsame,
        Bool.or_eq_true, bne_iff_ne]
      by_cases hassoc : op'.isAssociative = true
      · -- Another `op`: nothing is gained here, only where the chain goes on to the left.
        obtain rfl := eq_of_isAssociative hop hassoc hsame
        simp only [hassoc, if_true, ne_eq, not_true_eq_false, false_or]
        exact ⟨by omega, fun h => by have := hlt h; omega⟩
      · simp only [hassoc]
        simp only [Bool.false_eq_true, if_false]
        exact ⟨by omega, fun _ => by omega⟩
    · have hcrosses : (binary op' r₁ r₂).crosses op = false := by simp [crosses, hsame]
      rw [graft_binary_of_other hsame, hcrosses, weight.eq_def (binary op _ _)]
      simp [hop]

/-! ## Regrouping -/

theorem precedence_regrouped (e : Expression) : e.regrouped.precedence = e.precedence := by
  cases e with
  | binary op l r =>
    rw [regrouped]
    split_ifs
    · exact precedence_graft
    · rfl
  | leaf => rfl
  | frame => rfl

mutual

theorem size_regrouped : ∀ e : Expression, e.regrouped.size = e.size
  | leaf _ => rfl
  | binary op l r => by
    rw [regrouped, size]
    split_ifs
    · rw [size_graft, size_regrouped l, size_regrouped r]
    · rw [size, size_regrouped l, size_regrouped r]
  | frame f es => by rw [regrouped, size, size, totalSize_allRegrouped es]

theorem totalSize_allRegrouped : ∀ es : List Expression, totalSize (allRegrouped es) = totalSize es
  | [] => rfl
  | e :: rest => by
    rw [allRegrouped, totalSize, totalSize, size_regrouped e, totalSize_allRegrouped rest]

end

/-- Regrouping leaves the operators alone that lead into an unmixed operand. -/
theorem crosses_regrouped {op : Op} : ∀ {e : Expression}, e.Unmixed →
    e.regrouped.crosses op = e.crosses op
  | leaf _, _ | frame _ _, _ => rfl
  | binary op' l r, h => by
    obtain ⟨hl, hr, hcrosses⟩ := h
    rw [regrouped]
    split_ifs with hassoc
    · have hr : r.regrouped.crosses op' = false := (crosses_regrouped hr).trans (hcrosses hassoc)
      rw [crosses_graft _ hr, crosses, crosses, crosses_regrouped hl]
    · rw [crosses, crosses, crosses_regrouped hl]

mutual

/-- An unmixed expression is read as another nesting of itself. -/
theorem renests_regrouped : ∀ {e : Expression}, e.Unmixed → Renests e.regrouped e
  | leaf _, _ => .refl _
  | binary op l r, h => by
    obtain ⟨hl, hr, hcrosses⟩ := h
    have hboth := Renests.binary op (renests_regrouped hl) (renests_regrouped hr)
    rw [regrouped]
    split_ifs with hassoc
    · have hr : r.regrouped.crosses op = false := (crosses_regrouped hr).trans (hcrosses hassoc)
      exact (renests_graft hassoc _ hr).trans hboth
    · exact hboth
  | frame f es, h => by
    have hes : AllUnmixed es := h
    simpa [regrouped] using renests_allRegrouped f [] hes

theorem renests_allRegrouped (f : Frame) (before : List Expression) :
    ∀ {es : List Expression}, AllUnmixed es →
      Renests (frame f (before ++ allRegrouped es)) (frame f (before ++ es))
  | [], _ => .refl _
  | e :: rest, h => by
    have hfirst := Renests.operand f before (allRegrouped rest) (renests_regrouped h.1)
    have hrest := renests_allRegrouped f (before ++ [e]) h.2
    rw [List.append_assoc, List.append_assoc] at hrest
    exact hfirst.trans hrest

end

mutual

/-- Regrouping adds to the left operands unless the expression is unmixed. -/
theorem weight_regrouped : ∀ e : Expression, e.weight ≤ e.regrouped.weight ∧
    (e.regrouped.weight ≤ e.weight → e.Unmixed)
  | leaf _ => ⟨Nat.le_refl _, fun _ => trivial⟩
  | binary op l r => by
    obtain ⟨hl, hlUnmixed⟩ := weight_regrouped l
    obtain ⟨hr, hrUnmixed⟩ := weight_regrouped r
    rw [regrouped, weight]
    split_ifs with hassoc
    · -- The weights of both operands and of the graft only grow, so all stay if the sum does.
      obtain ⟨hle, hlt⟩ := weight_graft (l := l.regrouped) hassoc r.regrouped
      refine ⟨by omega, fun h => ?_⟩
      have hl : l.Unmixed := hlUnmixed (by omega)
      have hr : r.Unmixed := hrUnmixed (by omega)
      refine ⟨hl, hr, fun _ => ?_⟩
      rw [← crosses_regrouped hr, Bool.eq_false_iff]
      intro hcrosses
      have := hlt hcrosses
      omega
    · rw [weight, if_neg hassoc, size_regrouped]
      refine ⟨by omega, fun h => ⟨hlUnmixed (by omega), hrUnmixed (by omega), ?_⟩⟩
      exact fun h => absurd h hassoc
  | frame f es => totalWeight_allRegrouped es

theorem totalWeight_allRegrouped : ∀ es : List Expression,
    totalWeight es ≤ totalWeight (allRegrouped es) ∧
      (totalWeight (allRegrouped es) ≤ totalWeight es → AllUnmixed es)
  | [] => ⟨Nat.le_refl _, fun _ => trivial⟩
  | e :: rest => by
    obtain ⟨he, heUnmixed⟩ := weight_regrouped e
    obtain ⟨hrest, hrestUnmixed⟩ := totalWeight_allRegrouped rest
    rw [allRegrouped, totalWeight, totalWeight]
    exact ⟨by omega, fun h => ⟨heUnmixed (by omega), hrestUnmixed (by omega)⟩⟩

end

/-- What is read nests the chains of an expression in another way if and only if no chain mixes
operators of the same strength to the right of an associative one. -/
theorem renests_regrouped_iff : Renests e.regrouped e ↔ e.Unmixed := by
  constructor
  · intro h
    exact (weight_regrouped e).2 (Nat.le_of_eq h.measures.2)
  · exact renests_regrouped

end StorePlan.Sql.Expression
