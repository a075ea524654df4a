import StorePlan.Proofs.Sql.Expression.RoundTrip
import StorePlan.Proofs.Sql.Expression.Stances

/-
Which intervals are read back as operands of what holds them.

The induction goes over the formula, with a second statement for operands that
are not in brackets (`AgreesBehind`): what stands in front of such an operand is
grafted onto its beginning, and goes on into its left operand as long as that
is of the same strength.
-/

namespace StorePlan.Sql

open Expression Reading

/-! ## What is read of a formula -/

namespace Formula

variable {op : Op} {l r x : Formula} {f : Frame} {fs : List Formula} {unit : IntervalQualifier}
  {e : Expression}

/-- What is read of the text of a formula. -/
def read (x : Formula) : Expression := x.spelled.regrouped

theorem precedence_read (x : Formula) : x.read.precedence = x.spelled.precedence :=
  precedence_regrouped x.spelled

theorem read_interval (t : IntervalText) : (interval t).read = t.expression := by
  cases t <;> rfl

theorem read_of_isLoose (h : IsLoose unit x e) :
    x.read = .binary .times e (.leaf (.interval "1" unit)) := by
  cases h <;> rfl

/-- Behind an operator as strong as a product, a loose formula loses its left operand. -/
theorem graft_of_isLoose (h : IsLoose unit x e) (hop : op.precedence = Op.times.precedence)
    (left : Expression) :
    graft op left x.read =
      .binary .times (.binary op left e) (.leaf (.interval "1" unit)) := by
  have hother : e.precedence ≠ op.precedence := by
    rw [h.strength, hop]
    exact Nat.ne_of_gt h.exceeds
  rw [read_of_isLoose h, graft_of_same hop.symm, graft_of_other hother]

/-- The right operand of an operator is read as a whole in brackets, and else it is grafted onto
what stands in front. -/
theorem read_binary (h : (binary op l r).Regular) :
    (binary op l r).read =
      if r.precedence < op.operandPrecedence 1 then .binary op l.read r.read
      else graft op l.read r.read := by
  obtain ⟨hlayout, -, hr⟩ := h
  have hdemand := operandPrecedence_right hlayout
  have hother (hne : r.spelled.precedence ≠ op.precedence) :
      graft op l.read r.read = .binary op l.read r.read :=
    graft_of_other (by rwa [precedence_read])
  obtain ⟨hwhole, hplace⟩ | ⟨unit, e, hloose, hlt, hle, htorn⟩ :=
    taken_cases (op.operandPrecedence 1) (.binary op l.spelled) (precedence_spelled r hr)
  · have hread : (binary op l r).read =
        if op.isAssociative then graft op l.read r.read else .binary op l.read r.read := by
      rw [read, spelled, hwhole, regrouped]
      rfl
    rw [hread]
    by_cases hassoc : op.isAssociative = true
    · rw [if_pos hassoc] at hdemand ⊢
      split_ifs with hbrackets
      · exact hother (by omega)
      · rfl
    · rw [if_neg hassoc] at hdemand ⊢
      split_ifs with hbrackets
      · rfl
      · exact (hother (by omega)).symm
  · obtain rfl := eq_divide_of_lt hlayout hlt
    have hgraft := graft_of_isLoose hloose (rfl : Op.divide.precedence = _) l.read
    rw [if_neg (Nat.not_lt.2 hle), hgraft, read, spelled, htorn]
    cases hloose <;> rfl

theorem read_frame (h : (frame f fs).Regular) :
    (frame f fs).read = .frame f (fs.map read) ∨ ∃ unit e, IsLoose unit (frame f fs) e := by
  obtain hspelled | hloose := spelled_frame h.2 h.1
  · refine .inl ?_
    rw [read, hspelled, regrouped, allRegrouped_eq_map, allSpelled_eq_map, List.map_map]
    rfl
  · exact .inr hloose

end Formula

/-! ## Question marks in what is read -/

/-- What the innermost of the expressions around an operand is. -/
def holder? (around : List Expression) : Option Frame := around.head?.bind frame?

namespace Formula

variable {op : Op} {l r x : Formula} {f : Frame} {fs : List Formula} {unit : IntervalQualifier}
  {e : Expression} {around : List Expression} {front? : Option Op}

/-- The parameters of a formula agree with what is read where it stands by itself. -/
def AgreesAlone (x : Formula) : Prop :=
  ∀ ⦃front? : Option Op⦄ ⦃around : List Expression⦄,
    (∀ op ∈ front?, ∃ f, holder? around = some f ∧ op.Spares f x.spelled.precedence) →
      List.Forall₂ Stance.Agrees (x.stances (holder? around) front?) (x.read.lineages around)

/-- What is read begins with an operand of an operator, and the parameters agree with what comes
behind that. -/
def Continues (op : Op) (left : Expression) (stances : List Stance) (read : Expression)
    (around : List Expression) : Prop :=
  ∃ e outer lineages, e.frame? = some (.operator op) ∧
    read.lineages around = left.lineages (e :: outer) ++ lineages ∧
    List.Forall₂ Stance.Agrees stances lineages

theorem Continues.trans {op' : Op} {left inner read : Expression} {stances stances' : List Stance}
    (hinner : ∀ around, Continues op left stances inner around)
    (houter : Continues op' inner stances' read around) :
    Continues op left (stances ++ stances') read around := by
  obtain ⟨e₂, outer₂, lineages₂, -, hlineages₂, hagrees₂⟩ := houter
  obtain ⟨e₁, outer₁, lineages₁, he₁, hlineages₁, hagrees₁⟩ := hinner (e₂ :: outer₂)
  refine ⟨e₁, outer₁, lineages₁ ++ lineages₂, he₁, ?_, List.rel_append hagrees₁ hagrees₂⟩
  rw [hlineages₂, hlineages₁, List.append_assoc]

/-- The parameters of a formula agree with what is read where it is grafted onto what stands in
front, be it as the right operand or as the beginning of that. -/
def AgreesBehind (x : Formula) : Prop :=
  ∀ ⦃op : Op⦄ ⦃f : Frame⦄ ⦃left : Expression⦄ ⦃around : List Expression⦄, op.layout = .binary →
    op.operandPrecedence 1 ≤ x.precedence → f.precedence = op.precedence →
      Continues op left (x.stances (some f) (some op)) (graft op left x.read) around

/-! ### Operands of another strength -/

theorem precedence_le_times (h : op.layout = .binary) : op.precedence ≤ Op.times.precedence := by
  cases op <;> first | decide | cases h

/-- Only an interval that stands by itself can change hands. -/
theorem agrees_of_holder {f' : Frame} {lss : List (List Expression)}
    (hx : ∀ t, x ≠ .interval t)
    (h : List.Forall₂ Stance.Agrees (x.stances (some f) front?) lss) :
    List.Forall₂ Stance.Agrees (x.stances (some f') front?) lss := by
  cases x with
  | interval t => exact absurd rfl (hx t)
  | binary | frame => exact h
  | leaf l =>
    by_cases hl : l = .parameter
    · subst hl
      obtain _ | ⟨-, hrest⟩ := h
      exact .cons (fun t f ht => by cases ht) hrest
    · simp only [stances, if_neg hl] at h ⊢
      exact h

/-- An operand of another strength is grafted as a whole. -/
theorem graft_of_ne {left : Expression} (hne : x.spelled.precedence ≠ op.precedence) :
    graft op left x.read = .binary op left x.read :=
  graft_of_other (by rwa [precedence_read])

theorem AgreesAlone.behind {left : Expression} (h : AgreesAlone x) (hx : ∀ t, x ≠ .interval t)
    (hne : x.spelled.precedence ≠ op.precedence)
    (hfront : ∀ op' ∈ front?, op'.Spares (.operator op) x.spelled.precedence) :
    Continues op left (x.stances (some f) front?) (graft op left x.read) around := by
  have hagrees := @h front? (.binary op left x.read :: around) fun op' hop' =>
    ⟨.operator op, rfl, hfront op' hop'⟩
  rw [graft_of_ne hne]
  exact ⟨.binary op left x.read, around, _, rfl, rfl, agrees_of_holder hx hagrees⟩

theorem AgreesAlone.behind_of_lt {left : Expression} (h : AgreesAlone x)
    (hx : ∀ t, x ≠ .interval t) (hlt : op.precedence < x.spelled.precedence) :
    Continues op left (x.stances (some f) (some op)) (graft op left x.read) around := by
  refine h.behind hx (Nat.ne_of_gt hlt) fun op' hop' => ?_
  cases hop'
  exact ⟨hlt, .inr rfl⟩

/-! ### Leaves and intervals -/

theorem agreesAlone_leaf (l : Leaf) : AgreesAlone (.leaf l) := by
  intro front? around _
  by_cases h : l = .parameter
  · subst h
    exact .cons (fun t f ht => by cases ht) .nil
  · simp only [stances, read, spelled, regrouped, lineages, if_neg h]
    exact .nil

theorem agreesBehind_leaf (l : Leaf) : AgreesBehind (.leaf l) := by
  intro op f left around hlayout _ _
  have hlt : op.precedence < Op.leafPrecedence :=
    Nat.lt_of_le_of_lt (precedence_le_times hlayout) (by decide)
  exact (agreesAlone_leaf l).behind_of_lt (by simp) hlt

theorem agreesAlone_interval (t : IntervalText) : AgreesAlone (.interval t) := by
  intro front? around hfront
  rw [read_interval, IntervalText.lineages_expression]
  refine .cons (fun t' f ht hholder => ?_) .nil
  cases ht
  cases around with
  | nil => cases hholder
  | cons e outer =>
    refine (iff_true_left ?_).2 ?_
    · exact (IntervalText.isOperandOf_append hholder).2 rfl
    · intro op hop
      obtain ⟨f', hf', hspares⟩ := hfront op hop
      obtain rfl : f = f' := Option.some.inj (hholder.symm.trans hf')
      exact hspares

/-- A multiple that is torn is nobody's operand, and the operator in front does not spare it. -/
theorem agrees_torn {holder? : Option Frame} (hop : Op.times.precedence ≤ op.precedence)
    (he : e ≠ (IntervalText.multiple unit).expression) :
    Stance.Agrees ⟨some (.multiple unit), holder?, some op⟩ (.leaf .parameter :: e :: around) := by
  intro t f ht _
  cases ht
  refine iff_of_false (IntervalText.not_isOperandOf_multiple he) fun h => ?_
  exact absurd (h op rfl).1 (Nat.not_lt.2 hop)

theorem lineages_product (e : Expression) (unit : IntervalQualifier) (around : List Expression) :
    (Expression.binary .times e (.leaf (.interval "1" unit))).lineages around =
      e.lineages (.binary .times e (.leaf (.interval "1" unit)) :: around) := by
  simp [lineages]

theorem behind_of_isLoose {left : Expression} (h : IsLoose unit x e)
    (hop : op.precedence = Op.times.precedence) :
    Continues op left (x.stances (some f) (some op)) (graft op left x.read) around := by
  rw [graft_of_isLoose h hop]
  refine ⟨.binary op left e, _, _, rfl, lineages_product _ unit around, ?_⟩
  cases h with
  | parameter =>
    exact .cons (agrees_torn (Nat.le_of_eq hop.symm) (by simp [IntervalText.expression])) .nil
  | negated => exact .cons (agrees_torn (by decide) (by simp [IntervalText.expression])) .nil

/-- An interval that is stronger than the operator in front becomes its operand. -/
theorem interval_behind {t : IntervalText} {left : Expression} (hf : f.precedence = op.precedence)
    (hlt : op.precedence < t.expression.precedence) :
    Continues op left ((interval t).stances (some f) (some op)) (graft op left (interval t).read)
      around := by
  have hgraft : graft op left (interval t).read = .binary op left (interval t).read :=
    graft_of_ne (Nat.ne_of_gt hlt)
  rw [hgraft, read_interval]
  refine ⟨.binary op left t.expression, around, _, rfl, rfl, ?_⟩
  rw [IntervalText.lineages_expression]
  refine .cons (fun t' f' ht hf' => ?_) .nil
  cases ht
  cases hf'
  rw [IntervalText.isOperandOf_append rfl]
  constructor
  · rintro rfl op' hop'
    cases hop'
    exact ⟨hlt, .inr rfl⟩
  · intro h
    exact (h op rfl).2.resolve_left (Nat.not_lt.2 (Nat.le_of_eq hf))

theorem agreesBehind_interval (t : IntervalText) : AgreesBehind (.interval t) := by
  intro op f left around hlayout _ hf
  have hle := precedence_le_times hlayout
  cases t with
  | plain | cast =>
    have hlt : op.precedence < Op.leafPrecedence := Nat.lt_of_le_of_lt hle (by decide)
    exact interval_behind hf hlt
  | multiple unit =>
    by_cases hop : op.precedence = Op.times.precedence
    · exact behind_of_isLoose .parameter hop
    · exact interval_behind hf (Nat.lt_of_le_of_ne hle hop)

/-! ### Operators between operands -/

theorem precedence_pos (op : Op) : 0 < op.precedence := by
  cases op <;> exact Nat.le_of_ble_eq_true rfl

theorem front?_right (hlayout : op.layout = .binary) (outer? : Option Op) :
    r.front? (.operator op) 1 outer? =
      if r.precedence < op.operandPrecedence 1 then none else some op := by
  have hpos := precedence_pos op
  have hdemand : op.operandPrecedence 1 ≠ 0 := by
    rw [operandPrecedence_right hlayout]
    split_ifs <;> omega
  simp [front?, hdemand]

theorem front?_left (hlayout : op.layout = .binary) (outer? : Option Op) :
    l.front? (.operator op) 0 outer? = if l.precedence < op.precedence then none else outer? := by
  have hpos := precedence_pos op
  simp [front?, operandPrecedence_left hlayout, hlayout, Nat.ne_of_gt hpos]

/-- The right operand of an operator, behind whatever is read in front. -/
theorem agrees_right (hlayout : op.layout = .binary) (halone : AgreesAlone r)
    (hbehind : AgreesBehind r) (left : Expression) (around : List Expression)
    (outer? : Option Op) :
    Continues op left (r.stances (some (.operator op)) (r.front? (.operator op) 1 outer?))
      (if r.precedence < op.operandPrecedence 1 then .binary op left r.read
        else graft op left r.read) around := by
  rw [front?_right hlayout]
  split_ifs with hbrackets
  · have hagrees := @halone none (.binary op left r.read :: around) (by simp)
    exact ⟨.binary op left r.read, around, _, rfl, rfl, hagrees⟩
  · exact hbehind hlayout (Nat.not_lt.1 hbrackets) rfl

theorem precedence_spelled_binary (h : (binary op l r).Regular) :
    (binary op l r).spelled.precedence = op.precedence := by
  obtain heq | ⟨unit, e, hloose⟩ := precedence_spelled _ h
  · exact heq
  · cases hloose

theorem agreesAlone_binary (h : (binary op l r).Regular) (hl : AgreesAlone l) (hr : AgreesAlone r)
    (hbehind : AgreesBehind r) : AgreesAlone (binary op l r) := by
  intro front? around hfront
  have hlayout := h.1
  rw [precedence_spelled_binary h] at hfront
  obtain ⟨e, outer, lineages, he, hlineages, hright⟩ :=
    agrees_right hlayout hr hbehind l.read around front?
  have hplace := (le_precedence_iff h.2.1 (operandPrecedence_left_le hlayout)).1
  have houter (op' : Op) (hop' : op' ∈ front?) : op'.precedence < op.precedence := by
    obtain ⟨f, -, hspares⟩ := hfront op' hop'
    exact hspares.1
  have hleft := @hl (l.front? (.operator op) 0 front?) (e :: outer) fun op' hop' =>
    ⟨.operator op, he, spares_of_mem_front? hplace (fun _ _ => rfl) houter hop'⟩
  have hholder : holder? (e :: outer) = some (.operator op) := he
  rw [hholder] at hleft
  rw [read_binary h, hlineages]
  exact List.rel_append hleft hright

/-- An operator in front goes on into the left operand of one of the same strength. -/
theorem agreesBehind_binary (h : (binary op l r).Regular) (halone : AgreesAlone (binary op l r))
    (hl : AgreesAlone l) (hlBehind : AgreesBehind l) (hr : AgreesAlone r)
    (hrBehind : AgreesBehind r) : AgreesBehind (binary op l r) := by
  intro op' f left around hlayout' hplace hf
  have hlayout := h.1
  have hdemand := operandPrecedence_right hlayout'
  have hplace : op'.operandPrecedence 1 ≤ op.precedence := hplace
  by_cases hsame : op.precedence = op'.precedence
  · -- Only an associative operator has another of its strength behind it without brackets.
    have hassoc : op'.isAssociative = true := by
      by_contra hassoc
      rw [if_neg hassoc] at hdemand
      omega
    have hgraft : graft op' left (binary op l r).read =
        if r.precedence < op.operandPrecedence 1 then .binary op (graft op' left l.read) r.read
        else graft op (graft op' left l.read) r.read := by
      rw [read_binary h]
      split_ifs
      · exact graft_of_same hsame
      · exact graft_graft hsame _ _ _
    have hleft (around : List Expression) : Continues op' left
        (l.stances (some (.operator op)) (l.front? (.operator op) 0 (some op')))
        (graft op' left l.read) around := by
      rw [front?_left hlayout]
      split_ifs with hbrackets
      · have hle := precedence_le_times hlayout
        have hiff := le_precedence_iff h.2.1 hle
        have hinterval (t : IntervalText) : l ≠ .interval t := by
          rintro rfl
          have hlt : Op.leafPrecedence < Op.times.precedence := Nat.lt_of_lt_of_le hbrackets hle
          exact absurd hlt (by decide)
        exact hl.behind hinterval (by omega) (by simp)
      · rw [if_pos hassoc] at hdemand
        exact hlBehind hlayout' (by omega) hsame
    rw [hgraft]
    exact .trans hleft (agrees_right hlayout hr hrBehind _ around (some op'))
  · have hle : op'.precedence ≤ op'.operandPrecedence 1 := by
      rw [hdemand]
      split_ifs <;> omega
    exact halone.behind_of_lt (by simp) (by rw [precedence_spelled_binary h]; omega)

/-! ### Frames -/

/-- The operands of a frame that is not loose are as strong as their places demand if what they
are spelled as is. -/
theorem le_precedence_of_mem {position : Nat} (h : (frame f fs).Regular)
    (hloose : ∀ unit e, ¬IsLoose unit (frame f fs) e) (hx : x ∈ fs)
    (hle : f.operandPrecedence position ≤ x.precedence) :
    f.operandPrecedence position ≤ x.spelled.precedence := by
  obtain ⟨htakes, hfs⟩ := h
  have hregular : x.Regular := allRegular_iff.1 hfs x hx
  obtain ⟨-, hiff⟩ | ⟨unit, e, htorn, hlt, -⟩ :=
    taken_cases (f.operandPrecedence position) id (precedence_spelled x hregular)
  · exact hiff.1 hle
  · obtain rfl := eq_negate_of_lt htakes hlt
    obtain ⟨x', rfl⟩ : ∃ x', fs = [x'] := List.length_eq_one_iff.1 (beq_iff_eq.1 htakes)
    obtain rfl := List.mem_singleton.1 hx
    cases htorn with
    | parameter => exact absurd .negated (hloose unit _)
    | negated =>
      have hle : 8 ≤ 7 := hle
      omega

theorem agrees_operands (halone : ∀ x ∈ fs, AgreesAlone x) (hholder : holder? around = some f)
    (hfront : ∀ x ∈ fs, ∀ position, ∀ op ∈ x.front? f position front?,
      op.Spares f x.spelled.precedence) (position : Nat) :
    List.Forall₂ Stance.Agrees (operandStances fs f front? position)
      (allLineages (fs.map read) around) := by
  induction fs generalizing position with
  | nil => exact .nil
  | cons x rest ih =>
    rw [List.forall_mem_cons] at halone hfront
    obtain ⟨hx, hrest⟩ := halone
    have hagrees := @hx (x.front? f position front?) around fun op hop =>
      ⟨f, hholder, hfront.1 position op hop⟩
    rw [hholder] at hagrees
    exact List.rel_append hagrees (ih hrest hfront.2 (position + 1))

theorem agreesAlone_frame (h : (frame f fs).Regular) (hfs : ∀ x ∈ fs, AgreesAlone x) :
    AgreesAlone (frame f fs) := by
  intro front? around hfront
  by_cases hloose : ∃ unit e, IsLoose unit (frame f fs) e
  · obtain ⟨unit, e, hloose⟩ := hloose
    rw [read_of_isLoose hloose]
    cases hloose
    exact .cons (agrees_torn (by decide) (by simp [IntervalText.expression])) .nil
  · have hread := (read_frame h).resolve_right hloose
    have hspelled := (precedence_spelled _ h).resolve_right hloose
    have hloose (unit e) : ¬IsLoose unit (frame f fs) e := fun h => hloose ⟨unit, e, h⟩
    rw [hread]
    refine agrees_operands hfs rfl (fun x hx position op hop => ?_) 0
    refine spares_of_mem_front? (le_precedence_of_mem h hloose hx) ?_ (fun op hop => ?_) hop
    · rintro rfl hlayout
      have htakes := h.1
      simp [Frame.takes, hlayout] at htakes
    · obtain ⟨f', -, hspares⟩ := hfront op hop
      exact Nat.lt_of_lt_of_eq hspares.1 hspelled

theorem agreesBehind_frame (h : (frame f fs).Regular) (halone : AgreesAlone (frame f fs)) :
    AgreesBehind (frame f fs) := by
  intro op f' left around hlayout hplace _
  have hdemand := operandPrecedence_right hlayout
  obtain hspelled | ⟨unit, e, hloose⟩ := precedence_spelled _ h
  · refine halone.behind_of_lt (by simp) (hspelled ▸ ?_)
    have hplace : op.operandPrecedence 1 ≤ f.precedence := hplace
    show op.precedence < f.precedence
    by_cases hassoc : op.isAssociative = true
    · have hne := precedence_frame_ne h.1 hassoc
      rw [if_pos hassoc] at hdemand
      omega
    · rw [if_neg hassoc] at hdemand
      omega
  · by_cases hop : op.precedence = Op.times.precedence
    · exact behind_of_isLoose hloose hop
    · refine halone.behind_of_lt (by simp) ?_
      rw [hloose.spelled]
      exact Nat.lt_of_le_of_ne (precedence_le_times hlayout) hop

/-! ### All formulas -/

mutual

/-- The parameters of a formula agree with what is read of it, wherever it stands. -/
theorem agrees : ∀ x : Formula, x.Regular → AgreesAlone x ∧ AgreesBehind x
  | leaf l, _ => ⟨agreesAlone_leaf l, agreesBehind_leaf l⟩
  | interval t, _ => ⟨agreesAlone_interval t, agreesBehind_interval t⟩
  | binary op l r, h => by
    obtain ⟨hl, hlBehind⟩ := agrees l h.2.1
    obtain ⟨hr, hrBehind⟩ := agrees r h.2.2
    have halone := agreesAlone_binary h hl hr hrBehind
    exact ⟨halone, agreesBehind_binary h halone hl hlBehind hr hrBehind⟩
  | frame f fs, h => by
    have halone := agreesAlone_frame h (agreesAll fs h.2)
    exact ⟨halone, agreesBehind_frame h halone⟩

theorem agreesAll : ∀ fs : List Formula, AllRegular fs → ∀ x ∈ fs, AgreesAlone x
  | [], _ => by simp
  | x :: rest, h => by
    rw [List.forall_mem_cons]
    exact ⟨(agrees x h.1).1, agreesAll rest h.2⟩

end

end Formula

/-! ## Reading what was written -/

/-- An interval is read back as one operand of its holder if and only if the operator in front of
it is weaker than its text and leaves it to the holder. -/
theorem agrees_readText_text {d : Dialect} {aliasPrefix s : String} {n : Node} {x : Formula}
    (h : n.formula? d = some x) (hs : d.text aliasPrefix n = .ok s) :
    ∃ read, readText s = some read ∧
      List.Forall₂ Stance.Agrees (x.stances none none) (read.lineages []) := by
  have hagrees := (x.agrees (Node.regular_of_formula? n h)).1
  exact ⟨x.read, readText_text h hs, @hagrees none [] (by simp)⟩

/-- `p / (a - p)` for an interval `p` that is a multiple of a day. -/
theorem agrees_readText_difference :
    let p : Node := .parameter 0 (some (.interval .daySecond))
    let n : Node := .apply .divide [p, .apply .minus [.name ["a"], p]]
    let x : Formula := .binary .divide (.interval (.multiple .day))
      (.binary .minus (.leaf (.name ["a"])) (.interval (.multiple .day)))
    let s := "? * INTERVAL '1' DAY / (\"a\" - ? * INTERVAL '1' DAY)"
    n.formula? .ansi = some x ∧ Dialect.ansi.text "t" n = .ok s ∧
      ∃ read, readText s = some read ∧
        List.Forall₂ Stance.Agrees (x.stances none none) (read.lineages []) := by
  intro p n x s
  have h : n.formula? .ansi = some x := rfl
  have hs : Dialect.ansi.text "t" n = .ok s := by decide +kernel
  exact ⟨h, hs, agrees_readText_text h hs⟩

/-- `a / p` is read as the product of `a / ?` and a day, so `p` is no operand of the division. -/
theorem not_isOperandOf_quotient :
    let n : Node := .apply .divide [.name ["a"], .parameter 0 (some (.interval .daySecond))]
    let x : Formula := .binary .divide (.leaf (.name ["a"])) (.interval (.multiple .day))
    let s := "\"a\" / ? * INTERVAL '1' DAY"
    let read : Expression := .binary .times
      (.binary .divide (.leaf (.name ["a"])) (.leaf .parameter)) (.leaf (.interval "1" .day))
    n.formula? .ansi = some x ∧ Dialect.ansi.text "t" n = .ok s ∧ readText s = some read ∧
      x.stances none none = [⟨some (.multiple .day), some (.operator .divide), some .divide⟩] ∧
      ∀ lineage ∈ read.lineages [],
        ¬(IntervalText.multiple .day).IsOperandOf (.operator .divide) lineage := by
  intro n x s read
  have h : n.formula? .ansi = some x := rfl
  have hs : Dialect.ansi.text "t" n = .ok s := by decide +kernel
  refine ⟨h, hs, readText_text h hs, rfl, fun lineage hlineage => ?_⟩
  obtain rfl := List.mem_singleton.1 hlineage
  exact IntervalText.not_isOperandOf_multiple (by simp [IntervalText.expression])

end StorePlan.Sql
