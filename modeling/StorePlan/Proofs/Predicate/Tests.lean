import Mathlib.Data.List.Forall2
import StorePlan.Predicate.Lowering
import StorePlan.Proofs.Outcome

/-
The tests that leaves are made of: one field against literals, with an
operator that says what is asked of the field.

`ofLeaf_eq_ok_iff` says all that making a leaf can do, so whatever holds of
leaves follows from the two forms that a test has.
-/

namespace StorePlan

/-- How many literals a comparison takes. -/
def Comparison.Takes : Comparison → Nat → Prop
  | equal, n | greater, n | less, n | greaterOrEqual, n | lessOrEqual, n | like, n => n = 1
  | isIn, n => 0 < n
  | between, n => n = 2
  | isNull, n | isNotNull, n => n = 0

/-- What an operator asks of its field, and whether it asks for the contrary. -/
inductive RowOp.Asks : RowOp → Comparison → Bool → Prop where
  | equals : Asks .equals .equal false
  | notEquals : Asks .notEquals .equal true
  | lessThan : Asks .lessThan .less false
  | lessThanOrEqual : Asks .lessThanOrEqual .lessOrEqual false
  | greaterThan : Asks .greaterThan .greater false
  | greaterThanOrEqual : Asks .greaterThanOrEqual .greaterOrEqual false
  | isNull : Asks .isNull .isNull false
  | isNotNull : Asks .isNotNull .isNotNull false
  | isIn : Asks .isIn .isIn false
  | between : Asks .between .between false
  | like : Asks .like .like false

/-- The same comparison seen from its other side. -/
def Comparison.mirrored : Comparison → Comparison
  | less => greater
  | greater => less
  | lessOrEqual => greaterOrEqual
  | greaterOrEqual => lessOrEqual
  | c => c

theorem Comparison.takes_mirrored (c : Comparison) (n : Nat) : c.mirrored.Takes n ↔ c.Takes n := by
  cases c <;> exact Iff.rfl

theorem RowOp.Asks.isBoolean {op : RowOp} {c : Comparison} {negated : Bool}
    (h : op.Asks c negated) : op.isBoolean = true := by
  cases h <;> rfl

/-- A comparison of two values takes one literal. -/
theorem RowOp.Asks.takes_one {op : RowOp} {c : Comparison} {negated : Bool}
    (h : op.Asks c negated) (hop : op.isComparison = true) : c.Takes 1 := by
  cases h <;> first | rfl | cases hop

namespace RowExpr

theorem forall₂_literals {es : List RowExpr} {vs : List Value}
    (h : es.map literal? = vs.map some) : List.Forall₂ (fun e v => ∃ t, e = literal v t) es vs := by
  rw [← List.forall₂_eq_eq_eq, List.forall₂_map_left_iff, List.forall₂_map_right_iff] at h
  refine h.imp fun e v he => ?_
  cases e with
  | literal w t =>
    cases he
    exact ⟨t, rfl⟩
  | _ => cases he

/-- The expression tests a field: it has the field first and then as many literals as the
comparison takes, or it compares a literal with the field. -/
inductive TestsField : RowExpr → Nat → Comparison → Bool → List Value → Prop where
  | fieldFirst {op : RowOp} {c : Comparison} {negated : Bool} {i : Nat} {t s : DataType}
    {es : List RowExpr} {vs : List Value} :
    op.Asks c negated → c.Takes vs.length → es.map literal? = vs.map some →
      TestsField (call op (field i t :: es) s) i c negated vs
  | literalFirst {op : RowOp} {c : Comparison} {negated : Bool} {v : Value} {t u s : DataType}
    {i : Nat} :
    op.isComparison = true → op.Asks c negated →
      TestsField (call op [literal v t, field i u] s) i c.mirrored negated [v]

/-- Tests have an operator that asks something; connectives have none. -/
theorem TestsField.asks {op : RowOp} {es : List RowExpr} {s : DataType} {i : Nat} {c : Comparison}
    {negated : Bool} {vs : List Value} (h : (call op es s).TestsField i c negated vs) :
    ∃ c negated, op.Asks c negated := by
  cases h with
  | fieldFirst hasks => exact ⟨_, _, hasks⟩
  | literalFirst _ hasks => exact ⟨_, _, hasks⟩

theorem TestsField.takes {e : RowExpr} {i : Nat} {c : Comparison} {negated : Bool}
    {vs : List Value} (h : e.TestsField i c negated vs) : c.Takes vs.length := by
  cases h with
  | fieldFirst _ htakes _ => exact htakes
  | literalFirst hop hasks => exact (Comparison.takes_mirrored _ 1).2 (hasks.takes_one hop)

theorem not_testsField {op : RowOp} (hop : op = .and ∨ op = .or ∨ op = .not) {es : List RowExpr}
    {s : DataType} (i : Nat) (c : Comparison) (negated : Bool) (vs : List Value) :
    ¬(call op es s).TestsField i c negated vs := by
  intro h
  obtain ⟨_, _, hasks⟩ := h.asks
  rcases hop with rfl | rfl | rfl <;> cases hasks

theorem TestsField.field_eq {e : RowExpr} {i j : Nat} {c d : Comparison}
    {negated negated' : Bool} {vs ws : List Value} (h : e.TestsField i c negated vs)
    (h' : e.TestsField j d negated' ws) : i = j := by
  cases h <;> cases h' <;> rfl

end RowExpr

namespace Predicate

variable {schema : Schema} {whole : RowExpr}

/-! ## Literals -/

theorem literals_eq_ok_iff {es : List RowExpr} {vs : List Value} :
    literals whole es = .ok vs ↔ es.map RowExpr.literal? = vs.map some := by
  induction es generalizing vs with
  | nil => cases vs <;> simp [literals]
  | cons e rest ih =>
    rw [literals]
    cases he : e.literal? with
    | none => cases vs <;> simp [he]
    | some v =>
      simp only [bind_eq_ok, pure_eq_ok, ih]
      cases vs <;> simp [he, and_comm]

theorem literals_eq_error {es : List RowExpr} {err : PlanError}
    (h : literals whole es = .error err) : err = .notAPredicate whole := by
  induction es with
  | nil => cases h
  | cons e rest ih =>
    rw [literals] at h
    cases he : e.literal? with
    | none =>
      rw [he] at h
      exact (Except.error.inj h).symm
    | some v =>
      cases hrest : literals whole rest with
      | error _ =>
        simp only [he, hrest] at h
        cases h
        exact ih hrest
      | ok vs => simp [he, hrest, bind, Except.bind, pure, Except.pure] at h

/-! ## Leaves -/

/-- A test is lowered to a leaf, if its field has a column. -/
theorem ofLeaf_of_testsField {op : RowOp} {es : List RowExpr} {s : DataType} {i : Nat}
    {c : Comparison} {negated : Bool} {vs : List Value}
    (h : (RowExpr.call op es s).TestsField i c negated vs) :
    ∃ t, ofLeaf schema whole op es = leaf schema whole (.field i t) c negated vs := by
  cases h with
  | @fieldFirst _ _ _ _ t _ es _ hasks htakes hliterals =>
    refine ⟨t, ?_⟩
    have hvs : literals whole es = .ok vs := literals_eq_ok_iff.2 hliterals
    cases hasks with
    | isNull | isNotNull =>
      obtain rfl := List.length_eq_zero_iff.1 htakes
      obtain rfl : es = [] := by simpa using hliterals
      rfl
    | isIn | between | like =>
      simp only [Comparison.Takes] at htakes
      simp [ofLeaf, ofTest, hvs, htakes, bind, Except.bind]
    | _ =>
      obtain ⟨v, rfl⟩ := List.length_eq_one_iff.1 htakes
      obtain ⟨e, rfl, -⟩ : ∃ e, es = [e] ∧ e.literal? = some v := by
        simpa [List.map_eq_singleton_iff] using hliterals
      simp [ofLeaf, ofComparison, orient?, hvs, comparison?, bind, Except.bind]
  | @literalFirst _ _ _ _ _ t _ _ hcomparison hasks =>
    refine ⟨t, ?_⟩
    cases hasks <;> first | rfl | cases hcomparison

theorem asks_of_comparison? {op : RowOp} {c : Comparison} {negated : Bool}
    (h : comparison? op = some (c, negated)) : op.Asks c negated ∧ c.Takes 1 := by
  cases op <;> cases h <;> exact ⟨by constructor, rfl⟩

theorem exists_asks_of_swapped? {op swapped : RowOp} (h : op.swapped? = some swapped) :
    op.isComparison = true ∧ ∃ c negated, op.Asks c negated := by
  cases op <;> cases h <;> exact ⟨rfl, _, _, by constructor⟩

theorem ofTest_of_no_test {c : Comparison} {enough : Nat → Bool} {es : List RowExpr}
    (h : ∀ i t rest (vs : List Value), es = .field i t :: rest →
      rest.map RowExpr.literal? = vs.map some → enough vs.length = false) :
    ofTest schema whole c enough es = .error (.notAPredicate whole) := by
  cases es with
  | nil => rfl
  | cons operand rest =>
    cases hliterals : literals whole rest with
    | error e =>
      obtain rfl := literals_eq_error hliterals
      simp [ofTest, hliterals, bind, Except.bind]
    | ok vs =>
      cases operand with
      | field i t =>
        have := h i t rest vs rfl (literals_eq_ok_iff.1 hliterals)
        simp [ofTest, hliterals, this, bind, Except.bind]
      | _ => simp [ofTest, hliterals, leaf, RowExpr.field?, bind, Except.bind]

theorem ofComparison_of_no_test {op : RowOp} {es : List RowExpr} {s : DataType}
    (h : ∀ i c negated vs, ¬(RowExpr.call op es s).TestsField i c negated vs) :
    ofComparison schema whole op es = .error (.notAPredicate whole) := by
  unfold ofComparison
  split
  · rfl
  · rename_i operand oriented literal horient
    cases hliterals : literals whole [literal] with
    | error e =>
      obtain rfl := literals_eq_error hliterals
      rfl
    | ok vs =>
      have hvs := literals_eq_ok_iff.1 hliterals
      simp only [bind, Except.bind]
      split
      · rfl
      · rename_i c negated hcomparison
        obtain ⟨hasks, htakes⟩ := asks_of_comparison? hcomparison
        unfold orient? at horient
        split at horient
        · cases horient
          have hone : vs.length = 1 := by simpa using (congrArg List.length hvs).symm
          exact absurd (.fieldFirst hasks (hone ▸ htakes) hvs) (h _ _ _ _)
        · obtain ⟨_, hswapped, heq⟩ := Option.map_eq_some_iff.1 horient
          cases heq
          obtain ⟨hop, _, _, hasks⟩ := exists_asks_of_swapped? hswapped
          cases literal with
          | literal v t => exact absurd (.literalFirst hop hasks) (h _ _ _ _)
          | _ => cases vs <;> simp [RowExpr.literal?] at hvs
        · cases horient

theorem ofLeaf_of_no_test {op : RowOp} {es : List RowExpr} {s : DataType}
    (h : ∀ i c negated vs, ¬(RowExpr.call op es s).TestsField i c negated vs) :
    ofLeaf schema whole op es = .error (.notAPredicate whole) := by
  cases op with
  | isNull | isNotNull =>
    match es with
    | [.field i t] => exact absurd (.fieldFirst (by constructor) (by rfl) rfl) (h i _ false [])
    | [.literal ..] | [.call ..] | [] | _ :: _ :: _ => rfl
  | isIn | between | like =>
    simp only [ofLeaf]
    refine ofTest_of_no_test fun i t rest vs hes hvs => ?_
    subst hes
    by_contra henough
    refine h i _ false vs (.fieldFirst (by constructor) ?_ hvs)
    simpa [Comparison.Takes, List.length_pos_iff] using henough
  | _ => exact ofComparison_of_no_test h

/-- A leaf is made of a test of a field that has a column, and of nothing else. -/
theorem ofLeaf_eq_ok_iff {op : RowOp} {es : List RowExpr} {p : Predicate} (s : DataType) :
    ofLeaf schema whole op es = .ok p ↔ ∃ i c negated vs column,
      (RowExpr.call op es s).TestsField i c negated vs ∧ schema.column? i = some column ∧
        p = .atomic ⟨column.name, column.type, c, negated, vs⟩ := by
  constructor
  · intro h
    by_cases htest : ∃ i c negated vs, (RowExpr.call op es s).TestsField i c negated vs
    · obtain ⟨i, c, negated, vs, htest⟩ := htest
      obtain ⟨t, ht⟩ : ∃ t, ofLeaf schema whole op es =
        leaf schema whole (.field i t) c negated vs := ofLeaf_of_testsField htest
      rw [ht, leaf, RowExpr.field?] at h
      dsimp only at h
      cases hcolumn : schema.column? i with
      | none => simp [hcolumn] at h
      | some column =>
        simp only [hcolumn, Except.ok.injEq] at h
        exact ⟨i, c, negated, vs, column, htest, hcolumn, h.symm⟩
    · rw [ofLeaf_of_no_test fun i c negated vs h => htest ⟨i, c, negated, vs, h⟩] at h
      cases h
  · rintro ⟨i, c, negated, vs, column, htest, hcolumn, rfl⟩
    obtain ⟨t, ht⟩ := ofLeaf_of_testsField htest
    rw [ht, leaf, RowExpr.field?]
    simp only [hcolumn]

end Predicate

end StorePlan
