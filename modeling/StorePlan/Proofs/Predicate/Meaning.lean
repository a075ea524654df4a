import StorePlan.Proofs.Predicate.Tests
import StorePlan.Proofs.RowExpr.Meaning

/-
Lowering keeps the meaning of a condition: the predicate is true, false or
unknown of an assignment of values to attributes exactly as the condition is
of the row that the assignment makes.

`truth_negate` is why negations may be pushed down to the leaves, also where
a truth is unknown; the mirror laws of `Interpretation` are why a literal may
change sides.
-/

namespace StorePlan

/-- What a comparison asks of a value; unknown for a number of literals that it does not have. -/
def Comparison.truth (I : Interpretation) (v : Value) : Comparison → List Value → Truth
  | equal, [w] => I.equal v w
  | greater, [w] => I.greater v w
  | less, [w] => I.less v w
  | greaterOrEqual, [w] => I.greaterOrEqual v w
  | lessOrEqual, [w] => I.lessOrEqual v w
  | isIn, ws => I.isIn v ws
  | between, [low, high] => I.between v low high
  | isNull, [] => .ofBool v.isNull
  | isNotNull, [] => .ofBool !v.isNull
  | like, [w] => I.like v w
  | _, _ => .unknown

/-- A truth or its negation. -/
def Truth.negateIf (negated : Bool) (t : Truth) : Truth := if negated then t.not else t

/-- The truth of a leaf under an assignment of values to attributes. -/
def Atom.truth (I : Interpretation) (env : String → Value) (a : Atom) : Truth :=
  (a.comparison.truth I (env a.attributeName) a.values).negateIf a.negated

def Connective.truth : Connective → Truth → Truth → Truth
  | and => .and
  | or => .or

/-- The row of a row type under an assignment of values to attributes. -/
def Schema.row (s : Schema) (env : String → Value) : List Value :=
  s.columns.map fun c => env c.name

/-- A row has in these fields what an assignment says of their columns. -/
def Schema.Reads (s : Schema) (env : String → Value) (row : List Value) (fields : List Nat) :
    Prop :=
  ∀ i ∈ fields, ∀ c, s.column? i = some c → row[i]?.getD .null = env c.name

namespace Schema

variable {s : Schema} {env : String → Value} {row : List Value}

theorem reads_row (s : Schema) (env : String → Value) (fields : List Nat) :
    s.Reads env (s.row env) fields := by
  intro i _ c hc
  unfold column? at hc
  simp [Schema.row, hc]

theorem reads_append {fields others : List Nat} :
    s.Reads env row (fields ++ others) ↔ s.Reads env row fields ∧ s.Reads env row others := by
  simp [Reads, or_imp, forall_and]

end Schema

namespace Predicate

/-- The truth of a predicate under an assignment of values to attributes. -/
def truth (I : Interpretation) (env : String → Value) : Predicate → Truth
  | atomic a => a.truth I env
  | compound c l r => c.truth (l.truth I env) (r.truth I env)

theorem truth_negate (I : Interpretation) (env : String → Value) (p : Predicate) :
    p.negate.truth I env = (p.truth I env).not := by
  induction p with
  | atomic a => cases h : a.negated <;> simp [negate, truth, Atom.truth, Truth.negateIf, h]
  | compound c l r ihl ihr =>
    rw [negate, truth, ihl, ihr, truth]
    cases c with
    | and => exact (Truth.not_and _ _).symm
    | or => exact (Truth.not_or _ _).symm

theorem truth_foldl (I : Interpretation) (env : String → Value) (c : Connective) (p : Predicate)
    (ps : List Predicate) :
    (ps.foldl (compound c) p).truth I env =
      (ps.map (truth I env)).foldl c.truth (p.truth I env) := by
  induction ps generalizing p with
  | nil => rfl
  | cons q rest ih => rw [List.foldl_cons, ih, List.map_cons, List.foldl_cons, truth]

end Predicate

/-! ## Tests -/

namespace RowExpr

variable {I : Interpretation} {row : List Value}

theorem values_of_forall₂ {es : List RowExpr} {vs : List Value}
    (h : List.Forall₂ (fun e v => ∃ t, e = literal v t) es vs) : values I row es = vs := by
  induction h with
  | nil => rw [values]
  | cons he _ ih =>
    obtain ⟨t, rfl⟩ := he
    rw [values, value, ih]

theorem TestsField.mem_allFields {op : RowOp} {es : List RowExpr} {s : DataType} {i : Nat}
    {c : Comparison} {negated : Bool} {vs : List Value}
    (h : (call op es s).TestsField i c negated vs) : i ∈ allFields es := by
  cases h <;> simp [allFields, fields]

/-- A test asks its comparison of what the row has in the field. -/
theorem TestsField.truth_eq {op : RowOp} {es : List RowExpr} {s : DataType} {i : Nat}
    {c : Comparison} {negated : Bool} {vs : List Value}
    (h : (call op es s).TestsField i c negated vs) :
    I.truth op (values I row es) =
      (c.truth I (row[i]?.getD .null) vs).negateIf negated := by
  cases h with
  | fieldFirst hasks htakes hliterals =>
    rw [values, value, values_of_forall₂ (forall₂_literals hliterals)]
    cases hasks with
    | isNull | isNotNull =>
      obtain rfl := List.length_eq_zero_iff.1 htakes
      rfl
    | isIn => rfl
    | between =>
      obtain ⟨low, high, rfl⟩ := List.length_eq_two.1 htakes
      rfl
    | _ =>
      obtain ⟨v, rfl⟩ := List.length_eq_one_iff.1 htakes
      rfl
  | literalFirst hcomparison hasks =>
    simp only [values, value]
    -- The laws of an interpretation say that a comparison may be turned around.
    cases hasks with
    | equals => exact I.equal_symm _ _
    | notEquals => exact congrArg Truth.not (I.equal_symm _ _)
    | lessThan => exact I.less_mirror _ _
    | lessThanOrEqual => exact I.lessOrEqual_mirror _ _
    | greaterThan => exact (I.less_mirror _ _).symm
    | greaterThanOrEqual => exact (I.lessOrEqual_mirror _ _).symm
    | _ => cases hcomparison

end RowExpr

namespace Predicate

variable {schema : Schema} {whole : RowExpr} {I : Interpretation} {env : String → Value}
  {row : List Value}

/-- A leaf has the truth of its test, if the row has in its field what the assignment says. -/
theorem truth_ofLeaf {op : RowOp} {es : List RowExpr} {p : Predicate}
    (hrow : schema.Reads env row (RowExpr.allFields es))
    (h : ofLeaf schema whole op es = .ok p) :
    op.isBoolean = true ∧ p.truth I env = I.truth op (RowExpr.values I row es) := by
  obtain ⟨i, c, negated, vs, column, htest, hcolumn, rfl⟩ := (ofLeaf_eq_ok_iff .boolean).1 h
  obtain ⟨_, _, hasks⟩ := htest.asks
  refine ⟨hasks.isBoolean, ?_⟩
  rw [htest.truth_eq, hrow i htest.mem_allFields column hcolumn, truth, Atom.truth]

/-! ## Whole conditions -/

theorem ofCondition_of_leaf {op : RowOp} (hand : op ≠ .and) (hor : op ≠ .or) (hnot : op ≠ .not)
    (es : List RowExpr) (t : DataType) :
    ofCondition schema (.call op es t) = ofLeaf schema (.call op es t) op es := by
  cases op <;> first | contradiction | rfl

theorem truth_combine (I : Interpretation) (env : String → Value) {c : Connective}
    {ps : List Predicate} {p : Predicate}
    (h : combine whole c ps = .ok p) :
    ∃ q rest, ps.map (truth I env) = q :: rest ∧ p.truth I env = rest.foldl c.truth q := by
  cases ps with
  | nil => simp [combine] at h
  | cons q rest =>
    simp only [combine, Except.ok.injEq] at h
    subst h
    exact ⟨_, _, rfl, truth_foldl ..⟩

theorem truth_combine_and {ps : List Predicate} {p : Predicate}
    (h : combine whole .and ps = .ok p) : p.truth I env = .all (ps.map (truth I env)) := by
  obtain ⟨q, rest, hps, hp⟩ := truth_combine I env h
  rw [hps, hp]
  exact Truth.foldl_and q rest

theorem truth_combine_or {ps : List Predicate} {p : Predicate}
    (h : combine whole .or ps = .ok p) : p.truth I env = .any (ps.map (truth I env)) := by
  obtain ⟨q, rest, hps, hp⟩ := truth_combine I env h
  rw [hps, hp]
  exact Truth.foldl_or q rest

mutual

/-- A predicate has the truth of the condition that it was lowered from, on every row that has in
the condition's fields what the assignment says of their columns. -/
theorem truth_of_reads (I : Interpretation) {env : String → Value} {row : List Value} :
    ∀ {e : RowExpr} {p : Predicate}, schema.Reads env row e.fields →
      ofCondition schema e = .ok p → p.truth I env = e.truth I row
  | .field .., _, _, h => by simp [ofCondition] at h
  | .literal .., _, _, h => by simp [ofCondition] at h
  | .call op es t, p, hrow, h => by
    rw [RowExpr.fields] at hrow
    -- All operators but the connectives share one equation, so the connectives are split off first.
    by_cases hand : op = .and
    · subst hand
      rw [ofCondition] at h
      obtain ⟨ps, hps, h⟩ := bind_eq_ok.1 h
      rw [truth_combine_and h, map_truth_of_reads I hrow hps, RowExpr.truth_call rfl,
        Interpretation.truth, RowExpr.map_truth_values]
    by_cases hor : op = .or
    · subst hor
      rw [ofCondition] at h
      obtain ⟨ps, hps, h⟩ := bind_eq_ok.1 h
      rw [truth_combine_or h, map_truth_of_reads I hrow hps, RowExpr.truth_call rfl,
        Interpretation.truth, RowExpr.map_truth_values]
    by_cases hnot : op = .not
    · subst hnot
      match es, hrow, h with
      | [], _, h => simp [ofCondition] at h
      | [e], hrow, h =>
        simp only [ofCondition, bind_eq_ok, pure_eq_ok] at h
        obtain ⟨q, hq, rfl⟩ := h
        have hoperand := (Schema.reads_append.1 hrow).1
        rw [truth_negate, truth_of_reads I hoperand hq, RowExpr.truth_call rfl]
        rfl
      | _ :: _ :: _, _, h => simp [ofCondition] at h
    rw [ofCondition_of_leaf hand hor hnot] at h
    obtain ⟨hboolean, htruth⟩ := truth_ofLeaf hrow h
    rw [htruth, RowExpr.truth_call hboolean]

theorem map_truth_of_reads (I : Interpretation) {env : String → Value} {row : List Value} :
    ∀ {es : List RowExpr} {ps : List Predicate}, schema.Reads env row (RowExpr.allFields es) →
      ofConditions schema es = .ok ps → ps.map (truth I env) = es.map (RowExpr.truth I row)
  | [], ps, _, h => by
    rw [ofConditions, Except.ok.injEq] at h
    subst h
    rfl
  | e :: rest, ps, hrow, h => by
    simp only [ofConditions, bind_eq_ok, pure_eq_ok] at h
    obtain ⟨p, hp, ps, hps, rfl⟩ := h
    obtain ⟨hfirst, hothers⟩ := Schema.reads_append.1 hrow
    rw [List.map_cons, List.map_cons, truth_of_reads I hfirst hp, map_truth_of_reads I hothers hps]

end

/-- A predicate has the truth of the condition that it was lowered from, on the row that the
assignment makes of the row type. -/
theorem truth_ofCondition (I : Interpretation) (env : String → Value) :
    ∀ {e : RowExpr} {p : Predicate}, ofCondition schema e = .ok p →
      p.truth I env = e.truth I (schema.row env) :=
  fun h => truth_of_reads I (schema.reads_row env _) h

/-! ## A condition on a missing value -/

/-- Values compare as integers or as strings, and are unknown to one another otherwise. -/
def plainly : Interpretation where
  equal
    | .bigInt i, .bigInt j => .ofBool (i == j)
    | .string s, .string t => .ofBool (s == t)
    | _, _ => .unknown
  less := less
  lessOrEqual := lessOrEqual
  greater v w := less w v
  greaterOrEqual v w := lessOrEqual w v
  like _ _ := .unknown
  scalar _ _ := .null
  equal_symm v w := by
    split
    · simp [Bool.beq_comm]
    · simp [Bool.beq_comm]
    · cases v <;> cases w <;> simp_all
  less_mirror _ _ := rfl
  lessOrEqual_mirror _ _ := rfl
where
  less : Value → Value → Truth
    | .bigInt i, .bigInt j => .ofBool (i < j)
    | _, _ => .unknown
  lessOrEqual : Value → Value → Truth
    | .bigInt i, .bigInt j => .ofBool (i ≤ j)
    | _, _ => .unknown

/-- The row type of articles on stock. -/
def stock : Schema := ⟨[⟨"sku", .string none, false⟩, ⟨"units", .integer .bits64, true⟩]⟩

/-- Not both more than five units and one of two articles. -/
def scarce : RowExpr :=
  .apply .not
    [.apply .and
      [.apply .lessThan [.ofValue (.bigInt 5), .field 1 (.integer .bits64)],
        .apply .isIn
          [.field 0 (.string none), .ofValue (.string "A1"), .ofValue (.string "B2")]]]

/-- An article of which the number of units is not known. -/
def uncounted : String → Value
  | "sku" => .string "C3"
  | _ => .null

theorem truth_scarce :
    ∃ p, ofCondition stock scarce = .ok p ∧ p.truth plainly uncounted = .holds ∧
      p.truth plainly uncounted = scarce.truth plainly (stock.row uncounted) :=
  ⟨_, rfl, rfl, truth_ofCondition plainly uncounted rfl⟩

end Predicate

end StorePlan
