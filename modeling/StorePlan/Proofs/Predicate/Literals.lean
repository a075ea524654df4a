import StorePlan.Proofs.Predicate.Tests

/-
The literals of a predicate. Lowering a condition keeps its literals in their
order, and every leaf has as many of them as its comparison takes.
-/

namespace StorePlan

namespace RowExpr

mutual

/-- The literals of an expression, from left to right. -/
def literals : RowExpr → List Value
  | .field .. => []
  | .literal v _ => [v]
  | .call _ es _ => allLiterals es
termination_by structural e => e

def allLiterals : List RowExpr → List Value
  | [] => []
  | e :: rest => e.literals ++ allLiterals rest
termination_by structural es => es

end

theorem allLiterals_eq (es : List RowExpr) : allLiterals es = (es.map literals).flatten := by
  induction es with
  | nil => rw [allLiterals, List.map_nil, List.flatten_nil]
  | cons e rest ih => rw [allLiterals, ih, List.map_cons, List.flatten_cons]

theorem allLiterals_of_forall₂ {es : List RowExpr} {vs : List Value}
    (h : List.Forall₂ (fun e v => ∃ t, e = literal v t) es vs) : allLiterals es = vs := by
  induction h with
  | nil => rw [allLiterals]
  | cons he _ ih =>
    obtain ⟨t, rfl⟩ := he
    rw [allLiterals, literals, ih, List.singleton_append]

/-- A test has the literals that it compares its field with. -/
theorem TestsField.allLiterals_eq {op : RowOp} {es : List RowExpr} {s : DataType} {i : Nat}
    {c : Comparison} {negated : Bool} {vs : List Value}
    (h : (call op es s).TestsField i c negated vs) : allLiterals es = vs := by
  cases h with
  | fieldFirst _ _ hliterals =>
    rw [allLiterals, literals, List.nil_append]
    exact allLiterals_of_forall₂ (forall₂_literals hliterals)
  | literalFirst => simp [allLiterals, literals]

end RowExpr

namespace Predicate

/-- The literals of all leaves, from left to right. -/
def values (p : Predicate) : List Value := p.atoms.flatMap (·.values)

@[simp] theorem values_atomic (a : Atom) : (atomic a).values = a.values := by
  simp [values, atoms]

@[simp] theorem values_compound (c : Connective) (l r : Predicate) :
    (compound c l r).values = l.values ++ r.values := by
  simp [values, atoms]

/-- The leaves have these literals, each of them as many as its comparison takes. -/
structure Fills (p : Predicate) (vs : List Value) : Prop where
  values_eq : p.values = vs
  takes : ∀ a ∈ p.atoms, a.comparison.Takes a.values.length

theorem atoms_negate (p : Predicate) :
    p.negate.atoms = p.atoms.map fun a => { a with negated := !a.negated } := by
  induction p with
  | atomic a => rfl
  | compound c l r ihl ihr => simp [negate, atoms, ihl, ihr]

theorem Fills.negate {p : Predicate} {vs : List Value} (h : p.Fills vs) : p.negate.Fills vs where
  values_eq := by
    rw [values, atoms_negate, List.flatMap_map]
    exact h.values_eq
  takes := by
    rw [atoms_negate, List.forall_mem_map]
    exact h.takes

theorem Fills.compound {l r : Predicate} {vs ws : List Value} (hl : l.Fills vs) (hr : r.Fills ws)
    (c : Connective) : (compound c l r).Fills (vs ++ ws) where
  values_eq := by
    rw [values_compound, hl.values_eq, hr.values_eq]
  takes := by
    simp only [atoms, List.forall_mem_append]
    exact ⟨hl.takes, hr.takes⟩

variable {schema : Schema} {whole : RowExpr}

theorem Fills.foldl {c : Connective} {p : Predicate} {ps : List Predicate} {vs : List Value}
    {rest : List (List Value)} (hp : p.Fills vs) (h : List.Forall₂ Fills ps rest) :
    (ps.foldl (Predicate.compound c) p).Fills (vs ++ rest.flatten) := by
  induction h generalizing p vs with
  | nil => simpa using hp
  | cons hq _ ih =>
    rw [List.foldl_cons, List.flatten_cons, ← List.append_assoc]
    exact ih (hp.compound hq c)

/-! ## Leaves -/

/-- A leaf has the literals of its test. -/
theorem fills_ofLeaf {op : RowOp} {es : List RowExpr} {p : Predicate}
    (h : ofLeaf schema whole op es = .ok p) : p.Fills (RowExpr.allLiterals es) := by
  obtain ⟨i, c, negated, vs, column, htest, -, rfl⟩ := (ofLeaf_eq_ok_iff .boolean).1 h
  rw [htest.allLiterals_eq]
  exact ⟨values_atomic _, by simpa [atoms] using htest.takes⟩

/-! ## Whole conditions -/

theorem fills_combine {c : Connective} {ps : List Predicate} {p : Predicate}
    {vss : List (List Value)} (hps : List.Forall₂ Fills ps vss)
    (h : combine whole c ps = .ok p) : p.Fills vss.flatten := by
  cases hps with
  | nil => simp [combine] at h
  | cons hq hrest =>
    simp only [combine, Except.ok.injEq] at h
    subst h
    rw [List.flatten_cons]
    exact hq.foldl hrest

mutual

/-- Lowering keeps the literals of a condition, and leaves no leaf with too many or too few. -/
theorem fills_ofCondition : ∀ {e : RowExpr} {p : Predicate}, ofCondition schema e = .ok p →
    p.Fills e.literals
  | .field .., _, h => by simp [ofCondition] at h
  | .literal .., _, h => by simp [ofCondition] at h
  | .call op es t, p, h => by
    rw [RowExpr.literals]
    cases op with
    | and | or =>
      simp only [ofCondition, bind_eq_ok] at h
      obtain ⟨ps, hps, h⟩ := h
      rw [RowExpr.allLiterals_eq]
      exact fills_combine (fills_ofConditions hps) h
    | not =>
      match es, h with
      | [e], h =>
        simp only [ofCondition, bind_eq_ok, pure_eq_ok] at h
        obtain ⟨q, hq, rfl⟩ := h
        rw [RowExpr.allLiterals, RowExpr.allLiterals, List.append_nil]
        exact (fills_ofCondition hq).negate
      | [], h | _ :: _ :: _, h => simp [ofCondition] at h
    | _ => exact fills_ofLeaf h

theorem fills_ofConditions : ∀ {es : List RowExpr} {ps : List Predicate},
    ofConditions schema es = .ok ps → List.Forall₂ Fills ps (es.map RowExpr.literals)
  | [], ps, h => by
    rw [ofConditions, Except.ok.injEq] at h
    subst h
    exact .nil
  | e :: rest, ps, h => by
    simp only [ofConditions, bind_eq_ok, pure_eq_ok] at h
    obtain ⟨p, hp, ps, hps, rfl⟩ := h
    exact .cons (fills_ofCondition hp) (fills_ofConditions hps)

end

end Predicate

end StorePlan
