import StorePlan.Proofs.Predicate.Literals

/-
The attributes of a predicate. A condition that becomes a predicate has one
leaf for every field that it refers to, over the column of that field and in
the same order, and it calls for no distance.
-/

namespace StorePlan

namespace RowExpr

mutual

/-- The operands of each distance call, those of an outer call before those of inner ones. -/
def distances : RowExpr → List (List RowExpr)
  | .field .. => []
  | .literal .. => []
  | .call op es _ => (if op = .distance then [es] else []) ++ allDistances es
termination_by structural e => e

def allDistances : List RowExpr → List (List RowExpr)
  | [] => []
  | e :: rest => e.distances ++ allDistances rest
termination_by structural es => es

end

theorem fields_of_literal? {e : RowExpr} {v : Value} (h : e.literal? = some v) :
    e.fields = [] ∧ e.distances = [] := by
  cases e with
  | literal => simp [fields, distances]
  | _ => simp [literal?] at h

theorem allFields_of_forall₂ {es : List RowExpr} {vs : List Value}
    (h : List.Forall₂ (fun e v => ∃ t, e = literal v t) es vs) :
    allFields es = [] ∧ allDistances es = [] := by
  induction h with
  | nil => simp [allFields, allDistances]
  | cons he _ ih =>
    obtain ⟨t, rfl⟩ := he
    simp [allFields, allDistances, fields, distances, ih]

/-- A test refers to its field only and calls for no distance. -/
theorem TestsField.allFields_eq {op : RowOp} {es : List RowExpr} {s : DataType} {i : Nat}
    {c : Comparison} {negated : Bool} {vs : List Value}
    (h : (call op es s).TestsField i c negated vs) :
    allFields es = [i] ∧ allDistances es = [] := by
  cases h with
  | fieldFirst _ _ hliterals =>
    obtain ⟨hfields, hdistances⟩ := allFields_of_forall₂ (forall₂_literals hliterals)
    simp [allFields, allDistances, fields, distances, hfields, hdistances]
  | literalFirst => simp [allFields, allDistances, fields, distances]

end RowExpr

/-- A leaf is over the column of a field. -/
def Atom.IsOver (schema : Schema) (i : Nat) (a : Atom) : Prop :=
  ∃ c, schema.column? i = some c ∧ a.attributeName = c.name ∧ a.type = c.type

namespace Predicate

variable {schema : Schema} {whole : RowExpr}

/-! ## Leaves -/

/-- Operands that make a leaf are one field among literals. -/
def IsLeafOver (schema : Schema) (es : List RowExpr) (p : Predicate) : Prop :=
  ∃ i a, RowExpr.allFields es = [i] ∧ RowExpr.allDistances es = [] ∧ p = .atomic a ∧
    a.IsOver schema i

theorem isLeafOver_ofLeaf {op : RowOp} {es : List RowExpr} {p : Predicate}
    (h : ofLeaf schema whole op es = .ok p) : op ≠ .distance ∧ IsLeafOver schema es p := by
  obtain ⟨i, c, negated, vs, column, htest, hcolumn, rfl⟩ := (ofLeaf_eq_ok_iff .boolean).1 h
  obtain ⟨hfields, hdistances⟩ := htest.allFields_eq
  refine ⟨?_, i, _, hfields, hdistances, rfl, column, hcolumn, rfl, rfl⟩
  rintro rfl
  obtain ⟨_, _, hasks⟩ := htest.asks
  cases hasks

/-! ## Whole conditions -/

theorem atoms_foldl (c : Connective) (p : Predicate) (ps : List Predicate) :
    (ps.foldl (compound c) p).atoms = p.atoms ++ ps.flatMap atoms := by
  induction ps generalizing p with
  | nil => simp
  | cons q rest ih => rw [List.foldl_cons, ih, atoms, List.flatMap_cons, List.append_assoc]

theorem atoms_combine {c : Connective} {ps : List Predicate} {p : Predicate}
    (h : combine whole c ps = .ok p) : p.atoms = ps.flatMap atoms := by
  cases ps with
  | nil => simp [combine] at h
  | cons q rest =>
    obtain rfl := Except.ok.inj h
    exact atoms_foldl c q rest

mutual

/-- The leaves of a predicate are over the fields that its condition refers to, in their order. -/
theorem isOver_ofCondition : ∀ {e : RowExpr} {p : Predicate}, ofCondition schema e = .ok p →
    List.Forall₂ (Atom.IsOver schema) e.fields p.atoms ∧ e.distances = []
  | .field .., _, h => by simp [ofCondition] at h
  | .literal .., _, h => by simp [ofCondition] at h
  | .call op es t, p, h => by
    rw [RowExpr.fields, RowExpr.distances]
    cases op with
    | and | or =>
      simp only [ofCondition, bind_eq_ok] at h
      obtain ⟨ps, hps, h⟩ := h
      rw [atoms_combine h]
      simpa using isOver_ofConditions hps
    | not =>
      match es, h with
      | [e], h =>
        simp only [ofCondition, bind_eq_ok, pure_eq_ok] at h
        obtain ⟨q, hq, rfl⟩ := h
        obtain ⟨hover, hdistances⟩ := isOver_ofCondition hq
        rw [atoms_negate, List.forall₂_map_right_iff, RowExpr.allFields, RowExpr.allFields,
          List.append_nil, RowExpr.allDistances, RowExpr.allDistances, hdistances]
        exact ⟨hover, rfl⟩
      | [], h | _ :: _ :: _, h => simp [ofCondition] at h
    | _ =>
      obtain ⟨hop, i, a, hfields, hdistances, rfl, hover⟩ := isLeafOver_ofLeaf h
      rw [hfields, hdistances, if_neg hop]
      exact ⟨.cons hover .nil, rfl⟩

theorem isOver_ofConditions : ∀ {es : List RowExpr} {ps : List Predicate},
    ofConditions schema es = .ok ps →
    List.Forall₂ (Atom.IsOver schema) (RowExpr.allFields es) (ps.flatMap atoms) ∧
      RowExpr.allDistances es = []
  | [], ps, h => by
    obtain rfl := Except.ok.inj h
    simp [RowExpr.allFields, RowExpr.allDistances]
  | e :: rest, ps, h => by
    simp only [ofConditions, bind_eq_ok, pure_eq_ok] at h
    obtain ⟨p, hp, ps, hps, rfl⟩ := h
    obtain ⟨hover, hdistances⟩ := isOver_ofCondition hp
    obtain ⟨hovers, hrest⟩ := isOver_ofConditions hps
    rw [RowExpr.allFields, RowExpr.allDistances, List.flatMap_cons, hdistances, hrest]
    exact ⟨List.rel_append hover hovers, rfl⟩

end

/-- Each leaf is over a column. -/
theorem exists_column_of_mem_atoms {e : RowExpr} {p : Predicate} (hp : ofCondition schema e = .ok p)
    {a : Atom} (ha : a ∈ p.atoms) :
    ∃ c ∈ schema.columns, a.attributeName = c.name ∧ a.type = c.type := by
  obtain ⟨i, -, c, hc, hname, htype⟩ := exists_of_mem_of_forall₂ (isOver_ofCondition hp).1 ha
  exact ⟨c, List.mem_of_getElem? hc, hname, htype⟩

end Predicate

end StorePlan
