import StorePlan.Proofs.Predicate.Attributes
import StorePlan.Proofs.Predicate.Meaning
import StorePlan.Proofs.Predicate.Untyped

/-
Which conditions are lowered, by a grammar: tests of one field against
literals, under conjunctions, disjunctions and negations.

The connectives of an expression lead to its tests, whether these are ones or
not (`RowExpr.tests`). `lowered_ofCondition` goes through them from left to
right: a leaf for each, or the failure of the first that is no test of a field
that the row type has.
-/

namespace StorePlan

namespace RowExpr

/-- The expression tests a field that rows of a width have. -/
def IsTest (width : Nat) (e : RowExpr) : Prop :=
  ∃ i c negated vs, e.TestsField i c negated vs ∧ i < width

/-- The conditions that predicates stand for, over rows of a width. -/
inductive InFragment (width : Nat) : RowExpr → Prop where
  | test {e : RowExpr} : e.IsTest width → InFragment width e
  | connective {op : RowOp} {es : List RowExpr} {t : DataType} :
    op = .and ∨ op = .or → es ≠ [] → (∀ e ∈ es, InFragment width e) →
      InFragment width (call op es t)
  | not {e : RowExpr} {t : DataType} : InFragment width e → InFragment width (call .not [e] t)

mutual

/-- What stands below the connectives of an expression, from left to right, and whether under an
odd number of negations. A connective without operands of its number stands for itself. -/
def tests : RowExpr → List (Bool × RowExpr)
  | .call .and (e :: rest) _ => e.tests ++ allTests rest
  | .call .or (e :: rest) _ => e.tests ++ allTests rest
  | .call .not [e] _ => e.tests.map fun (negated, test) => (!negated, test)
  | e => [(false, e)]
termination_by structural e => e

def allTests : List RowExpr → List (Bool × RowExpr)
  | [] => []
  | e :: rest => e.tests ++ allTests rest
termination_by structural es => es

end

theorem IsTest.tests_eq {width : Nat} {e : RowExpr} (h : e.IsTest width) :
    e.tests = [(false, e)] := by
  obtain ⟨_, _, _, _, h, -⟩ := h
  cases h with
  | fieldFirst hasks => cases hasks <;> rfl
  | literalFirst _ hasks => cases hasks <;> rfl

end RowExpr

/-- The leaf of a test that stands below an odd number of negations or not. -/
def Atom.IsLeafOf (schema : Schema) (test : Bool × RowExpr) (a : Atom) : Prop :=
  ∃ i c negated vs column, test.2.TestsField i c negated vs ∧ schema.column? i = some column ∧
    a = ⟨column.name, column.type, c, test.1 ^^ negated, vs⟩

/-- How lowering fails on an expression that is no connective of lowered ones: for want of a
column if that is all that is wrong with it. -/
inductive PlanError.Explains (schema : Schema) : RowExpr → PlanError → Prop where
  | missing {e : RowExpr} {i : Nat} {c : Comparison} {negated : Bool} {vs : List Value} :
    e.TestsField i c negated vs → schema.width ≤ i →
      Explains schema e (.fieldOutOfRange .filter i schema.width)
  | noTest {e : RowExpr} :
    (∀ i c negated vs, ¬e.TestsField i c negated vs) → Explains schema e (.notAPredicate e)

theorem PlanError.Explains.not_isTest {schema : Schema} {e : RowExpr} {err : PlanError}
    (h : err.Explains schema e) : ¬e.IsTest schema.width := by
  rintro ⟨i, c, negated, vs, htest, hi⟩
  cases h with
  | missing hmissing hle =>
    obtain rfl := hmissing.field_eq htest
    omega
  | noTest hnone => exact hnone i c negated vs htest

namespace Predicate

variable {schema : Schema} {whole : RowExpr}

/-! ## Connectives -/

/-- What lowering yields, as leaves from left to right: one for each test, or the failure of the
first test that fails. -/
inductive Lowered (schema : Schema) :
    List (Bool × RowExpr) → Except PlanError (List Atom) → Prop where
  | leaves {tests : List (Bool × RowExpr)} {leaves : List Atom} :
    List.Forall₂ (Atom.IsLeafOf schema) tests leaves → Lowered schema tests (.ok leaves)
  | failure {tests before after : List (Bool × RowExpr)} {test : Bool × RowExpr}
    {err : PlanError} :
    tests = before ++ test :: after → (∀ t ∈ before, t.2.IsTest schema.width) →
      err.Explains schema test.2 → Lowered schema tests (.error err)

theorem Lowered.single {test : Bool × RowExpr} {err : PlanError} (h : err.Explains schema test.2) :
    Lowered schema [test] (.error err) :=
  .failure (List.nil_append [test]).symm (List.forall_mem_nil _) h

theorem isTest_of_isLeafOf {test : Bool × RowExpr} {a : Atom} (h : a.IsLeafOf schema test) :
    test.2.IsTest schema.width := by
  obtain ⟨i, c, negated, vs, column, htest, hcolumn, -⟩ := h
  refine ⟨i, c, negated, vs, htest, Nat.lt_of_not_le fun hle => ?_⟩
  rw [Schema.column?_eq_none_iff.2 hle] at hcolumn
  cases hcolumn

theorem Lowered.append {tests others : List (Bool × RowExpr)}
    {x y : Except PlanError (List Atom)} (hx : Lowered schema tests x)
    (hy : Lowered schema others y) :
    Lowered schema (tests ++ others) (do return (← x) ++ (← y)) := by
  cases hx with
  | failure htests hbefore hexplains =>
    exact .failure (by rw [htests, List.append_assoc, List.cons_append]) hbefore hexplains
  | leaves hleaves =>
    cases hy with
    | leaves hothers => exact .leaves (List.rel_append hleaves hothers)
    | failure hothers hbefore hexplains =>
      refine .failure (by rw [hothers, ← List.append_assoc]) (fun t ht => ?_) hexplains
      rcases List.mem_append.1 ht with ht | ht
      · obtain ⟨a, -, ha⟩ := exists_of_mem_of_forall₂ hleaves.flip ht
        exact isTest_of_isLeafOf ha
      · exact hbefore t ht

/-- The contrary of every test has the contrary of every leaf. -/
theorem Lowered.negate {tests : List (Bool × RowExpr)} {x : Except PlanError (List Atom)}
    (h : Lowered schema tests x) :
    Lowered schema (tests.map fun (negated, test) => (!negated, test))
      (List.map (fun a => { a with negated := !a.negated }) <$> x) := by
  cases h with
  | leaves hleaves =>
    refine .leaves (List.rel_map (fun test a ha => ?_) hleaves)
    obtain ⟨i, c, negated, vs, column, htest, hcolumn, rfl⟩ := ha
    exact ⟨i, c, negated, vs, column, htest, hcolumn, by simp⟩
  | failure htests hbefore hexplains =>
    have hsplit := congrArg (List.map fun (negated, test) => (!negated, test)) htests
    rw [List.map_append, List.map_cons] at hsplit
    refine .failure hsplit (fun t ht => ?_) hexplains
    obtain ⟨u, hu, rfl⟩ := List.mem_map.1 ht
    exact hbefore u hu

theorem lowered_of_leaf {op : RowOp} {es : List RowExpr} {s : DataType}
    (h : ofCondition schema (.call op es s) = ofLeaf schema (.call op es s) op es) :
    Lowered schema [(false, .call op es s)] (atoms <$> ofCondition schema (.call op es s)) := by
  rw [h]
  by_cases htest : ∃ i c negated vs, (RowExpr.call op es s).TestsField i c negated vs
  · obtain ⟨i, c, negated, vs, htest⟩ := htest
    obtain ⟨t, ht⟩ : ∃ t, ofLeaf schema (.call op es s) op es =
        leaf schema (.call op es s) (.field i t) c negated vs := ofLeaf_of_testsField htest
    rw [ht, leaf, RowExpr.field?]
    dsimp only
    cases hcolumn : schema.column? i with
    | none =>
      exact .single (.missing htest (Schema.column?_eq_none_iff.1 hcolumn))
    | some column =>
      exact .leaves (.cons ⟨i, c, negated, vs, column, htest, hcolumn, by simp⟩ .nil)
  · have hnone : ∀ i c negated vs, ¬(RowExpr.call op es s).TestsField i c negated vs :=
      fun i c negated vs h => htest ⟨i, c, negated, vs, h⟩
    rw [ofLeaf_of_no_test hnone]
    exact .single (.noTest hnone)

/-- A connective keeps the leaves of its operands. -/
theorem map_atoms_combine (c : Connective) (e : RowExpr) (rest : List RowExpr) :
    atoms <$> (ofConditions schema (e :: rest) >>= combine whole c) =
      (·.flatMap atoms) <$> ofConditions schema (e :: rest) := by
  rw [ofConditions]
  cases ofCondition schema e with
  | error err => rfl
  | ok p =>
    cases ofConditions schema rest with
    | error err => rfl
    | ok ps => exact congrArg Except.ok (atoms_foldl c p ps)

theorem map_atoms_negate (x : Except PlanError Predicate) :
    atoms <$> (do return (← x).negate) =
      List.map (fun a => { a with negated := !a.negated }) <$> atoms <$> x := by
  cases x with
  | error err => rfl
  | ok p => exact congrArg Except.ok p.atoms_negate

mutual

/-- Lowering goes through the tests of an expression from left to right. -/
theorem lowered_ofCondition (schema : Schema) : ∀ e : RowExpr,
    Lowered schema e.tests (atoms <$> ofCondition schema e)
  | .field .. | .literal .. => .single (.noTest nofun)
  | .call op es t => by
    have hes := lowered_ofConditions schema es
    cases op with
    | and | or =>
      cases es with
      | nil => exact .single (.noTest (RowExpr.not_testsField (by simp)))
      | cons e rest =>
        rw [ofCondition, map_atoms_combine]
        exact hes
    | not =>
      match es with
      | [e] =>
        rw [ofCondition, map_atoms_negate]
        exact (lowered_ofCondition schema e).negate
      | [] | _ :: _ :: _ => exact .single (.noTest (RowExpr.not_testsField (by simp)))
    | _ => exact lowered_of_leaf rfl

theorem lowered_ofConditions (schema : Schema) : ∀ es : List RowExpr,
    Lowered schema (RowExpr.allTests es) ((·.flatMap atoms) <$> ofConditions schema es)
  | [] => .leaves .nil
  | e :: rest => by
    have h := (lowered_ofCondition schema e).append (lowered_ofConditions schema rest)
    rw [RowExpr.allTests, ofConditions]
    cases he : ofCondition schema e with
    | error err =>
      rw [he] at h
      exact h
    | ok p =>
      cases hrest : ofConditions schema rest with
      | error err =>
        rw [he, hrest] at h
        exact h
      | ok ps =>
        rw [he, hrest] at h
        exact h

end

end Predicate

/-! ## The fragment -/

namespace RowExpr

variable {width : Nat}

theorem mem_allTests {test : Bool × RowExpr} {es : List RowExpr} :
    test ∈ allTests es ↔ ∃ e ∈ es, test ∈ e.tests := by
  induction es with
  | nil => simp [allTests]
  | cons e rest ih => simp [allTests, ih]

theorem InFragment.isTest {e : RowExpr} (h : e.InFragment width) :
    ∀ t ∈ e.tests, t.2.IsTest width := by
  induction h with
  | test htest =>
    rw [htest.tests_eq]
    simpa using htest
  | connective hop hes _ ih =>
    obtain ⟨e, rest, rfl⟩ := List.exists_cons_of_ne_nil hes
    intro test htest
    have htest : test ∈ allTests (e :: rest) := by rcases hop with rfl | rfl <;> exact htest
    obtain ⟨d, hd, htest⟩ := mem_allTests.1 htest
    exact ih d hd test htest
  | not _ ih =>
    rw [tests, List.forall_mem_map]
    exact ih

mutual

theorem inFragment_of_isTest : ∀ e : RowExpr, (∀ t ∈ e.tests, t.2.IsTest width) →
    e.InFragment width
  | .field .., h | .literal .., h => by
    obtain ⟨_, _, _, _, htest, -⟩ := h _ (List.mem_singleton_self _)
    cases htest
  | .call op es t, h => by
    have hes := allInFragment_of_isTest es
    cases op with
    | and | or =>
      cases es with
      | nil =>
        obtain ⟨_, _, _, _, htest, -⟩ := h _ (List.mem_singleton_self _)
        exact absurd htest (not_testsField (by simp) _ _ _ _)
      | cons e rest => exact .connective (by simp) (List.cons_ne_nil e rest) (hes h)
    | not =>
      match es with
      | [e] =>
        rw [tests, List.forall_mem_map] at h
        exact .not (inFragment_of_isTest e h)
      | [] | _ :: _ :: _ =>
        obtain ⟨_, _, _, _, htest, -⟩ := h _ (List.mem_singleton_self _)
        exact absurd htest (not_testsField (by simp) _ _ _ _)
    | _ => exact .test (h _ (List.mem_singleton_self _))

theorem allInFragment_of_isTest : ∀ es : List RowExpr, (∀ t ∈ allTests es, t.2.IsTest width) →
    ∀ e ∈ es, e.InFragment width
  | [], _ => nofun
  | e :: rest, h => by
    rw [allTests, List.forall_mem_append] at h
    rw [List.forall_mem_cons]
    exact ⟨inFragment_of_isTest e h.1, allInFragment_of_isTest rest h.2⟩

end

end RowExpr

namespace Predicate

/-- A condition is lowered exactly if it is in the fragment. Then there is a leaf for each of its
tests, in their order; otherwise the first test that fails decides how. The types that the nodes
of the expression carry have no part in this. -/
theorem ofCondition_recognizes (schema : Schema) (e : RowExpr) :
    ((∃ p, ofCondition schema e = .ok p) ↔ e.InFragment schema.width) ∧
      (∀ p, ofCondition schema e = .ok p →
        List.Forall₂ (Atom.IsLeafOf schema) e.tests p.atoms) ∧
      (∀ err, ofCondition schema e = .error err → ∃ before test after,
        e.tests = before ++ test :: after ∧ (∀ t ∈ before, t.2.IsTest schema.width) ∧
          err.Explains schema test.2) ∧
      ∀ d : RowExpr, d.untyped = e.untyped →
        (ofCondition schema d).mapError PlanError.untyped =
            (ofCondition schema e).mapError PlanError.untyped ∧
          (ofCondition schema d).mapError PlanError.message =
            (ofCondition schema e).mapError PlanError.message := by
  have hlowered := lowered_ofCondition schema e
  have hleaves : ∀ p, ofCondition schema e = .ok p →
      List.Forall₂ (Atom.IsLeafOf schema) e.tests p.atoms := by
    intro p hp
    rw [hp] at hlowered
    cases hlowered with
    | leaves h => exact h
  have hfailure : ∀ err, ofCondition schema e = .error err → ∃ before test after,
      e.tests = before ++ test :: after ∧ (∀ t ∈ before, t.2.IsTest schema.width) ∧
        err.Explains schema test.2 := by
    intro err herr
    rw [herr] at hlowered
    cases hlowered with
    | failure htests hbefore hexplains => exact ⟨_, _, _, htests, hbefore, hexplains⟩
  refine ⟨⟨?_, fun h => ?_⟩, hleaves, hfailure, fun d hd => ?_⟩
  · rintro ⟨p, hp⟩
    refine RowExpr.inFragment_of_isTest e fun test htest => ?_
    obtain ⟨a, -, ha⟩ := exists_of_mem_of_forall₂ (hleaves p hp).flip htest
    exact isTest_of_isLeafOf ha
  · cases hresult : ofCondition schema e with
    | ok p => exact ⟨p, rfl⟩
    | error err =>
      obtain ⟨before, test, after, htests, -, hexplains⟩ := hfailure err hresult
      exact absurd (h.isTest test (by simp [htests])) hexplains.not_isTest
  · have huntyped : (ofCondition schema d).mapError PlanError.untyped =
        (ofCondition schema e).mapError PlanError.untyped := by
      rw [← ofCondition_untyped, ← ofCondition_untyped, hd]
    refine ⟨huntyped, ?_⟩
    have hmessage : PlanError.message = PlanError.message ∘ PlanError.untyped :=
      funext fun err => err.message_untyped.symm
    rw [hmessage, ← mapError_mapError, ← mapError_mapError, huntyped]

/-- The second test has no column; the third is no test, but comes too late. -/
example :
    ofCondition stock (.apply .or
      [.apply .like [.field 0 (.string none), .ofValue (.string "A%")],
        .apply .not [.apply .isNull [.field 2 .boolean]],
        .apply .equals [.field 0 (.string none), .field 1 (.integer .bits64)]]) =
      .error (.fieldOutOfRange .filter 2 2) := rfl

end Predicate

end StorePlan
