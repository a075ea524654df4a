import StorePlan.Value.Basic

/-
Three-valued logic: a condition holds, fails or is unknown. Conjunction is
the weaker of two truths in the order fails, unknown, holds, disjunction the
stronger one.
-/

namespace StorePlan

/-- Truth of a condition. -/
inductive Truth where
  | holds
  | fails
  | unknown
deriving DecidableEq

namespace Truth

def not : Truth → Truth
  | holds => fails
  | fails => holds
  | unknown => unknown

def and : Truth → Truth → Truth
  | fails, _ => fails
  | _, fails => fails
  | holds, t => t
  | t, holds => t
  | unknown, unknown => unknown

def or : Truth → Truth → Truth
  | holds, _ => holds
  | _, holds => holds
  | fails, t => t
  | t, fails => t
  | unknown, unknown => unknown

/-- Conjunction of any number of truths. -/
def all (ts : List Truth) : Truth := ts.foldr and holds

/-- Disjunction of any number of truths. -/
def any (ts : List Truth) : Truth := ts.foldr or fails

def ofBool (b : Bool) : Truth := if b then holds else fails

@[simp] theorem not_not (t : Truth) : t.not.not = t := by cases t <;> rfl

theorem not_and (s t : Truth) : (s.and t).not = s.not.or t.not := by cases s <;> cases t <;> rfl

theorem not_or (s t : Truth) : (s.or t).not = s.not.and t.not := by cases s <;> cases t <;> rfl

theorem and_assoc (r s t : Truth) : (r.and s).and t = r.and (s.and t) := by
  cases r <;> cases s <;> cases t <;> rfl

theorem or_assoc (r s t : Truth) : (r.or s).or t = r.or (s.or t) := by
  cases r <;> cases s <;> cases t <;> rfl

@[simp] theorem and_holds (t : Truth) : t.and holds = t := by cases t <;> rfl

@[simp] theorem or_fails (t : Truth) : t.or fails = t := by cases t <;> rfl

theorem foldl_and (t : Truth) (ts : List Truth) : ts.foldl and t = t.and (all ts) := by
  induction ts generalizing t with
  | nil => simp [all]
  | cons s rest ih => rw [List.foldl_cons, ih, and_assoc, all, all, List.foldr_cons]

theorem foldl_or (t : Truth) (ts : List Truth) : ts.foldl or t = t.or (any ts) := by
  induction ts generalizing t with
  | nil => simp [any]
  | cons s rest ih => rw [List.foldl_cons, ih, or_assoc, any, any, List.foldr_cons]

theorem and_eq_holds_iff {s t : Truth} : s.and t = holds ↔ s = holds ∧ t = holds := by
  cases s <;> cases t <;> simp [and]

theorem or_eq_holds_iff {s t : Truth} : s.or t = holds ↔ s = holds ∨ t = holds := by
  cases s <;> cases t <;> simp [or]

/-- The value of a condition with this truth. -/
def value : Truth → Value
  | holds => .boolean true
  | fails => .boolean false
  | unknown => .null

end Truth

/-- The truth of a value that stands as a condition; `NULL` is unknown. -/
def Value.truth : Value → Truth
  | boolean b => .ofBool b
  | _ => .unknown

@[simp] theorem Truth.truth_value (t : Truth) : t.value.truth = t := by cases t <;> rfl

end StorePlan
