import Mathlib.Data.List.Sort
import StorePlan.Proofs.Plan.Paging
import StorePlan.Proofs.RowExpr.Meaning

/-
The rows that a chain of operators yields over the rows of its scan, in their
order. A filter keeps the rows of which its condition is true, and a sort is
stable.

Each row that comes out is the image of one row of the scan (`Plan.image`).
That a filter changes places with a sort is `filter_mergeSort`.
-/

namespace StorePlan

/-! ## Orders -/

section Orders

variable {α β : Type} {cmp : α → α → Ordering}

/-- An order, or the opposite one. -/
def orderTurned (turned : Bool) (cmp : α → α → Ordering) (a b : α) : Ordering :=
  if turned then cmp b a else cmp a b

instance (turned : Bool) [h : Std.TransCmp cmp] : Std.TransCmp (orderTurned turned cmp) := by
  cases turned with
  | true => exact @Std.TransCmp.opposite _ cmp h
  | false => exact h

theorem transCmp_comap [h : Std.TransCmp cmp] (f : β → α) :
    Std.TransCmp fun a b => cmp (f a) (f b) where
  eq_swap := h.eq_swap
  isLE_trans := h.isLE_trans

/-- A list splits in one way only into items that pass a test and items that do not. -/
theorem append_inj_of_forall {test : α → Bool} {as bs cs ds : List α} (h : as ++ bs = cs ++ ds)
    (has : ∀ a ∈ as, test a = true) (hbs : ∀ b ∈ bs, test b = false)
    (hcs : ∀ c ∈ cs, test c = true) (hds : ∀ d ∈ ds, test d = false) : as = cs ∧ bs = ds := by
  have hpass := congrArg (List.filter test) h
  have hnone {xs : List α} (hxs : ∀ x ∈ xs, test x = false) : xs.filter test = [] := by
    simpa using hxs
  rw [List.filter_append, List.filter_append, List.filter_eq_self.2 has, List.filter_eq_self.2 hcs,
    hnone hbs, hnone hds, List.append_nil, List.append_nil] at hpass
  subst hpass
  exact ⟨rfl, List.append_cancel_left h⟩

/-- Sorting stably and filtering can change places. -/
theorem filter_mergeSort [Std.TransCmp cmp] (keep : α → Bool) (as : List α) :
    (as.mergeSort fun a b => (cmp a b).isLE).filter keep =
      (as.filter keep).mergeSort fun a b => (cmp a b).isLE := by
  have htrans (a b c : α) (hab : (cmp a b).isLE) (hbc : (cmp b c).isLE) : (cmp a c).isLE :=
    Std.TransCmp.isLE_trans hab hbc
  have htotal (a b : α) : ((cmp a b).isLE || (cmp b a).isLE) = true := by
    have hswap : cmp b a = (cmp a b).swap := Std.OrientedCmp.eq_swap
    rw [hswap]
    cases cmp a b <;> rfl
  -- What lies behind an item that is sorted in is not less than the item.
  have hbehind {a : α} {bs before behind : List α}
      (h : (bs.mergeSort fun a b => (cmp a b).isLE) = before ++ a :: behind) :
      ∀ b ∈ behind, (!(cmp a b).isLE) = false := by
    have hsorted := List.pairwise_mergeSort htrans htotal bs
    rw [h] at hsorted
    intro b hb
    rw [(List.pairwise_cons.1 (List.pairwise_append.1 hsorted).2.1).1 b hb]
    rfl
  induction as with
  | nil => simp
  | cons a rest ih =>
    obtain ⟨before, behind, hcons, hrest, hbefore⟩ := List.mergeSort_cons htrans htotal a rest
    cases hkeep : keep a with
    | false => simp [hcons, hkeep, ← ih, hrest]
    | true =>
      obtain ⟨before', behind', hcons', hrest', hbefore'⟩ :=
        List.mergeSort_cons htrans htotal a (rest.filter keep)
      have hsame : before.filter keep ++ behind.filter keep = before' ++ behind' := by
        rw [← List.filter_append, ← hrest, ih, hrest']
      obtain ⟨hfront, hback⟩ := append_inj_of_forall hsame
        (fun b hb => hbefore b (List.mem_of_mem_filter hb))
        (fun b hb => hbehind hcons b (List.mem_of_mem_filter hb)) hbefore' (hbehind hcons')
      rw [List.filter_cons_of_pos hkeep, hcons, hcons', List.filter_append,
        List.filter_cons_of_pos hkeep, hfront, hback]

end Orders

/-- How values are ranked by a sort, and whether `NULL` comes first where the sort does not say
so. -/
structure Ranking where
  compare : Value → Value → Ordering
  trans : Std.TransCmp compare
  nullsFirst : Bool → Bool

namespace Ranking

variable (R : Ranking)

instance : Std.TransCmp R.compare := R.trans

/-- Whether a key has `NULL` in front of all other values. -/
def putsNullFirst (key : Collation) : Bool :=
  match key.nulls with
  | .first => true
  | .last => false
  | .unspecified => R.nullsFirst key.descending

/-- The order of values under a key: by where `NULL` goes, then by rank. -/
def compareValues (key : Collation) : Value → Value → Ordering :=
  compareLex
    (orderTurned (R.putsNullFirst key) fun v w => Ord.compare v.isNull w.isNull)
    (orderTurned key.descending R.compare)

/-- The order of rows under keys, of which the first that tells two rows apart decides. -/
def compareRows : List Collation → List Value → List Value → Ordering
  | [] => fun _ _ => .eq
  | key :: rest =>
    compareLex
      (fun r s => R.compareValues key (r[key.field]?.getD .null) (s[key.field]?.getD .null))
      (compareRows rest)

instance (key : Collation) : Std.TransCmp (R.compareValues key) := by
  have hnulls : Std.TransCmp fun v w : Value => Ord.compare v.isNull w.isNull :=
    transCmp_comap Value.isNull
  unfold compareValues
  infer_instance

instance (keys : List Collation) : Std.TransCmp (R.compareRows keys) := by
  induction keys with
  | nil => exact { eq_swap := rfl, isLE_trans := fun _ _ => rfl }
  | cons key rest ih =>
    have hkey : Std.TransCmp fun r s : List Value =>
        R.compareValues key (r[key.field]?.getD .null) (s[key.field]?.getD .null) :=
      transCmp_comap fun row : List Value => row[key.field]?.getD .null
    unfold compareRows
    infer_instance

/-- The rows in the order of keys; rows that no key tells apart stay in their order. -/
def sort (keys : List Collation) (rows : List (List Value)) : List (List Value) :=
  rows.mergeSort fun r s => (R.compareRows keys r s).isLE

end Ranking

namespace Plan

/-! ## Chains -/

/-- The rows of a chain of filters, projections and sorts over the rows of its scan. -/
def rows (I : Interpretation) (R : Ranking) (contents : List (List Value)) :
    Plan → List (List Value)
  | ⟨.scan .., _, _, _⟩ => contents
  | ⟨.filter condition, [input], _, _⟩ =>
    (input.rows I R contents).filter fun row => condition.truth I row = .holds
  | ⟨.project exprs, [input], _, _⟩ =>
    (input.rows I R contents).map fun row => exprs.map fun item => item.2.value I row
  | ⟨.sort keys offset fetch, [input], _, _⟩ =>
    Bounds.page ⟨offset, fetch⟩ (R.sort keys (input.rows I R contents))
  | _ => []
termination_by structural p => p

/-- A chain without its filters. -/
def withoutFilters : Plan → Plan
  | ⟨.filter _, [input], _, _⟩ => input.withoutFilters
  | ⟨op, [input], schema, convention⟩ => ⟨op, [input.withoutFilters], schema, convention⟩
  | p => p
termination_by structural p => p

/-- What a chain makes of a row of its scan. -/
def image (I : Interpretation) (row : List Value) : Plan → List Value
  | ⟨.project exprs, [input], _, _⟩ => exprs.map fun item => item.2.value I (input.image I row)
  | ⟨_, [input], _, _⟩ => input.image I row
  | _ => row
termination_by structural p => p

end Plan

end StorePlan
