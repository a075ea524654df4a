import Mathlib.Data.List.Induction
import StorePlan.Proofs.VectorStore.Attributes

/-
Sorts that the vector store can honour. Its answers come by ascending
distance, so a sort is taken if all its keys ask for that, and the first key
that does not is reported.

A projection can repeat the distance. A draft knows only the last field that
holds it (`Draft.distanceField?_eq_some_iff`), so a key on an earlier one is
refused although it asks for the same order.
-/

namespace StorePlan

open VectorStore (Source)

namespace Plan

/-- A field of the plan's rows holds the distance. -/
def HoldsDistance (p : Plan) (i : Nat) : Prop := p.source? i = some .distance

/-- The last field of the plan's rows that holds the distance. -/
def HoldsDistanceLast (p : Plan) (i : Nat) : Prop :=
  p.HoldsDistance i ∧ ∀ j, i < j → ¬p.HoldsDistance j

end Plan

/-- The key asks for the ascending order of one of the fields. -/
def Collation.AscendsBy (fields : Nat → Prop) (key : Collation) : Prop :=
  key.descending = false ∧ fields key.field

namespace VectorStore

/-- A sort is answered if all its keys ask for the ascending order of one of the fields. Else the
first key that does not is reported, by the name of its column. -/
inductive Answered (fields : Nat → Prop) (schema : Schema) (keys : List Collation) :
    Emit Request → Prop where
  | accepted (r : Request) : (∀ key ∈ keys, key.AscendsBy fields) →
    Answered fields schema keys (.ok r)
  | refused {before behind : List Collation} {key : Collation} {column : Column} :
    keys = before ++ key :: behind → (∀ k ∈ before, k.AscendsBy fields) →
      ¬key.AscendsBy fields → schema.column? key.field = some column →
        Answered fields schema keys (.error (.sortKey column.name))

section Answers

variable {fields others : Nat → Prop} {schema : Schema} {keys : List Collation} {x : Emit Request}

/-- What is answered has keys on these fields only. -/
theorem Answered.exists_eq_ok_iff (h : Answered fields schema keys x) :
    (∃ r, x = .ok r) ↔ ∀ key ∈ keys, key.AscendsBy fields := by
  cases h with
  | accepted r hall => exact ⟨fun _ => hall, fun _ => ⟨r, rfl⟩⟩
  | @refused before behind key column hkeys _ hkey _ =>
    refine ⟨fun ⟨r, hr⟩ => (nomatch hr), fun hall => absurd (hall key ?_) hkey⟩
    rw [hkeys]
    exact List.mem_append_right _ List.mem_cons_self

/-- Only the fields of the keys matter. -/
theorem Answered.congr (h : Answered fields schema keys x)
    (hfields : ∀ key ∈ keys, key.AscendsBy fields ↔ key.AscendsBy others) :
    Answered others schema keys x := by
  cases h with
  | accepted r hall => exact .accepted r fun key hkey => (hfields key hkey).1 (hall key hkey)
  | refused hkeys hbefore hkey hcolumn =>
    subst hkeys
    rw [List.forall_mem_append, List.forall_mem_cons] at hfields
    exact .refused rfl (fun k hk => (hfields.1 k hk).1 (hbefore k hk))
      (fun hascends => hkey (hfields.2.1.2 hascends)) hcolumn

end Answers

/-! ## The field that a draft ranks by -/

/-- The last position of an item, found by going over all of them. -/
theorem foldl_zipIdx_eq_some_iff {α : Type} [DecidableEq α] (xs : List α) (a : α) {i : Nat} :
    xs.zipIdx.foldl (fun last item => if item.1 = a then some item.2 else last) none = some i ↔
      xs[i]? = some a ∧ ∀ j, i < j → xs[j]? ≠ some a := by
  induction xs using List.reverseRecOn with
  | nil => simp
  | append_singleton xs x ih =>
    rw [List.zipIdx_append, List.foldl_append, List.zipIdx_singleton, List.foldl_cons,
      List.foldl_nil]
    have hlast : (xs ++ [x])[xs.length]? = some x := by simp
    by_cases hx : x = a
    · subst hx
      rw [if_pos rfl, Nat.zero_add, Option.some.injEq]
      constructor
      · rintro rfl
        refine ⟨hlast, fun j hj => ?_⟩
        rw [List.getElem?_eq_none (by simp; omega)]
        exact (Option.some_ne_none x).symm
      · rintro ⟨hi, hbehind⟩
        have hle : i < xs.length + 1 := by simpa using (List.getElem?_eq_some_iff.1 hi).1
        have hge : ¬i < xs.length := fun hlt => hbehind _ hlt hlast
        omega
    · rw [if_neg hx, ih]
      have hother (j : Nat) : (xs ++ [x])[j]? = some a ↔ xs[j]? = some a := by
        rcases Nat.lt_trichotomy j xs.length with hj | rfl | hj
        · rw [List.getElem?_append_left hj]
        · simp [hx]
        · rw [List.getElem?_eq_none (by simp; omega), List.getElem?_eq_none (by omega)]
      simp only [hother, ne_eq]

namespace Drafted

variable {p : Plan} {d : Draft}

theorem distanceField?_eq_some_iff (h : Drafted p d) {i : Nat} :
    d.distanceField? = some i ↔ p.HoldsDistanceLast i := by
  rw [Draft.distanceField?, foldl_zipIdx_eq_some_iff]
  simp only [h.sources_eq, Plan.HoldsDistanceLast, Plan.HoldsDistance, ne_eq]

theorem canSortBy_iff (h : Drafted p d) {key : Collation} :
    d.canSortBy key = true ↔ key.AscendsBy p.HoldsDistanceLast := by
  rw [Draft.canSortBy, Bool.and_eq_true, beq_iff_eq, h.distanceField?_eq_some_iff,
    Bool.not_eq_true', Collation.AscendsBy, and_comm]

end Drafted

namespace Draft

theorem fieldName_eq {schema : Schema} {i : Nat} {column : Column}
    (h : schema.column? i = some column) : fieldName schema i = column.name := by
  rw [fieldName, h]

/-- A sort over a draft, as it is answered. -/
theorem answered_sort {input : Plan} {d : Draft} (h : Drafted input d) {keys : List Collation}
    {output : Schema} (hrange : ∀ key ∈ keys, key.field < output.width)
    (offset fetch : Option UInt64) (cap : UInt32) :
    Answered input.HoldsDistanceLast output keys (do
      return (← d.sort keys offset fetch output).finish cap) := by
  unfold sort
  split
  · rename_i key hfound
    rw [List.find?_eq_some_iff_append] at hfound
    obtain ⟨hkey, before, behind, rfl, hbefore⟩ := hfound
    rw [List.forall_mem_append, List.forall_mem_cons] at hrange
    obtain ⟨column, hcolumn⟩ := Schema.exists_column? hrange.2.1
    rw [fieldName_eq hcolumn]
    refine .refused rfl (fun k hk => h.canSortBy_iff.1 ?_) ?_ hcolumn
    · simpa using hbefore k hk
    · rw [← h.canSortBy_iff]
      simpa using hkey
  · rename_i hnone
    refine .accepted _ fun key hkey => h.canSortBy_iff.1 ?_
    simpa using List.find?_eq_none.1 hnone key hkey

end Draft

/-- What was drafted on the way to a request. -/
theorem exists_ofPlan_of_request {settings : Settings} {p : Plan} {r : Request}
    (h : request settings p = .ok r) : p.convention = .vector ∧ ∃ d, Draft.ofPlan p = .ok d := by
  unfold request at h
  split at h
  · obtain ⟨d, hd, -⟩ := bind_eq_ok.1 h
    exact ⟨‹_›, d, hd⟩
  · cases h

/-- A sort of a built plan, as it is answered. -/
theorem answered_request {settings : Settings} {input : Plan} {keys : List Collation}
    {offset fetch : Option UInt64} {schema : Schema} {convention : Convention} {r : Request}
    (hp : Plan.Built ⟨.sort keys offset fetch, [input], schema, convention⟩)
    (h : request settings input = .ok r) :
    Answered input.HoldsDistanceLast schema keys
      (request settings ⟨.sort keys offset fetch, [input], schema, convention⟩) := by
  have hconsistent := (hp.consistent (.self _)).1
  obtain ⟨_, hinput, hrange⟩ := hconsistent.fits
  obtain rfl := List.singleton_inj.1 hinput
  obtain rfl := Operator.eq_of_outputSchema (.inr rfl) hconsistent.derived
  have hsame : input.convention = convention := hconsistent.sameConvention input (by simp)
  obtain ⟨hvector, d, hd⟩ := exists_ofPlan_of_request h
  have hdrafted : Drafted input d := .of_ofPlan (hp.of_partOf (.input (by simp) (.self input))) hd
  have hanswered := Draft.answered_sort hdrafted hrange offset fetch settings.knnLimit
  rw [request, if_pos (hsame.symm.trans hvector), Draft.ofPlan_of_isLink rfl, hd]
  exact hanswered

/-- A sort over a plan for which there is a request is answered by the last field that holds the
distance. So it is answered by all fields that hold the distance if no ascending key refers to an
earlier one; and it is accepted just where all keys ascend by such fields, except where they do and
one of them refers to an earlier one. -/
theorem answered_request_sort {settings : Settings} {input : Plan} {keys : List Collation}
    {offset fetch : Option UInt64} {schema : Schema} {convention : Convention} {r : Request}
    (hp : Plan.Obtained ⟨.sort keys offset fetch, [input], schema, convention⟩)
    (h : request settings input = .ok r) :
    Answered input.HoldsDistanceLast schema keys
        (request settings ⟨.sort keys offset fetch, [input], schema, convention⟩) ∧
      ((∀ key ∈ keys, key.AscendsBy input.HoldsDistance → input.HoldsDistanceLast key.field) →
        Answered input.HoldsDistance schema keys
          (request settings ⟨.sort keys offset fetch, [input], schema, convention⟩)) ∧
      (((∃ r', request settings ⟨.sort keys offset fetch, [input], schema, convention⟩ = .ok r') ↔
          ∀ key ∈ keys, key.AscendsBy input.HoldsDistance) ↔
        ((∀ key ∈ keys, key.AscendsBy input.HoldsDistance) →
          ∀ key ∈ keys, input.HoldsDistanceLast key.field)) := by
  have hlast := answered_request (r := r) hp.built h
  have hholds {key : Collation} (h : key.AscendsBy input.HoldsDistanceLast) :
      key.AscendsBy input.HoldsDistance := ⟨h.1, h.2.1⟩
  refine ⟨hlast, fun honly => hlast.congr fun key hkey => ?_, ?_⟩
  · exact ⟨hholds, fun h => ⟨h.1, honly key hkey h⟩⟩
  · rw [hlast.exists_eq_ok_iff]
    constructor
    · exact fun hiff hall key hkey => (hiff.2 hall key hkey).2
    · intro honly
      refine ⟨fun hall key hkey => hholds (hall key hkey), fun hall key hkey => ?_⟩
      exact ⟨(hall key hkey).1, honly hall key hkey⟩

/-! ## A distance under two names -/

/-- The distances of photos, under two names. -/
def distancesTwice : Plan :=
  ⟨.project [("a", .field 0 (.float .bits64)), ("b", .field 0 (.float .bits64))], [distances],
    ⟨[⟨"a", .float .bits64, true⟩, ⟨"b", .float .bits64, true⟩]⟩, .vector⟩

/-- The distances, the least by one of their names first. -/
def nearestBy (field : Nat) : Plan :=
  ⟨.sort [⟨field, false, .last⟩] none none, [distancesTwice], distancesTwice.schema, .vector⟩

theorem obtained_nearestBy {field : Nat}
    (h : Plan.sort distancesTwice [⟨field, false, .last⟩] none none = .ok (nearestBy field)) :
    (nearestBy field).Obtained := by
  have hscan : Plan.scan "photos" photos.schema .vector = .ok photos := rfl
  have hfar : Plan.project photos [far] = .ok distances := rfl
  have htwice : Plan.project distances
      [("a", .field 0 (.float .bits64)), ("b", .field 0 (.float .bits64))] = .ok distancesTwice :=
    rfl
  exact .sort (.project (.project (.scan hscan) hfar) htwice) h

theorem answered_nearestBy_second :
    ∃ r, (nearestBy 1).Obtained ∧ request {} distancesTwice = .ok r ∧
      Answered distancesTwice.HoldsDistanceLast distancesTwice.schema [⟨1, false, .last⟩]
        (request {} (nearestBy 1)) :=
  ⟨_, obtained_nearestBy rfl, rfl, (answered_request_sort (obtained_nearestBy rfl) rfl).1⟩

/-- Both fields hold the distance, and a sort by the first is refused. -/
theorem not_answered_nearestBy_first :
    ∃ r, (nearestBy 0).Obtained ∧ request {} distancesTwice = .ok r ∧
      distancesTwice.HoldsDistance 0 ∧ distancesTwice.HoldsDistance 1 ∧
        request {} (nearestBy 0) = .error (.sortKey "a") ∧
          ¬Answered distancesTwice.HoldsDistance distancesTwice.schema [⟨0, false, .last⟩]
            (request {} (nearestBy 0)) := by
  have hrefused : request {} (nearestBy 0) = .error (.sortKey "a") := rfl
  refine ⟨_, obtained_nearestBy rfl, rfl, rfl, rfl, hrefused, fun hanswered => ?_⟩
  have hall : ∀ key ∈ [(⟨0, false, .last⟩ : Collation)],
      key.AscendsBy distancesTwice.HoldsDistance :=
    List.forall_mem_singleton.2 ⟨rfl, rfl⟩
  obtain ⟨r, hr⟩ := hanswered.exists_eq_ok_iff.2 hall
  cases hrefused.symm.trans hr

end VectorStore

end StorePlan
