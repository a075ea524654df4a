import StorePlan.Plan.Rewrite
import StorePlan.Proofs.Plan.Checks

/-
The invariant of plans: whatever is made by building, by the named
constructors, by copying and by rewriting is consistent, at every node.

All ways to a node go through `Plan.build`, so the plans are those that
`Built` generates; the work is in `Consistent.of_build` for one node and in
`Built.of_transform` for rewriting, which builds every node anew.
-/

namespace StorePlan.Plan

/-- A node is consistent with its inputs. -/
structure Consistent (p : Plan) : Prop where
  sameConvention : ∀ q ∈ p.inputs, q.convention = p.convention
  derived : p.op.outputSchema p.convention (p.inputs.map (·.schema)) = .ok p.schema
  fits : p.op.Fits p.convention (p.inputs.map (·.schema))

/-- The nodes of a plan. -/
inductive PartOf : Plan → Plan → Prop where
  | self (p : Plan) : PartOf p p
  | input {r q p : Plan} : q ∈ p.inputs → PartOf r q → PartOf r p

theorem partOf_iff {q p : Plan} : PartOf q p ↔ q = p ∨ ∃ r ∈ p.inputs, PartOf q r := by
  refine ⟨fun h => ?_, fun h => ?_⟩
  · cases h with
    | self => exact .inl rfl
    | input hr hq => exact .inr ⟨_, hr, hq⟩
  · rcases h with rfl | ⟨r, hr, hq⟩
    · exact .self q
    · exact .input hr hq

mutual

/-- The nodes of a plan, each behind those of its inputs. -/
def nodes : Plan → List Plan
  | ⟨op, inputs, schema, convention⟩ => allNodes inputs ++ [⟨op, inputs, schema, convention⟩]
termination_by structural p => p

/-- The nodes of plans from left to right. -/
def allNodes : List Plan → List Plan
  | [] => []
  | p :: rest => p.nodes ++ allNodes rest
termination_by structural ps => ps

end

mutual

theorem mem_nodes_iff {q : Plan} : ∀ {p : Plan}, q ∈ p.nodes ↔ PartOf q p
  | ⟨op, inputs, schema, convention⟩ => by
    rw [nodes, List.mem_append, List.mem_singleton, mem_allNodes_iff, partOf_iff, or_comm]

theorem mem_allNodes_iff {q : Plan} : ∀ {ps : List Plan}, q ∈ allNodes ps ↔ ∃ p ∈ ps, PartOf q p
  | [] => by simp [allNodes]
  | p :: rest => by
    rw [allNodes, List.mem_append, mem_nodes_iff, mem_allNodes_iff, List.exists_mem_cons_iff]

end

/-! ## Building -/

theorem build_eq_ok {op : Operator} {inputs : List Plan} {convention : Convention} {p : Plan} :
    build op inputs convention = .ok p ↔
      op.kind.takes inputs.length = true ∧ (∀ q ∈ inputs, q.convention = convention) ∧
        ∃ schema, op.normalize.outputSchema convention (inputs.map (·.schema)) = .ok schema ∧
          p = ⟨op.normalize, inputs, schema, convention⟩ := by
  simp only [build, bind_eq_ok, pure_eq_ok, require_eq_ok, refuse_eq_ok, List.find?_eq_none,
    bne_iff_ne, ne_eq, Decidable.not_not, exists_and_left, exists_const, @eq_comm _ _ p]

theorem Consistent.of_build {op : Operator} {inputs : List Plan} {convention : Convention}
    {p : Plan} (h : build op inputs convention = .ok p) : p.Consistent := by
  obtain ⟨hn, hc, schema, hs, rfl⟩ := build_eq_ok.1 h
  have hfits := Operator.fits_of_outputSchema op.ordered_normalize (by simpa using hn) hs
  exact ⟨hc, hs, hfits⟩

/-- An operator that can stand over one input stands over one. -/
theorem Consistent.exists_input {op : Operator} {inputs : List Plan} {schema : Schema}
    {convention : Convention} (h : Consistent ⟨op, inputs, schema, convention⟩)
    (hone : op.kind.takes 1 = true) : ∃ input, inputs = [input] := by
  have hfits : op.Fits convention (inputs.map (·.schema)) := h.fits
  have hlength : inputs.length = 1 := by
    cases op with
    | filter | project | aggregate | sort =>
      obtain ⟨_, hinput, -⟩ := hfits
      simpa using congrArg List.length hinput
    | _ => simp [Operator.kind, OperatorKind.takes] at hone
  exact List.length_eq_one_iff.1 hlength

/-- The plans that building generates. -/
inductive Built : Plan → Prop where
  | build {op : Operator} {inputs : List Plan} {convention : Convention} {p : Plan} :
    (∀ q ∈ inputs, Built q) → Plan.build op inputs convention = .ok p → Built p

theorem Built.consistent {p q : Plan} (hp : Built p) (hq : PartOf q p) :
    q.Consistent ∧ q.convention = p.convention := by
  induction hp with
  | build _ h ih =>
    have hp := Consistent.of_build h
    rcases partOf_iff.1 hq with rfl | ⟨r, hr, hpart⟩
    · exact ⟨hp, rfl⟩
    · have hinput := hp.sameConvention r hr
      obtain ⟨-, -, _, -, rfl⟩ := build_eq_ok.1 h
      obtain ⟨hconsistent, hsame⟩ := ih r hr hpart
      exact ⟨hconsistent, hsame.trans hinput⟩

theorem Built.of_partOf {p q : Plan} (hp : Built p) (hq : PartOf q p) : Built q := by
  induction hp with
  | build hi h ih =>
    rcases partOf_iff.1 hq with rfl | ⟨r, hr, hpart⟩
    · exact .build hi h
    · obtain ⟨-, -, _, -, rfl⟩ := build_eq_ok.1 h
      exact ih r hr hpart

theorem Built.of_buildOver {op : Operator} {inputs : List Plan} {p : Plan}
    (hi : ∀ q ∈ inputs, Built q) (h : buildOver op inputs = .ok p) : Built p := by
  cases inputs with
  | nil => simp [buildOver] at h
  | cons first rest => exact .build hi h

/-- Induction down a chain of operators with one input each, to the first operator that is no
link. -/
theorem Built.chain {motive : Plan → Prop} {isLink : OperatorKind → Bool}
    (hone : ∀ kind, isLink kind = true → kind.takes 1 = true)
    (hend : ∀ op inputs schema convention, isLink op.kind = false →
      Consistent ⟨op, inputs, schema, convention⟩ → motive ⟨op, inputs, schema, convention⟩)
    (hlink : ∀ op input schema convention, isLink op.kind = true →
      Consistent ⟨op, [input], schema, convention⟩ → Built input → motive input →
        motive ⟨op, [input], schema, convention⟩)
    {p : Plan} (hp : Built p) : motive p := by
  induction hp with
  | @build op inputs convention p hi h ih =>
    have hp := Consistent.of_build h
    obtain ⟨-, -, schema, -, rfl⟩ := build_eq_ok.1 h
    cases hkind : isLink op.normalize.kind with
    | false => exact hend _ _ _ _ hkind hp
    | true =>
      obtain ⟨input, rfl⟩ := hp.exists_input (hone _ hkind)
      exact hlink _ _ _ _ hkind hp (hi input (by simp)) (ih input (by simp))

/-! ## Rewriting -/

/-- A rule that returns a plan of a class for every plan of a class, unless it fails. -/
def Rule.Maps {σ : Type} (rule : Rule σ) (before after : Plan → Prop) : Prop :=
  ∀ q s r s', before q → outcome (rule q) s = (.ok r, s') → after r

section Transform

variable {σ : Type} {rule : Rule σ}

mutual

/-- Rewriting builds every node anew, so the plan itself need not have been built. -/
theorem Built.of_transform (hrule : rule.Maps Built Built) :
    ∀ {p r : Plan} {s s' : σ}, outcome (transform rule p) s = (.ok r, s') → Built r
  | ⟨op, inputs, _, convention⟩, r, s, s', h => by
    simp only [transform, outcome_bind_eq_ok, outcome_liftM, Prod.mk.injEq] at h
    obtain ⟨rewritten, t, hinputs, copied, _, ⟨hcopied, rfl⟩, hr⟩ := h
    have hall := Built.of_transformAll hrule hinputs
    exact hrule copied _ r s' (.build hall hcopied) hr

theorem Built.of_transformAll (hrule : rule.Maps Built Built) :
    ∀ {ps rs : List Plan} {s s' : σ}, outcome (transformAll rule ps) s = (.ok rs, s') →
      ∀ r ∈ rs, Built r
  | [], rs, s, s', h => by
    simp only [transformAll, outcome_pure, Prod.mk.injEq, Except.ok.injEq] at h
    obtain ⟨rfl, -⟩ := h
    simp
  | p :: rest, rs, s, s', h => by
    simp only [transformAll, outcome_bind_eq_ok, outcome_pure, Prod.mk.injEq,
      Except.ok.injEq] at h
    obtain ⟨r, _, hp, others, _, hrest, rfl, -⟩ := h
    intro q hq
    rcases List.mem_cons.1 hq with rfl | hq
    · exact Built.of_transform hrule hp
    · exact Built.of_transformAll hrule hrest q hq

end

end Transform

/-! ## Every way to a plan -/

/-- The plans obtained by building, by the named constructors, by copying and by rewriting, in any
order. -/
inductive Obtained : Plan → Prop where
  | build {op : Operator} {inputs : List Plan} {convention : Convention} {p : Plan} :
    (∀ q ∈ inputs, Obtained q) → Plan.build op inputs convention = .ok p → Obtained p
  | scan {table : String} {schema : Schema} {convention : Convention} {p : Plan} :
    Plan.scan table schema convention = .ok p → Obtained p
  | values {schema : Schema} {rows : List (List Value)} {convention : Convention} {p : Plan} :
    Plan.values schema rows convention = .ok p → Obtained p
  | filter {input : Plan} {condition : RowExpr} {p : Plan} :
    Obtained input → Plan.filter input condition = .ok p → Obtained p
  | project {input : Plan} {exprs : List (String × RowExpr)} {p : Plan} :
    Obtained input → Plan.project input exprs = .ok p → Obtained p
  | aggregate {input : Plan} {fields : List Nat} {calls : List AggregateCall} {p : Plan} :
    Obtained input → Plan.aggregate input fields calls = .ok p → Obtained p
  | join {left right : Plan} {type : JoinType} {condition : RowExpr} {p : Plan} :
    Obtained left → Obtained right → Plan.join left right type condition = .ok p → Obtained p
  | sort {input : Plan} {keys : List Collation} {offset fetch : Option UInt64} {p : Plan} :
    Obtained input → Plan.sort input keys offset fetch = .ok p → Obtained p
  | union {inputs : List Plan} {all : Bool} {p : Plan} :
    (∀ q ∈ inputs, Obtained q) → Plan.union inputs all = .ok p → Obtained p
  | copy {q : Plan} {inputs : List Plan} {p : Plan} :
    (∀ q ∈ inputs, Obtained q) → q.copy inputs = .ok p → Obtained p
  | copyWith {q : Plan} {op : Operator} {inputs : List Plan} {p : Plan} :
    (∀ q ∈ inputs, Obtained q) → q.copyWith op inputs = .ok p → Obtained p
  /-- The rule returns obtained plans for built ones, which are the same (`obtained_iff_built`). -/
  | transform {σ : Type} {rule : Rule σ} {q p : Plan} {s s' : σ} :
    (∀ q s r s', Built q → outcome (rule q) s = (.ok r, s') → Obtained r) →
      outcome (q.transform rule) s = (.ok p, s') → Obtained p

theorem Obtained.built {p : Plan} (h : Obtained p) : Built p := by
  induction h with
  | build _ h ih => exact .build ih h
  | scan h => exact .build (by simp) h
  | values h => exact .build (by simp) h
  | filter _ h ih => exact .of_buildOver (by simpa using ih) h
  | project _ h ih => exact .of_buildOver (by simpa using ih) h
  | aggregate _ h ih => exact .of_buildOver (by simpa using ih) h
  | join _ _ h ihl ihr => exact .of_buildOver (by simpa using ⟨ihl, ihr⟩) h
  | sort _ h ih => exact .of_buildOver (by simpa using ih) h
  | union _ h ih => exact .of_buildOver ih h
  | copy _ h ih => exact .build ih h
  | copyWith _ h ih =>
    simp only [Plan.copyWith, bind_eq_ok] at h
    obtain ⟨_, -, h⟩ := h
    exact .build ih h
  | transform _ h ih => exact .of_transform ih h

theorem Built.obtained {p : Plan} (h : Built p) : Obtained p := by
  induction h with
  | build _ h ih => exact .build ih h

theorem obtained_iff_built {p : Plan} : Obtained p ↔ Built p := ⟨Obtained.built, Built.obtained⟩

/-- Every node of an obtained plan is consistent and of the plan's convention. -/
theorem consistent_of_obtained {p q : Plan} (hp : Obtained p) (hq : PartOf q p) :
    q.Consistent ∧ q.convention = p.convention :=
  hp.built.consistent hq

/-! ## A rewriting that drops filters -/

/-- Replaces a filter that keeps every row by its input, and counts how often. -/
def dropFilters : Rule Nat
  | ⟨.filter (.literal (.boolean true) _), [input], _, _⟩ => do
    modify (· + 1)
    return input
  | p => return p

theorem dropFilters_maps : dropFilters.Maps Built Obtained := by
  intro q s r s' hq h
  unfold dropFilters at h
  split at h
  · rename_i input _ _
    rw [outcome_bind_eq_ok] at h
    obtain ⟨_, _, -, h⟩ := h
    rw [outcome_pure, Prod.mk.injEq, Except.ok.injEq] at h
    exact h.1 ▸ (hq.of_partOf (.input (by simp) (.self input))).obtained
  · rw [outcome_pure, Prod.mk.injEq, Except.ok.injEq] at h
    exact h.1 ▸ hq.obtained

/-- A document collection of orders. -/
def orders : Plan :=
  let schema : Schema := ⟨[⟨"price", .float .bits64, true⟩]⟩
  ⟨.scan "orders" schema, [], schema, .document⟩

/-- Orders by price, at most ten. -/
def cheapest (input : Plan) : Plan :=
  ⟨.sort [⟨0, false, .last⟩] none (some 10), [input], input.schema, input.convention⟩

/-- Orders, filtered by a condition that always holds. -/
def allOrders : Plan :=
  ⟨.filter (.literal (.boolean true) .boolean), [orders], orders.schema, orders.convention⟩

theorem consistent_orders_of_dropFilters :
    outcome (transform dropFilters (cheapest allOrders)) 0 = (.ok (cheapest orders), 1) ∧
      orders.Consistent ∧ orders.convention = (cheapest orders).convention := by
  have h : outcome (transform dropFilters (cheapest allOrders)) 0 = (.ok (cheapest orders), 1) :=
    rfl
  exact ⟨h, consistent_of_obtained (.transform dropFilters_maps h)
    (.input (List.mem_singleton.2 rfl) (.self orders))⟩

end StorePlan.Plan
