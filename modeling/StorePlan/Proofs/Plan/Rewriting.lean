import StorePlan.Proofs.Plan.Invariant

/-
Rewriting as a whole: in which order the rule is called, and that nothing but
the rule can fail. A node depends on its inputs only through their row types
and conventions, so a rule that keeps both leaves every node above it as
buildable as it was (`build_of_alike`).

Calls are observed through a rule that notes each of them and otherwise does
what the rule does (`Rule.noting`).
-/

namespace StorePlan

/-! ## Operators as building leaves them -/

theorem insertAscending_eq_cons {n : Nat} {ns : List Nat} (h : ∀ m ∈ ns, n < m) :
    insertAscending n ns = n :: ns := by
  cases ns with
  | nil => rfl
  | cons m rest => exact if_pos (h m (by simp))

theorem ascending_eq_self {ns : List Nat} (h : ns.Pairwise (· < ·)) : ascending ns = ns := by
  induction ns with
  | nil => rfl
  | cons n rest ih =>
    obtain ⟨hn, hrest⟩ := List.pairwise_cons.1 h
    have : ascending (n :: rest) = insertAscending n (ascending rest) := rfl
    rw [this, ih hrest, insertAscending_eq_cons hn]

namespace Operator

theorem normalize_eq_self {op : Operator} (h : op.Ordered) : op.normalize = op := by
  cases op with
  | aggregate fields sets calls =>
    have hsets : (sets.map fun given => given.map ascending) = sets := by
      cases sets with
      | none => rfl
      | some given =>
        have hgiven : given.map ascending = given.map id :=
          List.map_congr_left fun set hset => ascending_eq_self (h.2 given (.refl _) set hset)
        rw [Option.map_some, hgiven, List.map_id]
    simp only [normalize, ascending_eq_self h.1, hsets]
  | _ => rfl

/-- A well-formed operator has its grouped fields in order. -/
theorem Fits.ordered {op : Operator} {convention : Convention} {inputs : List Schema}
    (h : op.Fits convention inputs) : op.Ordered := by
  cases op with
  | aggregate fields sets calls =>
    obtain ⟨_, -, hfits⟩ := h
    exact ⟨hfits.fieldsAscend, hfits.setsAscend⟩
  | _ => trivial

/-- A well-formed operator stands over as many inputs as it takes. -/
theorem Fits.takes {op : Operator} {convention : Convention} {inputs : List Schema}
    (h : op.Fits convention inputs) : op.kind.takes inputs.length = true := by
  cases op with
  | scan => simp [show inputs = [] from h, kind, OperatorKind.takes]
  | values => simp [h.1, kind, OperatorKind.takes]
  | filter | project | aggregate | sort =>
    obtain ⟨_, rfl, -⟩ := h
    rfl
  | join =>
    obtain ⟨_, _, rfl, -⟩ := h
    rfl
  | union => exact decide_eq_true h

end Operator

namespace Plan

/-- Plans of one row type and one convention. -/
structure Alike (p q : Plan) : Prop where
  schema : p.schema = q.schema
  convention : p.convention = q.convention

theorem Alike.rfl {p : Plan} : p.Alike p := ⟨Eq.refl _, Eq.refl _⟩

theorem map_schema_of_alike {ps qs : List Plan} (h : List.Forall₂ Alike ps qs) :
    ps.map (·.schema) = qs.map (·.schema) := by
  induction h with
  | nil => exact Eq.refl _
  | cons hpq _ ih => simp [hpq.schema, ih]

theorem convention_of_alike {ps qs : List Plan} {c : Convention} (h : List.Forall₂ Alike ps qs)
    (hc : ∀ q ∈ qs, q.convention = c) : ∀ p ∈ ps, p.convention = c := by
  induction h with
  | nil => simp
  | cons hpq _ ih =>
    rw [List.forall_mem_cons] at hc ⊢
    exact ⟨hpq.convention.trans hc.1, ih hc.2⟩

/-- A consistent node can be built over all inputs that are like its own, and is then the same but
for them. -/
theorem build_of_alike {p : Plan} {inputs : List Plan} (hp : p.Consistent)
    (h : List.Forall₂ Alike inputs p.inputs) :
    build p.op inputs p.convention = .ok ⟨p.op, inputs, p.schema, p.convention⟩ := by
  have hschemas := map_schema_of_alike h
  have hcount : inputs.length = (p.inputs.map (·.schema)).length := by
    rw [List.length_map, h.length_eq]
  refine build_eq_ok.2 ⟨?_, convention_of_alike h hp.sameConvention, p.schema, ?_, ?_⟩
  · rw [hcount]
    exact hp.fits.takes
  · rw [Operator.normalize_eq_self hp.fits.ordered, hschemas]
    exact hp.derived
  · rw [Operator.normalize_eq_self hp.fits.ordered]

/-- Copying a node over its own inputs gives the node. -/
theorem copy_inputs {p : Plan} (hp : p.Consistent) : p.copy p.inputs = .ok p := by
  cases p
  exact build_of_alike hp (List.forall₂_same.2 fun _ _ => .rfl)

/-! ## Calls of a rule -/

/-- One call of a rule: the node that it was given, and its answer. -/
structure Call where
  node : Plan
  answer : Except PlanError Plan

/-- The rule, each call of which is noted. -/
def Rule.noting {σ : Type} (rule : Rule σ) : Rule (σ × List Call) := fun p =>
  ExceptT.mk fun (s, calls) =>
    let (answer, s') := outcome (rule p) s
    (answer, s', calls ++ [⟨p, answer⟩])

/-- The node is one of the plan's, over inputs that may have been rewritten. -/
structure CopyOf (copied p : Plan) : Prop where
  op : copied.op = p.op
  schema : copied.schema = p.schema
  convention : copied.convention = p.convention
  inputs : List.Forall₂ Alike copied.inputs p.inputs

/-- An answer that rewriting relies on: a failure, or a plan like the node that was given. -/
def Call.Keeps (call : Call) : Prop :=
  ∀ r, call.answer = .ok r → Obtained r ∧ r.Alike call.node

/-- The call was for this node of the plan, and it succeeded. -/
def Call.Succeeds (call : Call) (p : Plan) : Prop :=
  call.node.CopyOf p ∧ ∃ r, call.answer = .ok r

/-- The calls are for the nodes one after another, up to one for which the rule fails. -/
inductive FailsAt : List Call → List Plan → PlanError → Prop where
  | call {calls : List Call} {before behind : List Plan} {copied p : Plan} {e : PlanError} :
    List.Forall₂ Call.Succeeds calls before → copied.CopyOf p →
      FailsAt (calls ++ [⟨copied, .error e⟩]) (before ++ p :: behind) e

/-- What rewriting a plan comes to by its calls: a plan like it after one call for every node, or
the failure of the last call. -/
def Rewritten (p : Plan) (calls : List Call) : Except PlanError Plan → Prop
  | .ok r => List.Forall₂ Call.Succeeds calls p.nodes ∧ Obtained r ∧ r.Alike p
  | .error e => FailsAt calls p.nodes e

/-- What rewriting plans comes to, from left to right. -/
def AllRewritten (ps : List Plan) (calls : List Call) : Except PlanError (List Plan) → Prop
  | .ok rs => List.Forall₂ Call.Succeeds calls (allNodes ps) ∧
      List.Forall₂ (fun r p => Obtained r ∧ r.Alike p) rs ps
  | .error e => FailsAt calls (allNodes ps) e

theorem FailsAt.after {calls more : List Call} {before behind : List Plan} {e : PlanError}
    (hc : List.Forall₂ Call.Succeeds calls before) (h : FailsAt more behind e) :
    FailsAt (calls ++ more) (before ++ behind) e := by
  cases h with
  | call hmore hcopy =>
    rw [← List.append_assoc, ← List.append_assoc]
    exact .call (List.rel_append hc hmore) hcopy

theorem FailsAt.append {calls : List Call} {before : List Plan} {e : PlanError}
    (h : FailsAt calls before e) (behind : List Plan) : FailsAt calls (before ++ behind) e := by
  cases h with
  | call hc hcopy =>
    rw [List.append_assoc, List.cons_append]
    exact .call hc hcopy

section Runs

variable {σ : Type} {rule : Rule σ}

theorem outcome_noting (p : Plan) (s : σ) (calls : List Call) :
    outcome (rule.noting p) (s, calls) =
      ((outcome (rule p) s).1, (outcome (rule p) s).2, calls ++ [⟨p, (outcome (rule p) s).1⟩]) :=
  rfl

/-- A node is rewritten behind its inputs, by a call for a copy over what they became. -/
theorem outcome_transform (op : Operator) (inputs : List Plan) (schema : Schema)
    (convention : Convention) (s : σ) :
    outcome (transform rule ⟨op, inputs, schema, convention⟩) s =
      match outcome (transformAll rule inputs) s with
      | (.error e, t) => (.error e, t)
      | (.ok rewritten, t) =>
        match build op rewritten convention with
        | .error e => (.error e, t)
        | .ok copied => outcome (rule copied) t := by
  rw [transform, outcome_bind]
  rcases outcome (transformAll rule inputs) s with ⟨e | rewritten, t⟩
  · rfl
  · simp only [outcome_bind, outcome_liftM]
    rcases build op rewritten convention with e | copied <;> rfl

theorem outcome_transformAll_cons (p : Plan) (rest : List Plan) (s : σ) :
    outcome (transformAll rule (p :: rest)) s =
      match outcome (transform rule p) s with
      | (.error e, t) => (.error e, t)
      | (.ok r, t) =>
        match outcome (transformAll rule rest) t with
        | (.error e, u) => (.error e, u)
        | (.ok rs, u) => (.ok (r :: rs), u) := by
  rw [transformAll, outcome_bind]
  rcases outcome (transform rule p) s with ⟨e | r, t⟩
  · rfl
  · simp only [outcome_bind]
    rcases outcome (transformAll rule rest) t with ⟨e | rs, u⟩ <;> rfl

mutual

/-- Noting the calls changes nothing else, and the calls are those that rewriting needs. -/
theorem exists_calls : ∀ (p : Plan) (s : σ) (calls : List Call), ∃ more,
    outcome (transform rule.noting p) (s, calls) =
        ((outcome (transform rule p) s).1, (outcome (transform rule p) s).2, calls ++ more) ∧
      (Built p → (∀ call ∈ more, call.Keeps) →
        p.Rewritten more (outcome (transform rule p) s).1)
  | ⟨op, inputs, schema, convention⟩, s, calls => by
    obtain ⟨below, hbelow, hinputs⟩ := exists_allCalls inputs s calls
    have hbuilt (hp : Built ⟨op, inputs, schema, convention⟩) : ∀ q ∈ inputs, Built q :=
      fun q hq => hp.of_partOf (.input hq (.self q))
    rcases hrun : outcome (transformAll rule inputs) s with ⟨e | rewritten, t⟩
    · -- A call for a node further down fails, and the rule is not called for this one.
      simp only [hrun] at hbelow hinputs
      simp only [outcome_transform, hrun, hbelow]
      refine ⟨below, rfl, fun hp hkeeps => ?_⟩
      exact FailsAt.append (hinputs (hbuilt hp) hkeeps) _
    simp only [hrun] at hbelow hinputs
    -- The inputs became plans like them, so the copy is built again, with the same row type.
    have hcopied (hp : Built ⟨op, inputs, schema, convention⟩) (hkeeps : ∀ c ∈ below, c.Keeps) :
        build op rewritten convention = .ok ⟨op, rewritten, schema, convention⟩ :=
      build_of_alike (hp.consistent (.self _)).1
        ((hinputs (hbuilt hp) hkeeps).2.imp fun _ _ => And.right)
    rcases hcopy : build op rewritten convention with e | copied
    · simp only [outcome_transform, hrun, hbelow, hcopy]
      refine ⟨below, rfl, fun hp hkeeps => ?_⟩
      rw [hcopied hp hkeeps] at hcopy
      cases hcopy
    simp only [outcome_transform, hrun, hbelow, hcopy, outcome_noting]
    refine ⟨below ++ [⟨copied, (outcome (rule copied) t).1⟩], by simp, fun hp hkeeps => ?_⟩
    rw [List.forall_mem_append, List.forall_mem_singleton] at hkeeps
    rw [hcopied hp hkeeps.1] at hcopy
    cases hcopy
    obtain ⟨hvisited, halike⟩ := hinputs (hbuilt hp) hkeeps.1
    have hnode : CopyOf ⟨op, rewritten, schema, convention⟩ ⟨op, inputs, schema, convention⟩ :=
      ⟨rfl, rfl, rfl, halike.imp fun _ _ => And.right⟩
    rcases hanswer : (outcome (rule ⟨op, rewritten, schema, convention⟩) t).1 with e | r
    · exact FailsAt.call hvisited hnode
    · obtain ⟨hr, hlike⟩ := hkeeps.2 r hanswer
      refine ⟨?_, hr, hlike.schema, hlike.convention⟩
      exact List.rel_append hvisited (.cons ⟨hnode, r, rfl⟩ .nil)

theorem exists_allCalls : ∀ (ps : List Plan) (s : σ) (calls : List Call), ∃ more,
    outcome (transformAll rule.noting ps) (s, calls) =
        ((outcome (transformAll rule ps) s).1, (outcome (transformAll rule ps) s).2,
          calls ++ more) ∧
      ((∀ p ∈ ps, Built p) → (∀ call ∈ more, call.Keeps) →
        AllRewritten ps more (outcome (transformAll rule ps) s).1)
  | [], s, calls => ⟨[], by simp [transformAll], fun _ _ => ⟨.nil, .nil⟩⟩
  | p :: rest, s, calls => by
    obtain ⟨first, hfirst, hp⟩ := exists_calls p s calls
    rcases hrun : outcome (transform rule p) s with ⟨e | r, t⟩
    · simp only [hrun] at hfirst hp
      simp only [outcome_transformAll_cons, hrun, hfirst]
      refine ⟨first, rfl, fun hbuilt hkeeps => ?_⟩
      exact FailsAt.append (hp (hbuilt p (by simp)) hkeeps) _
    simp only [hrun] at hfirst hp
    obtain ⟨others, hothers, hrest⟩ := exists_allCalls rest t (calls ++ first)
    have hvisited (hbuilt : ∀ q ∈ p :: rest, Built q) (hkeeps : ∀ c ∈ first ++ others, c.Keeps) :=
      And.intro (hp (hbuilt p (by simp)) (List.forall_mem_append.1 hkeeps).1)
        (hrest (List.forall_mem_cons.1 hbuilt).2 (List.forall_mem_append.1 hkeeps).2)
    -- Whether the rest fails or not, its calls come behind those for the first plan.
    rcases hothersRun : outcome (transformAll rule rest) t with ⟨e | rs, u⟩
    all_goals
      simp only [hothersRun] at hothers hvisited
      simp only [outcome_transformAll_cons, hrun, hfirst, hothers, hothersRun]
      refine ⟨first ++ others, by simp, fun hbuilt hkeeps => ?_⟩
      obtain ⟨⟨hcalls, hkept⟩, hrest⟩ := hvisited hbuilt hkeeps
    · exact FailsAt.after hcalls hrest
    · exact ⟨List.rel_append hcalls hrest.1, .cons hkept hrest.2⟩

end

mutual

/-- The rule that answers every node with itself rewrites a plan to itself. -/
theorem outcome_transform_pure : ∀ {p : Plan} (s : σ), Built p →
    outcome (transform (fun q => pure q) p) s = (.ok p, s)
  | ⟨op, inputs, schema, convention⟩, s, hp => by
    have hinputs := outcome_transformAll_pure s fun q (hq : q ∈ inputs) =>
      hp.of_partOf (.input hq (.self q))
    have hcopy : build op inputs convention = .ok ⟨op, inputs, schema, convention⟩ :=
      copy_inputs (hp.consistent (.self _)).1
    simp only [outcome_transform, hinputs, hcopy, outcome_pure]

theorem outcome_transformAll_pure : ∀ {ps : List Plan} (s : σ), (∀ p ∈ ps, Built p) →
    outcome (transformAll (fun q => pure q) ps) s = (.ok ps, s)
  | [], s, _ => rfl
  | p :: rest, s, h => by
    rw [List.forall_mem_cons] at h
    simp only [outcome_transformAll_cons, outcome_transform_pure s h.1,
      outcome_transformAll_pure s h.2]

end

end Runs

/-- Rewriting calls the rule for all nodes of the plan, inputs first and from left to right, unless a
call fails: then that failure ends it, and nothing else can. The result is like the plan if all
answers are like what was asked about. Without changes the plan stays as it is. -/
theorem rewritten_of_transform {p : Plan} (hp : Obtained p) :
    (∀ (σ : Type) (rule : Rule σ) (s : σ), ∃ answer s' calls,
      outcome (transform rule p) s = (answer, s') ∧
        outcome (transform rule.noting p) (s, []) = (answer, s', calls) ∧
        ((∀ call ∈ calls, call.Keeps) → p.Rewritten calls answer)) ∧
      (∀ q, q ∈ p.nodes ↔ PartOf q p) ∧
      (∀ (σ : Type) (s : σ), outcome (transform (fun q => pure q) p) s = (.ok p, s)) ∧
      p.copy p.inputs = .ok p := by
  refine ⟨fun σ rule s => ?_, fun q => mem_nodes_iff,
    fun σ s => outcome_transform_pure s hp.built, copy_inputs (hp.built.consistent (.self p)).1⟩
  obtain ⟨calls, hnoted, hrewritten⟩ := @exists_calls σ rule p s []
  exact ⟨_, _, calls, rfl, hnoted, hrewritten hp.built⟩

/-- Dropping the filter of `cheapest allOrders` takes three calls, the last of them for a copy of the
sort over its new input. -/
theorem rewritten_cheapest_of_transform :
    let calls : List Call :=
      [⟨orders, .ok orders⟩, ⟨allOrders, .ok orders⟩, ⟨cheapest orders, .ok (cheapest orders)⟩]
    Obtained (cheapest allOrders) ∧
      outcome (transform dropFilters.noting (cheapest allOrders)) (0, []) =
        (.ok (cheapest orders), 1, calls) ∧
      (∀ call ∈ calls, call.Keeps) ∧
      (cheapest allOrders).Rewritten calls (.ok (cheapest orders)) := by
  intro calls
  have hsort (input : Plan) (h : input = orders ∨ input = allOrders) :
      sort input [⟨0, false, .last⟩] none (some 10) = .ok (cheapest input) := by
    rcases h with rfl | rfl <;> rfl
  have hfilter : filter orders (.literal (.boolean true) .boolean) = .ok allOrders := rfl
  have horders : Obtained orders := .scan (show scan "orders" orders.schema .document = _ from rfl)
  have hp : Obtained (cheapest allOrders) := .sort (.filter horders hfilter) (hsort _ (.inr rfl))
  have hrun : outcome (transform dropFilters.noting (cheapest allOrders)) (0, []) =
      (.ok (cheapest orders), 1, calls) := rfl
  have hkeeps : ∀ call ∈ calls, call.Keeps := by
    have hcheapest : Obtained (cheapest orders) := .sort horders (hsort _ (.inl rfl))
    intro call hcall
    simp only [calls, List.mem_cons, List.not_mem_nil, or_false] at hcall
    rcases hcall with rfl | rfl | rfl <;> rintro r ⟨⟩
    · exact ⟨horders, .rfl⟩
    · exact ⟨horders, rfl, rfl⟩
    · exact ⟨hcheapest, .rfl⟩
  obtain ⟨answer, s', noted, -, hnoted, hrewritten⟩ :=
    (rewritten_of_transform hp).1 Nat dropFilters 0
  rw [hrun] at hnoted
  cases hnoted
  exact ⟨hp, hrun, hkeeps, hrewritten hkeeps⟩

end Plan

end StorePlan
