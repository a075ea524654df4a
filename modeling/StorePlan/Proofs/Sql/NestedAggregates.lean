import StorePlan.Proofs.Sql.ArrayTarget
import StorePlan.Proofs.Sql.Parts
import StorePlan.Proofs.Sql.Written

/-
Aggregates inside of aggregates. A dialect without such calls refuses them
wherever one is found below the operands of another, but windows are not
looked into: an aggregate that an operand calls over a window, or orders a
window by, is let through.
-/

namespace StorePlan.Sql

namespace Node

def isAggregateCall : Node → Bool
  | call op _ _ => op.isAggregate
  | _ => false

def isWindow : Node → Bool
  | window .. => true
  | _ => false

/-- Nodes that are looked into where sub-queries are not entered. -/
def outsideQueries (n : Node) : Bool := !n.isQuery

/-- Nodes that are looked into where neither sub-queries nor windows are entered. -/
def outsideWindows (n : Node) : Bool := !n.isQuery && !n.isWindow

/-- Some aggregate call of the tree has another one in its operands. -/
def NestsAggregates (enters : Node → Bool) (n : Node) : Prop :=
  ∃ outer, Reaches (fun _ => true) n outer ∧ outer.isAggregateCall = true ∧
    ∃ operand ∈ outer.parts, ∃ inner, Reaches enters operand inner ∧ inner.isAggregateCall = true

section Nesting

variable {enters enters' : Node → Bool} {n m : Node}

/-- Looking into more nodes finds more. -/
theorem NestsAggregates.mono (h : NestsAggregates enters n)
    (hsub : ∀ k, enters k = true → enters' k = true) : NestsAggregates enters' n := by
  obtain ⟨outer, houter, hcall, operand, hoperand, inner, hinner, hin⟩ := h
  exact ⟨outer, houter, hcall, operand, hoperand, inner, hinner.mono hsub, hin⟩

theorem NestsAggregates.inside (hm : m ∈ n.parts) (h : NestsAggregates enters m) :
    NestsAggregates enters n := by
  obtain ⟨outer, houter, hrest⟩ := h
  exact ⟨outer, .inside rfl hm houter, hrest⟩

end Nesting

/-! ## What the gate looks into -/

theorem anyHasAggregate_eq_any (ns : List Node) : anyHasAggregate ns = ns.any hasAggregate := by
  induction ns with
  | nil => rfl
  | cons n rest ih => rw [anyHasAggregate, List.any_cons, ih]

theorem optionHasAggregate_eq_any (n : Option Node) :
    optionHasAggregate n = n.toList.any hasAggregate := by
  cases n <;> simp [optionHasAggregate]

theorem branchHasAggregate_eq_any (bs : List (Node × Node)) :
    branchHasAggregate bs = (bs.flatMap fun branch => [branch.1, branch.2]).any hasAggregate := by
  induction bs with
  | nil => rfl
  | cons b rest ih => simp [branchHasAggregate, ih, Bool.or_assoc]

/-- A node has an aggregate if it calls one, or if a part of it has one and it is looked into. -/
theorem hasAggregate_eq_any (n : Node) :
    n.hasAggregate =
      (n.isAggregateCall || (n.outsideWindows && !n.isJoin && n.parts.any hasAggregate)) := by
  cases n <;>
    simp [hasAggregate, isAggregateCall, outsideWindows, isQuery, isWindow, isJoin, parts,
      anyHasAggregate_eq_any, optionHasAggregate_eq_any, branchHasAggregate_eq_any, Bool.or_assoc]

end Node

/-! ## What writing does with the parts -/

namespace Dialect

open Node

/-- The error of the gate. -/
def gateError (d : Dialect) (op : Op) : WriteError := .feature d (.nestedAggregates op)

/-- The gate that a node goes through. -/
def gate (d : Dialect) : Node → Except WriteError Unit
  | .call op operands _ => d.checkNesting op operands
  | _ => .ok ()

/-- A computation that writes some nodes. In a dialect without nested aggregates it succeeds only if
each of them is written in one of the places, and the gate stops it only if it stops one of them. -/
structure Visits {α : Type} (d : Dialect) (g : Op) (P : Place → Prop) (ns : List Node)
    (result : Except WriteError α) : Prop where
  written : d.features.nestedAggregates = false → ∀ a, result = .ok a →
    ∀ n ∈ ns, ∃ place ts, P place ∧ d.write place n = .ok ts
  refused : result = .error (d.gateError g) →
    ∃ n ∈ ns, ∃ place, d.write place n = .error (d.gateError g)

section Visiting

variable {α β : Type} {d : Dialect} {g : Op} {P : Place → Prop} {ms ns : List Node}
  {place : Place} {x : Except WriteError α} {f : α → Except WriteError β}

namespace Visits

theorem ok (a : α) : Visits d g P [] (.ok a : Except WriteError α) :=
  ⟨fun _ _ _ => List.forall_mem_nil _, fun h => by cases h⟩

theorem error {e : WriteError} (h : e ≠ d.gateError g) :
    Visits d g P ns (.error e : Except WriteError α) where
  written := nofun
  refused herror := absurd (Except.error.inj herror) h

theorem bind (hx : Visits d g P ms x) (hf : ∀ a, x = .ok a → Visits d g P ns (f a)) :
    Visits d g P (ms ++ ns) (x >>= f) := by
  refine ⟨fun hd b hb => ?_, fun herror => ?_⟩
  · obtain ⟨a, ha, hb⟩ := bind_eq_ok.1 hb
    exact List.forall_mem_append.2 ⟨hx.written hd a ha, (hf a ha).written hd b hb⟩
  · cases hresult : x with
    | error e =>
      rw [hresult] at herror
      cases herror
      obtain ⟨n, hn, hstopped⟩ := hx.refused hresult
      exact ⟨n, List.mem_append_left _ hn, hstopped⟩
    | ok a =>
      rw [hresult] at herror
      obtain ⟨n, hn, hstopped⟩ := (hf a hresult).refused herror
      exact ⟨n, List.mem_append_right _ hn, hstopped⟩

/-- What is made of what was written. -/
theorem map {make : α → β} (hx : Visits d g P ms x) :
    Visits d g P ms (do return make (← x)) := by
  rw [← List.append_nil ms]
  exact hx.bind fun a _ => .ok (make a)

/-- The order does not matter. -/
theorem perm (hx : Visits d g P ms x) (h : ms.Perm ns) : Visits d g P ns x where
  written hd a ha n hn := hx.written hd a ha n (h.mem_iff.2 hn)
  refused herror := by
    obtain ⟨n, hn, hstopped⟩ := hx.refused herror
    exact ⟨n, h.mem_iff.1 hn, hstopped⟩

/-- A step that writes nothing, and that the gate does not stop. -/
theorem after (hx : ∀ e, x = .error e → e ≠ d.gateError g)
    (hf : ∀ a, x = .ok a → Visits d g P ns (f a)) : Visits d g P ns (x >>= f) := by
  cases hresult : x with
  | error e => exact error (hx e hresult)
  | ok a => exact hf a hresult

end Visits

theorem visits_write (h : P place) (n : Node) :
    Visits d g P [n] (d.write place n) where
  written _ ts hts := List.forall_mem_singleton.2 ⟨place, ts, h, hts⟩
  refused herror := ⟨n, List.mem_singleton_self n, place, herror⟩

theorem visits_all (h : P place) (ns : List Node) :
    Visits d g P ns (d.writeAll place ns) := by
  induction ns with
  | nil => exact .ok []
  | cons n rest ih => exact (visits_write h n).bind fun _ _ => ih.map

theorem visits_operands (h : ∀ p, P (.operand p)) (op : Op) (position : Nat)
    (ns : List Node) : Visits d g P ns (d.writeOperands op position ns) := by
  induction ns generalizing position with
  | nil => exact .ok []
  | cons n rest ih => exact (visits_write (h _) n).bind fun _ _ => (ih _).map

theorem visits_option (h : P place) (n : Option Node) :
    Visits d g P n.toList (d.writeOption place n) := by
  cases n with
  | none => exact .ok none
  | some n => exact (visits_write h n).map

theorem visits_branches (h : P .free) (bs : List (Node × Node)) :
    Visits d g P (bs.flatMap fun branch => [branch.1, branch.2]) (d.writeBranches bs) := by
  induction bs with
  | nil => exact .ok []
  | cons b rest ih =>
    exact (visits_write h b.1).bind fun _ _ => (visits_write h b.2).bind fun _ _ => ih.map

theorem visits_rows (h : P .free) (rows : List (List Node)) :
    Visits d g P rows.flatten (d.writeRows rows) := by
  induction rows with
  | nil => exact .ok []
  | cons row rest ih => exact (visits_all h row).bind fun _ _ => ih.map

theorem visits_select (h : ∀ place, P place) (block : Select Node) :
    Visits d g P block.parts (d.writeSelect block) := by
  obtain ⟨distinct, items, source, condition, groupBy, having, orderBy, offset, fetch⟩ := block
  simp only [Select.parts, List.append_assoc]
  refine (visits_all (h _) items).bind fun _ _ => (visits_option (h _) source).bind fun _ _ =>
    (visits_option (h _) condition).bind fun _ _ => (visits_all (h _) groupBy).bind fun _ _ =>
    (visits_option (h _) having).bind fun _ _ => (visits_all (h _) orderBy).bind fun _ _ => ?_
  cases d.features.pagination with
  | offsetFetch =>
    exact (visits_option (h _) offset).bind fun _ _ => (visits_option (h _) fetch).map
  | limitOffset =>
    exact ((visits_option (h _) fetch).bind fun _ _ => (visits_option (h _) offset).map).perm
      List.perm_append_comm

theorem node_ne_gateError {cause : MalformedNode} : .node cause ≠ d.gateError g := nofun

theorem feature_ne_gateError {lacking : Feature} (h : ∀ op, lacking ≠ .nestedAggregates op) :
    .feature d lacking ≠ d.gateError g := by
  intro heq
  cases heq
  exact h _ rfl

theorem castTarget_ne_gateError {t : DataType} {e : WriteError} (h : d.castTarget t = .error e) :
    e ≠ d.gateError g := by
  have hcause : ∃ u, e = .castTarget d u := by
    rcases Nat.eq_zero_or_pos t.depth with hdepth | hdepth
    · by_cases hnull : t = .null
      · subst hnull
        cases d <;> cases h <;> exact ⟨_, rfl⟩
      · obtain ⟨own, hown, -⟩ := exists_castTarget_prefix d hdepth hnull
        cases hown.symm.trans h
    · rw [castTarget_of_one_le_depth hdepth] at h
      by_cases hnull : t.innermost = .null
      · rw [arrayCastTarget, hnull] at h
        cases d <;> cases h <;> exact ⟨_, rfl⟩
      · cases (arrayCastTarget_eq_ok.2 ⟨hnull, rfl⟩).symm.trans h
  obtain ⟨u, rfl⟩ := hcause
  exact nofun

theorem rounding_ne_gateError {op : Op} {operands : List Node} {e : WriteError}
    (h : d.rounding? op operands = .error e) : e ≠ d.gateError g := by
  unfold rounding? at h
  split at h
  · cases h
  split at h
  · split at h
    · split at h
      · cases h
      · cases h
        exact nofun
    · cases h
  · cases h

theorem visits_parameter (index : Nat) (type : Option DataType) :
    Visits d g P [] (d.parameterTokens index type) := by
  unfold parameterTokens
  split
  · split
    · exact .ok _
    · exact .after (fun _ => castTarget_ne_gateError) fun _ _ => .ok _
    · exact .ok _
  · exact .ok _

theorem visits_call {op : Op} {operands : List Node} {distinct : Bool}
    (hoperand : ∀ q, P (.operand q)) (hgate : d.checkNesting op operands = .ok ()) :
    Visits d g P operands (d.write place (.call op operands distinct)) := by
  rw [write, hgate]
  change Visits d g P operands (ite _ _ _)
  split_ifs with hcounts
  · -- The other operands are not written, but this dialect has nested aggregates.
    have hnested : d.features.nestedAggregates = true := by
      obtain ⟨-, hcounts⟩ := hcounts
      cases d <;> first | rfl | cases hcounts
    cases operands with
    | nil => exact .ok _
    | cons operand rest =>
      have hfirst : Visits d g P [operand] (do
          return singleValueTokens (← d.write .free operand)) :=
        (visits_write (hoperand 0) operand).map
      constructor
      · intro hlacks
        rw [hnested] at hlacks
        cases hlacks
      · intro herror
        obtain ⟨n, hn, hstopped⟩ := hfirst.refused herror
        exact ⟨n, List.mem_cons.2 (.inl (List.mem_singleton.1 hn)), hstopped⟩
  · refine .after (fun _ => rounding_ne_gateError) fun rounding _ => ?_
    refine .after (fun _ herror => ?_) fun _ _ => ?_
    · unfold checkOperands at herror
      split_ifs at herror
      cases herror
      exact node_ne_gateError
    · cases rounding <;> exact (visits_operands hoperand op 0 operands).map

/-- A node that passes the gate writes its parts. -/
theorem visits_parts {n : Node} (hgate : d.gate n = .ok ()) (hoperand : ∀ q, P (.operand q))
    (hquery : n.isQuery = true ∨ n.isJoin = true → ∀ place, P place) :
    Visits d g P n.parts (d.write place n) := by
  have hfree : P .free := hoperand 0
  cases n with
  | call op operands distinct => exact visits_call hoperand hgate
  | name _ | star | literal _ => exact .ok _
  | parameter index type => exact visits_parameter index type
  | cast operand target =>
    have htarget (operand : List Token) :
        Visits d g P [] (do return castTokens operand (← d.castTarget target)) :=
      .after (fun _ => castTarget_ne_gateError) fun _ _ => .ok _
    exact (visits_write hfree operand).bind fun operand _ => htarget operand
  | caseOf subject branches otherwise =>
    simp only [write, parts, List.append_assoc]
    split_ifs
    · exact .error node_ne_gateError
    · exact (visits_option hfree subject).bind fun _ _ =>
        (visits_branches hfree branches).bind fun _ _ => (visits_option hfree otherwise).map
  | array items =>
    simp only [write]
    split_ifs
    · exact .error (feature_ne_gateError fun _ h => by cases h)
    · exact (visits_all hfree items).map
  | window called partitionBy orderBy =>
    simp only [write]
    split_ifs
    · exact .error (feature_ne_gateError fun _ h => by cases h)
    · exact (visits_write (hoperand _) called).bind fun _ _ =>
        (visits_all hfree partitionBy).bind fun _ _ => (visits_all hfree orderBy).map
  | aliased operand name => exact (visits_write hfree operand).map
  | sortKey operand descending nullsFirst => exact (visits_write hfree operand).map
  | join left right kind condition =>
    simp only [write]
    split_ifs
    · exact (visits_write (hquery (.inr rfl) _) left).bind fun _ _ =>
        (visits_write (hquery (.inr rfl) _) right).bind fun _ _ =>
          (visits_option hfree condition).map
    · exact .error node_ne_gateError
  | select block => exact (visits_select (hquery (.inl rfl)) block).map
  | setOperation op left right =>
    exact (visits_write (hquery (.inl rfl) _) left).bind fun _ _ =>
      (visits_write (hquery (.inl rfl) _) right).map
  | values rows =>
    simp only [write]
    split_ifs
    · exact .error node_ne_gateError
    · exact (visits_rows hfree rows).map

/-- A node passes the gate, or it is an aggregate call and the gate finds another one in it. -/
theorem gate_cases (d : Dialect) (n : Node) :
    d.gate n = .ok () ∧ (d.features.nestedAggregates = false → n.isAggregateCall = true →
      ∀ operand ∈ n.parts, operand.hasAggregate = false) ∨
    (∃ op, d.gate n = .error (d.gateError op)) ∧ n.isAggregateCall = true ∧
      ∃ operand ∈ n.parts, operand.hasAggregate = true := by
  cases n with
  | call op operands distinct =>
    simp only [gate, checkNesting, gateError, anyHasAggregate_eq_any]
    split_ifs with h
    · simp only [Bool.and_eq_true, List.any_eq_true] at h
      exact .inr ⟨⟨op, rfl⟩, h.1.1, h.2⟩
    · refine .inl ⟨rfl, fun hlacks haggregate operand hoperand => ?_⟩
      by_contra hhas
      have hany : operands.any hasAggregate = true :=
        List.any_eq_true.2 ⟨operand, hoperand, by simpa using hhas⟩
      have haggregate : op.isAggregate = true := haggregate
      simp [hlacks, haggregate, hany] at h
  | _ => exact .inl ⟨rfl, fun _ haggregate => by cases haggregate⟩

/-- What is written has passed the gate, and its parts are written. -/
theorem written_parts {n : Node} {ts : List Token} (hlacks : d.features.nestedAggregates = false)
    (h : d.write place n = .ok ts) (hoperand : ∀ q, P (.operand q))
    (hquery : n.isQuery = true ∨ n.isJoin = true → ∀ place, P place) :
    d.gate n = .ok () ∧ ∀ m ∈ n.parts, ∃ place ts, P place ∧ d.write place m = .ok ts := by
  have hgate : d.gate n = .ok () := by
    cases n with
    | call op operands distinct => exact (bind_eq_ok.1 h).choose_spec.1
    | _ => rfl
  exact ⟨hgate, (visits_parts (g := .sum) hgate hoperand hquery).written hlacks ts h⟩

/-- The gate finds every aggregate outside of windows in an expression that is written. -/
theorem hasAggregate_of_reaches {n inner : Node} (hlacks : d.features.nestedAggregates = false)
    (h : Reaches outsideWindows n inner) (hinner : inner.isAggregateCall = true) :
    ∀ place ts, place ≠ .source → d.write place n = .ok ts → n.hasAggregate = true := by
  induction h with
  | self n =>
    intro place ts _ _
    rw [hasAggregate_eq_any, hinner, Bool.true_or]
  | @inside n part inner hn hpart _ ih =>
    intro place ts hplace hts
    have hquery : n.isQuery = false := by
      unfold outsideWindows at hn
      cases hq : n.isQuery <;> simp [hq] at hn ⊢
    have hjoin : n.isJoin = false := by
      cases n with
      | join => exact absurd (write_join_eq_ok.1 hts).1 hplace
      | _ => rfl
    obtain ⟨-, hparts⟩ := written_parts (P := (· ≠ .source)) hlacks hts (fun _ => nofun)
      fun h => absurd h (by simp [hquery, hjoin])
    obtain ⟨place', ts', hplace', hts'⟩ := hparts part hpart
    have hpartHas := ih hinner place' ts' hplace' hts'
    rw [hasAggregate_eq_any, hn, hjoin, List.any_eq_true.2 ⟨part, hpart, hpartHas⟩]
    simp

/-- What the gate finds is outside of windows. -/
theorem exists_reaches_of_hasAggregate (n : Node) (h : n.hasAggregate = true) :
    ∃ inner, Reaches outsideWindows n inner ∧ inner.isAggregateCall = true := by
  induction n using induction_parts with
  | h n ih =>
    rw [hasAggregate_eq_any, Bool.or_eq_true] at h
    rcases h with hself | hpart
    · exact ⟨n, .self n, hself⟩
    · simp only [Bool.and_eq_true, List.any_eq_true] at hpart
      obtain ⟨⟨hn, -⟩, part, hpart, hhas⟩ := hpart
      obtain ⟨inner, hinner, haggregate⟩ := ih part hpart hhas
      exact ⟨inner, .inside hn hpart hinner, haggregate⟩

/-- What the gate stops has an aggregate with another one in its operands. -/
theorem nestsAggregates_of_refused (d : Dialect) (op : Op) (n : Node) :
    ∀ place, d.write place n = .error (d.gateError op) → n.NestsAggregates outsideWindows := by
  induction n using induction_parts with
  | h n ih =>
    intro place h
    rcases d.gate_cases n with ⟨hgate, -⟩ | ⟨-, haggregate, operand, hoperand, hhas⟩
    · have hvisits : Visits d op (fun _ => True) n.parts (d.write place n) :=
        visits_parts hgate (fun _ => trivial) fun _ _ => trivial
      obtain ⟨part, hpart, place', hstopped⟩ := hvisits.refused h
      exact (ih part hpart place' hstopped).inside hpart
    · obtain ⟨inner, hinner, hcall⟩ := exists_reaches_of_hasAggregate operand hhas
      exact ⟨n, .self n, haggregate, operand, hoperand, inner, hinner, hcall⟩

/-- A node that is written has every node in it written. -/
theorem written_of_reaches {n m : Node} (hlacks : d.features.nestedAggregates = false)
    (h : Reaches (fun _ => true) n m) :
    ∀ place ts, d.write place n = .ok ts → ∃ place ts, d.write place m = .ok ts := by
  induction h with
  | self n => exact fun place ts hts => ⟨place, ts, hts⟩
  | inside _ hpart _ ih =>
    intro place ts hts
    obtain ⟨-, hparts⟩ := written_parts (P := fun _ => True) hlacks hts (fun _ => trivial)
      fun _ _ => trivial
    obtain ⟨place', ts', -, hts'⟩ := hparts _ hpart
    exact ih place' ts' hts'

end Visiting

/-- A dialect without nested aggregates writes none, apart from those over a window, and no dialect
refuses a tree for them that has none. -/
theorem nestsAggregates_text (d : Dialect) (aliasPrefix : String) (n : Node) :
    (d.features.nestedAggregates = false → ∀ s, d.text aliasPrefix n = .ok s →
      ¬n.NestsAggregates outsideWindows) ∧
    (∀ op, d.text aliasPrefix n = .error (.feature d (.nestedAggregates op)) →
      n.NestsAggregates outsideWindows) ∧
    (¬n.NestsAggregates outsideQueries →
      ∀ op, d.text aliasPrefix n ≠ .error (.feature d (.nestedAggregates op))) := by
  have hrefused (op : Op) (h : d.text aliasPrefix n = .error (d.gateError op)) :
      n.NestsAggregates outsideWindows := by
    refine nestsAggregates_of_refused d op n .statement ?_
    cases hresult : d.write .statement n with
    | error e =>
      rw [Dialect.text, hresult] at h
      exact congrArg Except.error (Except.error.inj h)
    | ok ts =>
      rw [Dialect.text, hresult] at h
      cases h
  refine ⟨fun hlacks s hs => ?_, hrefused, fun hnone op herror => hnone ?_⟩
  · rintro ⟨outer, houter, haggregate, operand, hoperand, inner, hinner, hcall⟩
    obtain ⟨ts, hts, -⟩ := bind_eq_ok.1 hs
    obtain ⟨place, us, hus⟩ := written_of_reaches hlacks houter _ ts hts
    have hexpression : outer.isQuery = false ∧ outer.isJoin = false := by
      cases outer <;> first | exact ⟨rfl, rfl⟩ | cases haggregate
    obtain ⟨hgate, hparts⟩ := written_parts (P := (· ≠ .source)) hlacks hus (fun _ => nofun)
      fun h => absurd h (by simp [hexpression])
    obtain ⟨place', ts', hplace', hts'⟩ := hparts operand hoperand
    have hhas := hasAggregate_of_reaches hlacks hinner hcall place' ts' hplace' hts'
    rcases d.gate_cases outer with ⟨-, hnone⟩ | ⟨⟨op, hstopped⟩, -⟩
    · rw [hnone hlacks haggregate operand hoperand] at hhas
      cases hhas
    · cases hstopped.symm.trans hgate
  · exact (hrefused op herror).mono fun k hk => by
      unfold outsideWindows at hk
      exact (Bool.and_eq_true _ _ ▸ hk).1

/-- The sum of a column, summed over a window and then once more. -/
def windowedSum : Node :=
  .apply .sum [.window (.apply .sum [.name ["x"]]) [] []]

/-- Nothing is nested outside of the window, so the statement is written. -/
theorem nestsAggregates_windowedSum :
    postgresql.features.nestedAggregates = false ∧
      postgresql.text "t" windowedSum = .ok "SUM(SUM(\"x\") OVER ())" ∧
      ¬windowedSum.NestsAggregates outsideWindows := by
  have hlacks : postgresql.features.nestedAggregates = false := rfl
  have htext : postgresql.text "t" windowedSum = .ok "SUM(SUM(\"x\") OVER ())" := by decide
  exact ⟨hlacks, htext, (nestsAggregates_text postgresql "t" windowedSum).1 hlacks _ htext⟩

/-- The sum inside of the window is not found. -/
theorem not_refused_windowedSum :
    postgresql.features.nestedAggregates = false ∧ windowedSum.NestsAggregates outsideQueries ∧
      ∃ s, postgresql.text "t" windowedSum = .ok s := by
  refine ⟨rfl, ⟨windowedSum, .self _, rfl, _, List.mem_singleton_self _, .apply .sum [.name ["x"]],
    .inside rfl List.mem_cons_self (.self _), rfl⟩, "SUM(SUM(\"x\") OVER ())", by decide⟩

end Dialect

end StorePlan.Sql
