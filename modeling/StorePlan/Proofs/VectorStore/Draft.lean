import StorePlan.Proofs.Plan.Invariant
import StorePlan.VectorStore.Request

/-
What drafting a request does, operator by operator. `Drafted` relates a chain
of operators to the draft made of it, with one constructor for each operator
that the store can take; `Drafted.of_ofPlan` is the inversion from which
every invariant of drafts is proved, by induction on the chain.
-/

namespace StorePlan.VectorStore

namespace Draft

/-- The draft with one more filter. -/
def narrow (d : Draft) (added : Filter) : Draft :=
  { d with
    filter := some <|
      match d.filter with
      | some filter => Filter.join .and filter added
      | none => added }

variable {d d' : Draft} {input : Schema}

/-! ## Single steps -/

theorem checkStored_eq_ok {condition : RowExpr} {u : Unit} :
    d.checkStored condition = .ok u ↔ ∀ i ∈ condition.fields, (d.stored? i).isSome := by
  unfold checkStored
  split
  · rename_i i hi
    have hmem := List.mem_of_find?_eq_some hi
    have hnone := List.find?_some hi
    rw [Option.isNone_iff_eq_none] at hnone
    simp only [reduceCtorEq, false_iff]
    intro hall
    have hsome := hall i hmem
    simp [hnone] at hsome
  · rename_i h
    simpa [Option.isSome_iff_ne_none] using h

theorem addFilter_eq_ok {condition : RowExpr} :
    d.addFilter condition input = .ok d' ↔
      d.isPaged = false ∧ (∀ i ∈ condition.fields, (d.stored? i).isSome) ∧
        ∃ predicate, Predicate.ofCondition (d.storedSchema input) condition = .ok predicate ∧
          ∃ added, Filter.ofPredicate predicate = .ok added ∧ d.narrow added = d' := by
  unfold addFilter
  cases d.isPaged with
  | true => simp
  | false =>
    simp only [Bool.false_eq_true, if_false, bind_eq_ok, pure_eq_ok, checkStored_eq_ok,
      mapError_eq_ok, exists_and_left, exists_const, true_and]
    rfl

theorem project_eq_ok {exprs : List (String × RowExpr)} :
    d.project exprs input = .ok d' ↔
      ((exprs.any fun item => ranks item.2) && d.isPaged) = false ∧
        ∃ sources search, d.projectFields input d.search exprs = .ok (sources, search) ∧
          { d with sources, search, projection := sources.filterMap Source.stored? } = d' := by
  unfold project
  cases (exprs.any fun item => ranks item.2) && d.isPaged with
  | true => simp
  | false =>
    simp only [Bool.false_eq_true, if_false, bind_eq_ok, pure_eq_ok, Prod.exists, true_and]

/-- What a projected expression holds: what a field holds, or the distance that a first search
finds. -/
inductive Projects (d : Draft) : RowExpr → Option Search → Source → Option Search → Prop where
  | field {i : Nat} {t : DataType} {source : Source} {search : Option Search} :
    d.sources[i]? = some source → Projects d (.field i t) search source search
  | distance {operands : List RowExpr} {t : DataType} {s : Search} :
    d.search? operands = .ok s → Projects d (.call .distance operands t) none .distance (some s)

theorem projects_of_projectField {e : RowExpr} {source : Source} {search search' : Option Search}
    (h : d.projectField input search e = .ok (source, search')) :
    d.Projects e search source search' := by
  unfold projectField at h
  split at h
  · split at h
    · rename_i hsource
      cases h
      exact .field hsource
    · cases h
  · split at h
    · cases h
    · rename_i hnone
      obtain rfl : search = none := by simpa using hnone
      simp only [bind_eq_ok, pure_eq_ok] at h
      obtain ⟨s, hs, h⟩ := h
      cases h
      exact .distance hs
  · cases h

theorem projectFields_cons_eq_ok {name : String} {e : RowExpr} {rest : List (String × RowExpr)}
    {sources : List Source} {search search' : Option Search} :
    d.projectFields input search ((name, e) :: rest) = .ok (sources, search') ↔
      ∃ source middle, d.projectField input search e = .ok (source, middle) ∧
        ∃ others, d.projectFields input middle rest = .ok (others, search') ∧
          source :: others = sources := by
  simp only [projectFields, bind_eq_ok, pure_eq_ok, Prod.exists, Prod.mk.injEq]
  constructor
  · rintro ⟨source, middle, hfield, others, last, hrest, rfl, rfl⟩
    exact ⟨source, middle, hfield, others, hrest, rfl⟩
  · rintro ⟨source, middle, hfield, others, hrest, rfl⟩
    exact ⟨source, middle, hfield, others, search', hrest, rfl, rfl⟩

theorem sort_eq_ok {keys : List Collation} {offset fetch : Option UInt64} {output : Schema} :
    d.sort keys offset fetch output = .ok d' ↔
      (∀ key ∈ keys, d.canSortBy key = true) ∧
        { d with skip := offset <|> d.skip, limit := fetch <|> d.limit } = d' := by
  unfold sort
  split
  · rename_i key hkey
    have hmem := List.mem_of_find?_eq_some hkey
    have hbad := List.find?_some hkey
    simp only [reduceCtorEq, false_iff, not_and]
    intro hall
    simp [hall key hmem] at hbad
  · rename_i h
    have hall : ∀ key ∈ keys, d.canSortBy key = true := by simpa using h
    simp only [Except.ok.injEq]
    exact ⟨fun heq => ⟨hall, heq⟩, And.right⟩

/-- A projected field holds what a field of the input holds, or the distance. -/
theorem forall₂_projectFields {exprs : List (String × RowExpr)} {search search' : Option Search}
    {sources : List Source} (h : d.projectFields input search exprs = .ok (sources, search')) :
    List.Forall₂ (fun item source =>
      (∃ i t, item.2 = .field i t ∧ d.sources[i]? = some source) ∨
        ranks item.2 = true ∧ source = .distance) exprs sources := by
  induction exprs generalizing search search' sources with
  | nil =>
    obtain ⟨rfl, -⟩ : [] = sources ∧ search = search' := by simpa [projectFields] using h
    exact .nil
  | cons item rest ih =>
    obtain ⟨name, e⟩ := item
    obtain ⟨source, middle, hfield, others, hrest, rfl⟩ := projectFields_cons_eq_ok.1 h
    refine .cons ?_ (ih hrest)
    cases projects_of_projectField hfield with
    | field hsource => exact .inl ⟨_, _, rfl, hsource⟩
    | distance _ => exact .inr ⟨rfl, rfl⟩

/-! ## Chains -/

theorem takes_one_of_isLink {kind : OperatorKind} (h : isLink kind = true) :
    kind.takes 1 = true := by
  cases kind <;> simp_all [isLink, OperatorKind.takes]

theorem ofPlan_of_isLink {op : Operator} {input : Plan} {schema : Schema}
    {convention : Convention} (h : isLink op.kind = true) :
    ofPlan ⟨op, [input], schema, convention⟩ = (do
      let below ← ofPlan input
      below.add op schema input.schema) := by
  cases op <;> simp_all [ofPlan, isLink, Operator.kind]

/-- The draft says of every column of a row type what it holds. -/
def Covers (d : Draft) (schema : Schema) : Prop := d.sources.length = schema.width

end Draft

open Draft

/-- Chains of operators with the drafts made of them, each step with what it has checked. -/
inductive Drafted : Plan → Draft → Prop where
  | scan (table : String) (schema : Schema) (convention : Convention) :
    Drafted ⟨.scan table schema, [], schema, convention⟩
      { entity := table, sources := schema.names.map .stored }
  /-- No rows have been cut off, and every field of the condition is stored. -/
  | filter {input : Plan} {d : Draft} {condition : RowExpr} {convention : Convention}
      {predicate : Predicate} {added : Filter} :
    Drafted input d → d.isPaged = false → (∀ i ∈ condition.fields, (d.stored? i).isSome) →
      Predicate.ofCondition (d.storedSchema input.schema) condition = .ok predicate →
      Filter.ofPredicate predicate = .ok added →
      Drafted ⟨.filter condition, [input], input.schema, convention⟩ (d.narrow added)
  | project {input : Plan} {d : Draft} {exprs : List (String × RowExpr)} {schema : Schema}
      {convention : Convention} {sources : List Source} {search : Option Search} :
    Drafted input d → schema.width = exprs.length →
      d.projectFields input.schema d.search exprs = .ok (sources, search) →
      Drafted ⟨.project exprs, [input], schema, convention⟩
        { d with sources, search, projection := sources.filterMap Source.stored? }
  | sort {input : Plan} {d : Draft} {keys : List Collation} {offset fetch : Option UInt64}
      {convention : Convention} :
    Drafted input d →
      Drafted ⟨.sort keys offset fetch, [input], input.schema, convention⟩
        { d with skip := offset <|> d.skip, limit := fetch <|> d.limit }

namespace Drafted

/-- One more operator on top of a chain. -/
theorem of_add {op : Operator} {input : Plan} {schema : Schema} {convention : Convention}
    {d d' : Draft} (h : Drafted input d)
    (hp : Plan.Consistent ⟨op, [input], schema, convention⟩)
    (hadd : d.add op schema input.schema = .ok d') :
    Drafted ⟨op, [input], schema, convention⟩ d' := by
  have houtput : op.outputSchema convention [input.schema] = .ok schema := hp.derived
  cases op with
  | filter condition =>
    obtain rfl := Operator.eq_of_outputSchema (.inl rfl) houtput
    obtain ⟨hpaged, hstored, predicate, hpredicate, added, hadded, rfl⟩ := addFilter_eq_ok.1 hadd
    exact .filter h hpaged hstored hpredicate hadded
  | project exprs =>
    obtain ⟨-, sources, search, hfields, rfl⟩ := project_eq_ok.1 hadd
    exact .project h (Operator.width_project houtput) hfields
  | sort keys offset fetch =>
    obtain rfl := Operator.eq_of_outputSchema (.inr rfl) houtput
    obtain ⟨-, rfl⟩ := sort_eq_ok.1 hadd
    exact .sort h
  | _ => simp [add] at hadd

/-- Every draft of a built plan is made in these ways. -/
theorem of_ofPlan {p : Plan} {d : Draft} (hp : p.Built) (h : ofPlan p = .ok d) : Drafted p d := by
  revert d
  refine hp.chain (motive := fun p => ∀ {d}, ofPlan p = .ok d → Drafted p d)
    (fun _ => takes_one_of_isLink) ?_ ?_
  · intro op inputs schema convention hlink hp d h
    cases op with
    | scan table columns =>
      obtain rfl : columns = schema := Except.ok.inj hp.derived
      obtain rfl : inputs = [] := List.map_eq_nil_iff.1 hp.fits
      obtain rfl : _ = d := by simpa [ofPlan] using h
      exact .scan table columns convention
    | aggregate | join | union | values =>
      rcases inputs with _ | ⟨input, _ | _⟩ <;> simp [ofPlan, isLink, Operator.kind] at h
    | _ => simp [isLink, Operator.kind] at hlink
  · intro op input schema convention hlink hp _ ih d' h
    rw [ofPlan_of_isLink hlink] at h
    obtain ⟨d, hd, hadd⟩ := bind_eq_ok.1 h
    exact (ih hd).of_add hp hadd

theorem covers {p : Plan} {d : Draft} (h : Drafted p d) : d.Covers p.schema := by
  induction h with
  | scan table schema => simp [Covers, Schema.names, Schema.width]
  | filter _ _ _ _ _ ih => exact ih
  | project _ hwidth hfields => exact (forall₂_projectFields hfields).length_eq.symm.trans hwidth.symm
  | sort _ ih => exact ih

end Drafted

/-- A request is a finished draft of the plan. -/
theorem request_eq_ok {settings : Settings} {p : Plan} {r : Request} (hp : p.Built)
    (h : request settings p = .ok r) : ∃ d, Drafted p d ∧ d.finish settings.knnLimit = r := by
  unfold request at h
  split at h
  · obtain ⟨d, hd, h⟩ := bind_eq_ok.1 h
    exact ⟨d, .of_ofPlan hp hd, pure_eq_ok.1 h⟩
  · cases h

end StorePlan.VectorStore
