import StorePlan.Proofs.Predicate.Attributes
import StorePlan.Proofs.VectorStore.FilterTree
import StorePlan.Proofs.VectorStore.PushDown

/-
Where the parts of a vector request come from. What a field of a row holds is
said of plans first (`Plan.source?`), without reference to the draft of a
request: a column of the scan, or the distance, however often fields are
renamed, moved, repeated or dropped on the way.

The invariant of the walk up a chain is that the draft says the same of each
field (`Drafted.sources_eq`). The attributes of the filter and of the search
are resolved through the draft, so they follow the plan as well.
-/

namespace StorePlan

open VectorStore (Source)

namespace Plan

/-- The table that a chain reads. -/
def table? : Plan → Option String
  | ⟨.scan table _, _, _, _⟩ => some table
  | ⟨_, [input], _, _⟩ => input.table?
  | _ => none
termination_by structural p => p

/-- What a field of the rows of a chain holds. -/
def source? : Plan → Nat → Option Source
  | ⟨.scan _ schema, _, _, _⟩, i => (schema.column? i).map fun c => .stored c.name
  | ⟨.filter _, [input], _, _⟩, i | ⟨.sort .., [input], _, _⟩, i => input.source? i
  | ⟨.project exprs, [input], _, _⟩, i =>
    match exprs[i]? with
    | some (_, .field j _) => input.source? j
    | some (_, .call .distance _ _) => some .distance
    | _ => none
  | _, _ => none
termination_by structural p => p

/-- What the fields hold, in order. -/
def sources (p : Plan) : List (Option Source) := (List.range p.schema.width).map p.source?

/-- Whether a chain has a projection. -/
def projects : Plan → Bool
  | ⟨.project _, _, _, _⟩ => true
  | ⟨_, [input], _, _⟩ => input.projects
  | _ => false
termination_by structural p => p

/-- What the first of a call's operands holds, as a field of the rows that the call is over. -/
def target? (below : Plan) (operands : List RowExpr) : Option Source :=
  (operands.head?.bind RowExpr.field?).bind below.source?

/-- What the first operands of all distance calls of a chain hold, from the scan up. -/
def targets : Plan → List (Option Source)
  | ⟨.filter condition, [input], _, _⟩ => input.targets ++ condition.distances.map input.target?
  | ⟨.project exprs, [input], _, _⟩ =>
    input.targets ++ (exprs.flatMap fun item => item.2.distances).map input.target?
  | ⟨_, [input], _, _⟩ => input.targets
  | _ => []
termination_by structural p => p

/-- What the fields hold that the conditions of a chain refer to, from the scan up. -/
def conditionSources : Plan → List (Option Source)
  | ⟨.filter condition, [input], _, _⟩ =>
    input.conditionSources ++ condition.fields.map input.source?
  | ⟨_, [input], _, _⟩ => input.conditionSources
  | _ => []
termination_by structural p => p

end Plan

namespace VectorStore

/-- The leaves of a filter that may be missing. -/
def Filter.leaves? (f : Option Filter) : List Leaf := (f.map Filter.leaves).getD []

/-- The stored attribute that a leaf compares. -/
def Leaf.source (l : Leaf) : Option Source := some (.stored l.attributeName)

/-- The parts of a request are what they are in the plan. -/
structure Request.TracesTo (p : Plan) (r : Request) : Prop where
  entity : p.table? = some r.entity
  /-- A projection picks the stored attributes that the last rows hold, in order. -/
  projection : ∃ sources : List Source, p.sources = sources.map some ∧
    r.projection = if p.projects then sources.filterMap Source.stored? else []
  /-- Neighbours are wanted exactly if a distance is called for, which happens at most once. -/
  searched : r.neighbours.isSome ↔ p.targets ≠ []
  once : p.targets.length ≤ 1
  target : ∀ n ∈ r.neighbours, p.targets = [some (.stored n.attributeName)]
  /-- The leaves of the filter compare the attributes that the fields of the conditions hold. -/
  conditions : p.conditionSources = (Filter.leaves? r.filter).map Leaf.source

/-! ## Single steps -/

namespace Draft

variable {d : Draft} {p : Plan} {input : Schema}

/-- The attribute that a search is for. -/
def searched (search : Option Search) : List (Option Source) :=
  (search.map fun s => some (.stored s.attributeName)).toList

theorem stored?_eq_some {i : Nat} {name : String} :
    d.stored? i = some name ↔ d.sources[i]? = some (.stored name) := by
  rw [stored?, Option.bind_eq_some_iff]
  constructor
  · rintro ⟨source, hsource, hname⟩
    cases source with
    | stored stored => rw [hsource, ← Option.some.inj hname]
    | distance => cases hname
  · exact fun h => ⟨_, h, rfl⟩

theorem exists_literal_of_components {cause : MalformedDistance} {e : RowExpr} {c : Components}
    (h : literalComponents cause e = .ok c) : ∃ v, e.literal? = some v := by
  unfold literalComponents at h
  split at h
  · exact ⟨_, ‹_›⟩
  · cases h

theorem exists_literal_of_metric {e : RowExpr} {m : Metric} (h : literalMetric e = .ok m) :
    ∃ v, e.literal? = some v := by
  unfold literalMetric at h
  split at h
  · exact ⟨_, ‹_›⟩
  · cases h

/-- A search is for the stored attribute behind its target, and its other operands are literals. -/
theorem searchOf_eq_ok {target query metric : RowExpr} {weights : Option RowExpr} {s : Search}
    (h : d.searchOf target query metric weights = .ok s) :
    (∃ i t, target = .field i t ∧ d.stored? i = some s.attributeName) ∧
      ∀ e ∈ query :: metric :: weights.toList, ∃ v, e.literal? = some v := by
  unfold searchOf at h
  split at h
  · cases h
  · rename_i name hname
    obtain ⟨i, hi, hname⟩ := Option.bind_eq_some_iff.1 hname
    simp only [bind_eq_ok, pure_eq_ok] at h
    obtain ⟨_, hmetric, _, hquery, ws, hweights, rfl⟩ := h
    refine ⟨?_, ?_⟩
    · cases target with
      | field j t =>
        obtain rfl : j = i := Option.some.inj hi
        exact ⟨j, t, rfl, hname⟩
      | _ => simp [RowExpr.field?] at hi
    · rw [List.forall_mem_cons, List.forall_mem_cons]
      refine ⟨exists_literal_of_components hquery, exists_literal_of_metric hmetric, ?_⟩
      intro e he
      obtain rfl : weights = some e := by simpa using he
      cases hcomponents : literalComponents .weights e with
      | error err => simp [hcomponents] at hweights
      | ok c => exact exists_literal_of_components hcomponents

theorem allDistances_of_literals {es : List RowExpr}
    (h : ∀ e ∈ es, ∃ v, e.literal? = some v) : RowExpr.allDistances es = [] := by
  induction es with
  | nil => simp [RowExpr.allDistances]
  | cons e rest ih =>
    rw [List.forall_mem_cons] at h
    obtain ⟨⟨v, hv⟩, hrest⟩ := h
    rw [RowExpr.allDistances, (RowExpr.fields_of_literal? hv).2, ih hrest, List.nil_append]

/-- An accepted distance call is over a stored attribute, and no other call is within it. -/
theorem search?_eq_ok {operands : List RowExpr} {s : Search} (h : d.search? operands = .ok s) :
    (∃ i t rest, operands = .field i t :: rest ∧ d.stored? i = some s.attributeName) ∧
      RowExpr.allDistances operands = [] := by
  unfold search? at h
  split at h
  case h_3 => cases h
  all_goals
    obtain ⟨⟨i, t, rfl, hi⟩, hliterals⟩ := searchOf_eq_ok h
    refine ⟨⟨i, t, _, rfl, hi⟩, ?_⟩
    rw [RowExpr.allDistances, RowExpr.distances, List.nil_append]
    exact allDistances_of_literals (by simpa using hliterals)

theorem target?_of_search? (hsources : ∀ i, d.sources[i]? = p.source? i) {operands : List RowExpr}
    {s : Search} (h : d.search? operands = .ok s) :
    p.target? operands = some (.stored s.attributeName) := by
  obtain ⟨⟨i, t, rest, rfl, hi⟩, -⟩ := search?_eq_ok h
  rw [stored?_eq_some, hsources] at hi
  exact hi

/-- A projection adds its distance calls to the search, which has room for one. -/
theorem searched_projectFields (hsources : ∀ i, d.sources[i]? = p.source? i)
    {exprs : List (String × RowExpr)} {search search' : Option Search} {sources : List Source}
    (h : d.projectFields input search exprs = .ok (sources, search')) :
    searched search' =
      searched search ++ (exprs.flatMap fun item => item.2.distances).map p.target? := by
  induction exprs generalizing search sources with
  | nil =>
    obtain ⟨-, rfl⟩ : [] = sources ∧ search = search' := by simpa [projectFields] using h
    simp
  | cons item rest ih =>
    obtain ⟨name, e⟩ := item
    obtain ⟨source, middle, hfield, others, hrest, rfl⟩ := projectFields_cons_eq_ok.1 h
    rw [ih hrest, List.flatMap_cons, List.map_append, ← List.append_assoc]
    congr 1
    cases projects_of_projectField hfield with
    | field _ => simp [RowExpr.distances]
    | distance hs =>
      rw [RowExpr.distances, (search?_eq_ok hs).2]
      simp [searched, target?_of_search? hsources hs]

end Draft

open Draft

/-- The attributes of a condition's leaves are what its fields hold. -/
theorem sources_of_condition {d : Draft} {p : Plan} (hsources : ∀ i, d.sources[i]? = p.source? i)
    {input : Schema} {condition : RowExpr} {predicate : Predicate} {added : Filter}
    (hstored : ∀ i ∈ condition.fields, (d.stored? i).isSome)
    (hpredicate : Predicate.ofCondition (d.storedSchema input) condition = .ok predicate)
    (hadded : Filter.ofPredicate predicate = .ok added) :
    condition.fields.map p.source? = added.leaves.map Leaf.source := by
  have hover := (Predicate.isOver_ofCondition hpredicate).1
  have himage := leaves_of_slots (Filter.slots_ofPredicate hadded)
  rw [Filter.leaves_slots] at himage
  have hfields : condition.fields.map p.source? =
      predicate.atoms.map fun a => some (.stored a.attributeName) := by
    refine map_eq_map_of_forall₂ hover fun i hi a ⟨c, hc, hname, _⟩ => ?_
    obtain ⟨name, hi⟩ := Option.isSome_iff_exists.1 (hstored i hi)
    rw [hname, Draft.name_of_storedSchema hc hi, ← hsources, stored?_eq_some.1 hi]
  rw [hfields]
  exact map_eq_map_of_forall₂ himage fun a _ l hl => by rw [Leaf.source, hl.attributeName]

theorem Filter.leaves?_narrow (d : Draft) (added : Filter) :
    leaves? (d.narrow added).filter = leaves? d.filter ++ added.leaves := by
  cases hfilter : d.filter with
  | none => simp [Draft.narrow, leaves?, hfilter]
  | some f => simp [Draft.narrow, leaves?, hfilter, leaves_join]

/-! ## Chains -/

namespace Drafted

variable {p : Plan} {d : Draft}

theorem table?_eq (h : Drafted p d) : p.table? = some d.entity := by
  induction h with
  | scan => rfl
  | filter _ _ _ _ _ ih | project _ _ _ ih | sort _ ih => exact ih

/-- A draft says of each field what it holds in the plan. -/
theorem sources_eq (h : Drafted p d) (i : Nat) : d.sources[i]? = p.source? i := by
  induction h generalizing i with
  | scan table schema convention =>
    simp [Plan.source?, Schema.names, Schema.column?, Function.comp_def]
  | filter _ _ _ _ _ ih | sort _ ih => exact ih i
  | @project input d exprs schema convention sources search _ _ hfields ih =>
    have hprojected := forall₂_projectFields hfields
    rw [Plan.source?]
    cases hsource : sources[i]? with
    | none =>
      have hnone : exprs[i]? = none := by
        rw [List.getElem?_eq_none_iff] at hsource ⊢
        rwa [hprojected.length_eq]
      rw [hnone]
    | some source =>
      obtain ⟨⟨name, e⟩, hitem, hholds⟩ := exists_getElem?_of_forall₂ hprojected hsource
      rw [hitem]
      rcases hholds with ⟨j, t, rfl, hj⟩ | ⟨hranks, rfl⟩
      · exact hj.symm.trans (ih j)
      · cases e with
        | call op operands t =>
          obtain rfl : op = .distance := by simpa [ranks, RowExpr.op?] using hranks
          rfl
        | _ => simp [ranks, RowExpr.op?] at hranks

theorem map_sources (h : Drafted p d) : p.sources = d.sources.map some := by
  refine List.ext_getElem? fun i => ?_
  have hwidth : d.sources.length = p.schema.width := h.covers
  rw [Plan.sources, List.getElem?_map, List.getElem?_map, ← hwidth]
  by_cases hi : i < d.sources.length
  · simp [hi, ← h.sources_eq]
  · simp [hi]

theorem projection_eq (h : Drafted p d) :
    d.projection = if p.projects then d.sources.filterMap Source.stored? else [] := by
  induction h with
  | scan => rfl
  | filter _ _ _ _ _ ih | sort _ ih => exact ih
  | project => rfl

theorem targets_eq (h : Drafted p d) : p.targets = searched d.search := by
  induction h with
  | scan => rfl
  | filter _ _ _ hpredicate _ ih =>
    rw [Plan.targets, (Predicate.isOver_ofCondition hpredicate).2, List.map_nil, List.append_nil]
    exact ih
  | project hinput _ hfields ih =>
    rw [Plan.targets, ih, searched_projectFields hinput.sources_eq hfields]
  | sort _ ih => exact ih

theorem conditionSources_eq (h : Drafted p d) :
    p.conditionSources = (Filter.leaves? d.filter).map Leaf.source := by
  induction h with
  | scan => rfl
  | filter hinput _ hstored hpredicate hadded ih =>
    rw [Plan.conditionSources, ih, Filter.leaves?_narrow, List.map_append,
      sources_of_condition hinput.sources_eq hstored hpredicate hadded]
  | project _ _ _ ih | sort _ ih => exact ih

end Drafted

/-- A request names what the plan does: its entity is the table, it picks the stored attributes
that the rows of the plan hold, it searches what the one distance call is over, and its filter
compares what the conditions refer to. -/
theorem tracesTo_of_request {settings : Settings} {p : Plan} {r : Request} (hp : p.Obtained)
    (h : request settings p = .ok r) : r.TracesTo p := by
  obtain ⟨d, hd, rfl⟩ := request_eq_ok hp.built h
  have htargets := hd.targets_eq
  refine
    { entity := hd.table?_eq
      projection := ⟨d.sources, hd.map_sources, hd.projection_eq⟩
      searched := ?_
      once := ?_
      target := ?_
      conditions := hd.conditionSources_eq }
  all_goals
    rw [htargets]
    cases hsearch : d.search <;> simp [Draft.finish, searched, Search.finish, hsearch]

theorem nearestCats_tracesTo :
    ∃ r, request {} nearestCats = .ok r ∧ r.TracesTo nearestCats ∧
      nearestCats.sources = [some (.stored "label"), some .distance] ∧ r.projection = ["label"] :=
  ⟨_, rfl, tracesTo_of_request obtained_nearestCats rfl, rfl, rfl⟩

end VectorStore

end StorePlan
