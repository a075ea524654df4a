import StorePlan.Proofs.Plan.Rows
import StorePlan.Proofs.VectorStore.Draft
import StorePlan.Proofs.VectorStore.FilterMeaning

/-
Pushing filters down to the scan. The rows of a chain are those of the chain
without its filters over the rows of the scan that the emitted filter keeps.

Three facts make it so, each by induction on the chain: a stored field of a
row holds the attribute of that name of the row's origin (`Drafted.reads`), a
filter sees only rows that have not been cut off and thus changes places with
all that lies below it (`Drafted.filter_rows`), and the filters of a chain are
joined in the order of their literals.
-/

namespace StorePlan

/-- The names of the columns of a chain's scan. -/
def Plan.storedNames : Plan → List String
  | ⟨.scan _ schema, _, _, _⟩ => schema.names
  | ⟨_, [input], _, _⟩ => input.storedNames
  | _ => []
termination_by structural p => p

/-- The literals of the filters of a chain, from the scan up. -/
def Plan.conditionLiterals : Plan → List Value
  | ⟨.filter condition, [input], _, _⟩ => input.conditionLiterals ++ condition.literals
  | ⟨_, [input], _, _⟩ => input.conditionLiterals
  | _ => []
termination_by structural p => p

/-- What a row holds under a name. -/
def assignment (names : List String) (row : List Value) (name : String) : Value :=
  row[names.idxOf name]?.getD .null

namespace VectorStore

/-- The data of a filter that may be missing. -/
def Filter.data? (f : Option Filter) : List Datum := (f.map Filter.data).getD []

/-- Whether a filter that may be missing keeps a row. -/
def Filter.keeps (I : Interpretation) (f : Option Filter) (literals : List Value)
    (env : String → Value) : Bool :=
  match f with
  | some f => f.truth I env literals = .holds
  | none => true

/-- A filter in addition to those there are. -/
theorem Filter.keeps_narrow {I : Interpretation} {d : Draft} {added : Filter}
    {env : String → Value} {vs ws : List Value} (h : List.Forall₂ Datum.MadeOf vs (data? d.filter)) :
    keeps I (d.narrow added).filter (vs ++ ws) env =
      (keeps I d.filter vs env && decide (added.truth I env ws = .holds)) := by
  have hlength := h.length_eq
  cases hfilter : d.filter with
  | none =>
    rw [hfilter] at hlength
    obtain rfl : vs = [] := List.length_eq_zero_iff.1 hlength
    simp [Draft.narrow, keeps, hfilter]
  | some f =>
    rw [hfilter] at hlength
    simp [Draft.narrow, keeps, hfilter, truth_join .and f added hlength, Connective.truth,
      Truth.and_eq_holds_iff]

theorem Filter.madeOf_narrow {d : Draft} {added : Filter} {vs ws : List Value}
    (h : List.Forall₂ Datum.MadeOf vs (data? d.filter))
    (hadded : List.Forall₂ Datum.MadeOf ws added.data) :
    List.Forall₂ Datum.MadeOf (vs ++ ws) (data? (d.narrow added).filter) := by
  cases hfilter : d.filter with
  | none =>
    rw [hfilter] at h
    obtain rfl : vs = [] := List.forall₂_nil_right_iff.1 h
    simpa [Draft.narrow, data?, hfilter] using hadded
  | some f =>
    rw [hfilter] at h
    simpa [Draft.narrow, data?, hfilter, data_join] using List.rel_append h hadded

open Draft

/-- A stored column is called by the name of its attribute in the row type that conditions are
lowered over. -/
theorem Draft.name_of_storedSchema {d : Draft} {input : Schema} {i : Nat} {c : Column}
    {name : String} (hc : (d.storedSchema input).column? i = some c)
    (hname : d.stored? i = some name) : c.name = name := by
  obtain ⟨source, hsource, hstored⟩ := Option.bind_eq_some_iff.1 hname
  rw [Schema.column?, storedSchema, List.getElem?_map, Option.map_eq_some_iff] at hc
  obtain ⟨⟨column, source'⟩, hzip, rfl⟩ := hc
  obtain ⟨-, hsource'⟩ := List.getElem?_zip_eq_some.1 hzip
  obtain rfl : source = source' := Option.some.inj (hsource.symm.trans hsource')
  cases source with
  | stored stored => exact Option.some.inj hstored
  | distance => cases hstored

namespace Drafted

variable {p : Plan} {d : Draft} {I : Interpretation} {R : Ranking}

/-- Filtering the rows of a chain that cuts none off is filtering the rows of its scan. -/
theorem filter_rows (h : Drafted p d) (hpaged : d.isPaged = false) (keep : List Value → Bool)
    (contents : List (List Value)) :
    (p.withoutFilters.rows I R contents).filter keep =
      p.withoutFilters.rows I R (contents.filter fun row => keep (p.image I row)) := by
  induction h generalizing keep with
  | scan => rfl
  | filter _ _ _ _ _ ih => exact ih hpaged keep
  | project _ _ _ ih =>
    simp only [Plan.withoutFilters, Plan.rows, Plan.image, List.filter_map]
    rw [ih hpaged]
    rfl
  | @sort input d keys offset fetch convention _ ih =>
    obtain ⟨⟨rfl, hlimit⟩, rfl, hskip⟩ :
        (fetch = none ∧ d.limit = none) ∧ offset = none ∧ d.skip = none := by
      simpa [Draft.isPaged] using hpaged
    have hbelow : d.isPaged = false := by simp [Draft.isPaged, hlimit, hskip]
    simp only [Plan.withoutFilters, Plan.rows, Plan.image, Ranking.sort, Bounds.page_none]
    rw [filter_mergeSort, ih hbelow]

/-- A stored field of a row that a chain makes holds what the row of the scan holds under the
attribute's name. -/
theorem image_stored? (h : Drafted p d) (hnames : p.storedNames.Nodup) (row : List Value) {i : Nat}
    {name : String} (hi : d.stored? i = some name) :
    (p.image I row)[i]?.getD .null = assignment p.storedNames row name := by
  induction h generalizing i with
  | scan table schema convention =>
    obtain ⟨source, hsource, hname⟩ := Option.bind_eq_some_iff.1 hi
    rw [List.getElem?_map, Option.map_eq_some_iff] at hsource
    obtain ⟨stored, hstored, rfl⟩ := hsource
    obtain rfl : stored = name := Option.some.inj hname
    obtain ⟨hlt, rfl⟩ := List.getElem?_eq_some_iff.1 hstored
    simp only [Plan.storedNames, Plan.image, assignment] at hnames ⊢
    rw [hnames.idxOf_getElem i hlt]
  | filter _ _ _ _ _ ih => exact ih hnames hi
  | @project input d exprs schema convention sources search _ _ hfields ih =>
    obtain ⟨source, hsource, hname⟩ := Option.bind_eq_some_iff.1 hi
    obtain ⟨item, hitem, hholds⟩ := exists_getElem?_of_forall₂ (forall₂_projectFields hfields) hsource
    rcases hholds with ⟨j, t, hfield, hj⟩ | ⟨-, rfl⟩
    · have hbelow : d.stored? j = some name := by rw [stored?, hj]; exact hname
      simp only [Plan.image, List.getElem?_map, hitem, Option.map_some, Option.getD_some, hfield,
        RowExpr.value]
      exact ih hnames hbelow
    · cases hname
  | sort _ ih => exact ih hnames hi

/-- A condition over stored fields reads from the rows that a chain makes what they have from the
scan. -/
theorem reads (h : Drafted p d) (hnames : p.storedNames.Nodup) (row : List Value)
    {fields : List Nat} (hstored : ∀ i ∈ fields, (d.stored? i).isSome) :
    (d.storedSchema p.schema).Reads (assignment p.storedNames row) (p.image I row) fields := by
  intro i hi c hc
  obtain ⟨name, hname⟩ := Option.isSome_iff_exists.1 (hstored i hi)
  rw [h.image_stored? hnames row hname, Draft.name_of_storedSchema hc hname]

theorem madeOf (h : Drafted p d) :
    List.Forall₂ Datum.MadeOf p.conditionLiterals (Filter.data? d.filter) := by
  induction h with
  | scan => exact .nil
  | filter _ _ _ hpredicate hadded ih =>
    have hmade := Filter.madeOf_ofPredicate hadded
    rw [(Predicate.fills_ofCondition hpredicate).values_eq] at hmade
    exact Filter.madeOf_narrow ih hmade
  | project _ _ _ ih => exact ih
  | sort _ ih => exact ih

/-- The chain yields what it does without its filters over the rows that the drafted filter
keeps. -/
theorem rows_eq (h : Drafted p d) (hnames : p.storedNames.Nodup) (contents : List (List Value)) :
    p.rows I R contents = p.withoutFilters.rows I R (contents.filter fun row =>
      Filter.keeps I d.filter p.conditionLiterals (assignment p.storedNames row)) := by
  induction h with
  | scan => simp [Plan.rows, Plan.withoutFilters, Filter.keeps]
  | @filter input d condition convention predicate added h hpaged hstored hpredicate hadded ih =>
    have htruth (row : List Value) :
        added.truth I (assignment input.storedNames row) condition.literals =
          condition.truth I (input.image I row) := by
      rw [← (Predicate.fills_ofCondition hpredicate).values_eq,
        Filter.truth_ofPredicate I _ hadded]
      exact Predicate.truth_of_reads I (h.reads hnames row hstored) hpredicate
    simp only [Plan.rows, Plan.withoutFilters, Plan.conditionLiterals, Plan.storedNames]
    -- The condition is asked of rows that the chain below makes; it goes down to their origins.
    rw [ih hnames, h.filter_rows hpaged, List.filter_filter]
    congr 2
    funext row
    rw [Filter.keeps_narrow h.madeOf, htruth, Bool.and_comm]
  | project _ _ _ ih | sort _ ih =>
    simp only [Plan.rows, Plan.withoutFilters, Plan.conditionLiterals, Plan.storedNames, ih hnames]

end Drafted

/-- Pushing filters down to the scan does not change the rows of a plan nor their order: the plan
yields what it does without its filters over those rows of the scan of which the emitted filter is
true. The data of that filter are made of the literals of the plan's conditions. -/
theorem rows_eq_withoutFilters {settings : Settings} {p : Plan} {r : Request} (hp : p.Obtained)
    (h : request settings p = .ok r) (hnames : p.storedNames.Nodup) :
    List.Forall₂ Datum.MadeOf p.conditionLiterals (Filter.data? r.filter) ∧
      ∀ (I : Interpretation) (R : Ranking) (contents : List (List Value)),
        p.rows I R contents = p.withoutFilters.rows I R (contents.filter fun row =>
          Filter.keeps I r.filter p.conditionLiterals (assignment p.storedNames row)) := by
  obtain ⟨d, hd, rfl⟩ := request_eq_ok hp.built h
  exact ⟨hd.madeOf, fun _ _ contents => hd.rows_eq hnames contents⟩

/-! ## Filters above and below a projection -/

/-- Stored photos. -/
def photos : Plan :=
  let schema : Schema :=
    ⟨[⟨"id", .integer .bits64, false⟩, ⟨"label", .string none, true⟩,
      ⟨"vec", .array (.float .bits64), false⟩]⟩
  ⟨.scan "photos" schema, [], schema, .vector⟩

def isRecent : RowExpr := .apply .lessThan [.ofValue (.bigInt 5), .field 0 (.integer .bits64)]

/-- Photos past the fifth. -/
def recentPhotos : Plan := ⟨.filter isRecent, [photos], photos.schema, .vector⟩

/-- The label of a photo under another name, and its distance from a vector. -/
def titleAndDistance : List (String × RowExpr) :=
  [("title", .field 1 (.string none)),
    ("far", .apply .distance
      [.field 2 (.array (.float .bits64)), .ofValue (.array []), .ofValue (.string "L2")])]

def rankedPhotos : Plan :=
  ⟨.project titleAndDistance, [recentPhotos],
    ⟨[⟨"title", .string none, true⟩, ⟨"far", .float .bits64, true⟩]⟩, .vector⟩

def isCat : RowExpr := .apply .equals [.field 0 (.string none), .ofValue (.string "cat")]

def catPhotos : Plan := ⟨.filter isCat, [rankedPhotos], rankedPhotos.schema, .vector⟩

/-- The nearest three of the recent photos of a cat. -/
def nearestCats : Plan :=
  ⟨.sort [⟨1, false, .last⟩] none (some 3), [catPhotos], catPhotos.schema, .vector⟩

theorem obtained_nearestCats : nearestCats.Obtained := by
  have hscan : Plan.scan "photos" photos.schema .vector = .ok photos := rfl
  have hrecent : Plan.filter photos isRecent = .ok recentPhotos := rfl
  have hranked : Plan.project recentPhotos titleAndDistance = .ok rankedPhotos := rfl
  have hcats : Plan.filter rankedPhotos isCat = .ok catPhotos := rfl
  have hnearest : Plan.sort catPhotos [⟨1, false, .last⟩] none (some 3) = .ok nearestCats := rfl
  exact .sort (.filter (.project (.filter (.scan hscan) hrecent) hranked) hcats) hnearest

/-- All values are of one rank. -/
def unranked : Ranking where
  compare _ _ := .eq
  trans := { eq_swap := rfl, isLE_trans := fun _ _ => rfl }
  nullsFirst _ := false

/-- A recent photo of a cat. -/
def someCat : List (List Value) := [[.bigInt 7, .string "cat", .array []]]

theorem nearestCats_eq_withoutFilters :
    ∃ r, request {} nearestCats = .ok r ∧
      nearestCats.rows Predicate.plainly unranked someCat =
        nearestCats.withoutFilters.rows Predicate.plainly unranked (someCat.filter fun row =>
          Filter.keeps Predicate.plainly r.filter [.bigInt 5, .string "cat"]
            (assignment ["id", "label", "vec"] row)) := by
  have hnames : nearestCats.storedNames.Nodup := by decide
  exact ⟨_, rfl,
    (rows_eq_withoutFilters obtained_nearestCats rfl hnames).2 Predicate.plainly unranked someCat⟩

end VectorStore

end StorePlan
