import StorePlan.Proofs.VectorStore.Provenance

/-
The attributes that a request returns. A list of attributes that is empty
stands for all of them, so a request can return every attribute or some, but
never none.

What a draft projects is what its fields hold (`Drafted.projection_eq`), and a
chain without a projection has the fields of its scan
(`Drafted.sources_of_not_projects`). That leaves one case in which the request
returns what no field holds: a projection that keeps no stored field.
-/

namespace StorePlan

open VectorStore (Source)

/-- The stored attributes behind the fields of a plan's rows, in order. -/
def Plan.storedAttributes (p : Plan) : List String :=
  p.sources.filterMap (·.bind Source.stored?)

namespace VectorStore

/-- What a request returns of an entity that has these attributes. -/
def Request.returned (r : Request) (attributes : List String) : List String :=
  if r.projection.isEmpty then attributes else r.projection

namespace Drafted

variable {p : Plan} {d : Draft}

theorem storedAttributes_eq (h : Drafted p d) :
    p.storedAttributes = d.sources.filterMap Source.stored? := by
  rw [Plan.storedAttributes, h.map_sources, List.filterMap_map]
  rfl

/-- Filters and sorts keep the fields of the scan. -/
theorem sources_of_not_projects (h : Drafted p d) (hp : p.projects = false) :
    d.sources = p.storedNames.map .stored := by
  induction h with
  | scan => rfl
  | filter _ _ _ _ _ ih | sort _ ih => exact ih hp
  | project => cases hp

theorem storedAttributes_of_not_projects (h : Drafted p d) (hp : p.projects = false) :
    p.storedAttributes = p.storedNames := by
  rw [h.storedAttributes_eq, h.sources_of_not_projects hp, List.filterMap_map]
  exact List.filterMap_some

/-- Without a stored field in the rows the request returns all attributes, else just those behind
the fields. -/
theorem returned_finish (h : Drafted p d) (cap : UInt32) :
    (d.finish cap).returned p.storedNames =
      if p.storedAttributes = [] then p.storedNames else p.storedAttributes := by
  have hprojection : (d.finish cap).projection = if p.projects then p.storedAttributes else [] := by
    rw [h.storedAttributes_eq]
    exact h.projection_eq
  rw [Request.returned, hprojection]
  cases hp : p.projects with
  | true => simp [List.isEmpty_iff]
  | false => simp [h.storedAttributes_of_not_projects hp]

end Drafted

/-- A request returns the stored attributes behind the fields of the plan's rows, in their order,
exactly if there is one, or none to return; and where it does not, it also returns an attribute
that is behind no field. -/
theorem returned_eq_storedAttributes_iff {settings : Settings} {p : Plan} {r : Request}
    (hp : p.Obtained) (h : request settings p = .ok r) :
    (r.returned p.storedNames = p.storedAttributes ↔
      (p.storedAttributes = [] → p.storedNames = [])) ∧
    ((∀ name ∈ r.returned p.storedNames, name ∈ p.storedAttributes) ↔
      (p.storedAttributes = [] → p.storedNames = [])) := by
  obtain ⟨d, hd, rfl⟩ := request_eq_ok hp.built h
  rw [hd.returned_finish]
  by_cases hnone : p.storedAttributes = []
  · rw [if_pos hnone, hnone]
    refine ⟨by simp, ?_⟩
    simp [List.eq_nil_iff_forall_not_mem]
  · simp [hnone]

/-! ## Labels and distances of photos -/

/-- The distance of a photo from a vector. -/
def far : String × RowExpr :=
  ("far", .apply .distance
    [.field 2 (.array (.float .bits64)), .ofValue (.array []), .ofValue (.string "L2")])

/-- The labels of photos under two names, behind the distance. -/
def labelsTwice : Plan :=
  ⟨.project [far, ("a", .field 1 (.string none)), ("b", .field 1 (.string none))], [photos],
    ⟨[⟨"far", .float .bits64, true⟩, ⟨"a", .string none, true⟩, ⟨"b", .string none, true⟩]⟩,
    .vector⟩

theorem returned_labelsTwice :
    ∃ r, labelsTwice.Obtained ∧ request {} labelsTwice = .ok r ∧
      labelsTwice.storedAttributes = ["label", "label"] ∧
        r.returned labelsTwice.storedNames = labelsTwice.storedAttributes := by
  have hscan : Plan.scan "photos" photos.schema .vector = .ok photos := rfl
  have hlabels : Plan.project photos
      [far, ("a", .field 1 (.string none)), ("b", .field 1 (.string none))] = .ok labelsTwice := rfl
  have hobtained : labelsTwice.Obtained := .project (.scan hscan) hlabels
  have hstored : labelsTwice.storedAttributes = ["label", "label"] := rfl
  refine ⟨_, hobtained, rfl, hstored, (returned_eq_storedAttributes_iff hobtained rfl).1.2 ?_⟩
  rw [hstored]
  exact nofun

/-- The distances alone. -/
def distances : Plan := ⟨.project [far], [photos], ⟨[⟨"far", .float .bits64, true⟩]⟩, .vector⟩

/-- The request for distances alone returns every attribute of the photos. -/
theorem returned_distances :
    ∃ r, distances.Obtained ∧ request {} distances = .ok r ∧ distances.storedAttributes = [] ∧
      r.returned distances.storedNames = ["id", "label", "vec"] ∧
        ¬∀ name ∈ r.returned distances.storedNames, name ∈ distances.storedAttributes := by
  have hscan : Plan.scan "photos" photos.schema .vector = .ok photos := rfl
  have hdistances : Plan.project photos [far] = .ok distances := rfl
  have hstored : distances.storedAttributes = [] := rfl
  refine ⟨_, .project (.scan hscan) hdistances, rfl, hstored, rfl, fun hreturned => ?_⟩
  have hid : "id" ∈ distances.storedAttributes := hreturned "id" (List.mem_cons_self ..)
  rw [hstored] at hid
  cases hid

end VectorStore

end StorePlan
