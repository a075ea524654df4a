import StorePlan.Proofs.Plan.Paging
import StorePlan.Proofs.VectorStore.Draft

/-
Paging by a vector store. A request carries the bounds that were given last,
whatever the sorts of the chain are: it pages as they do, one after the other,
exactly if no earlier bound counts any more.
-/

namespace StorePlan.VectorStore

/-- The rows that a request pages out of its answer. -/
def Request.page (r : Request) (rows : List α) : List α := Bounds.page ⟨r.skip, r.limit⟩ rows

/-- Drafts keep the bounds that were given last. -/
theorem Drafted.bounds {p : Plan} {d : Draft} (h : Drafted p d) :
    d.skip = Bounds.lastOffset p.bounds ∧ d.limit = Bounds.lastFetch p.bounds := by
  induction h with
  | scan => exact ⟨rfl, rfl⟩
  | filter _ _ _ _ _ ih => exact ih
  | project _ _ _ ih => exact ih
  | @sort input d keys offset fetch convention _ ih =>
    simp [Plan.bounds, Bounds.lastOffset, Bounds.lastFetch, lastGiven_concat, ih]

/-- The window of a request is that of all pages of the plan, one out of the other, exactly if
every fetch leaves what the last one asks for and, unless no rows are wanted, no offset but the
last counts. -/
theorem page_eq_foldl_iff {settings : Settings} {p : Plan} {r : Request} (hp : p.Obtained)
    (h : request settings p = .ok r) :
    (∀ rows : List (List Value), r.page rows = p.bounds.foldl (fun rows b => b.page rows) rows) ↔
      Bounds.KeepsFetches p.bounds ∧ (r.limit = some 0 ∨ Bounds.KeepsOffsets p.bounds) := by
  obtain ⟨d, hd, rfl⟩ := request_eq_ok hp.built h
  obtain ⟨hskip, hlimit⟩ := hd.bounds
  simp only [Request.page, Draft.finish, hskip, hlimit]
  exact Bounds.page_last_eq_foldl_iff p.bounds

/-! ## Pages of images -/

/-- Stored images. -/
def images : Plan :=
  let schema : Schema := ⟨[⟨"id", .integer .bits64, false⟩]⟩
  ⟨.scan "images" schema, [], schema, .vector⟩

/-- A page of rows in the order in which they come. -/
def paged (offset fetch : Option UInt64) (input : Plan) : Plan :=
  ⟨.sort [] offset fetch, [input], input.schema, input.convention⟩

theorem obtained_images : images.Obtained := by
  have hscan : Plan.scan "images" images.schema .vector = .ok images := rfl
  exact .scan hscan

theorem obtained_paged {input : Plan} (offset fetch : Option UInt64) (h : input.Obtained) :
    (paged offset fetch input).Obtained := by
  have hsort : Plan.sort input [] offset fetch = .ok (paged offset fetch input) := by
    rw [Plan.sort, Plan.buildOver, Plan.build_eq_ok]
    exact ⟨rfl, by simp, _, rfl, rfl⟩
  exact .sort h hsort

/-- The first five of the ten images past the second. -/
def firstFive : Plan := paged none (some 5) (paged (some 2) (some 10) images)

theorem page_firstFive :
    ∃ r, request {} firstFive = .ok r ∧ ∀ rows : List (List Value),
      r.page rows = firstFive.bounds.foldl (fun rows b => b.page rows) rows := by
  have hobtained : firstFive.Obtained :=
    obtained_paged none (some 5) (obtained_paged (some 2) (some 10) obtained_images)
  have hkeeps : Bounds.KeepsFetches firstFive.bounds ∧ Bounds.KeepsOffsets firstFive.bounds := by
    simp [firstFive, paged, images, Plan.bounds, Bounds.KeepsFetches, Bounds.KeepsOffsets,
      Bounds.lastFetch, Bounds.lastOffset, Bounds.skipped, Bounds.skip, lastGiven]
  refine ⟨_, rfl, (page_eq_foldl_iff hobtained rfl).2 ⟨hkeeps.1, .inr hkeeps.2⟩⟩

/-- Three of five images: those past the first of the five past the second. -/
def innerThree : Plan := paged (some 1) (some 3) (paged (some 2) (some 5) images)

/-- Rows that hold these numbers. -/
def numberRows (ns : List Nat) : List (List Value) := ns.map fun n => [.bigInt (.ofNat n)]

/-- The request for the inner three of seven images skips one of them and not three. -/
theorem page_innerThree_ne :
    ∃ r, innerThree.Obtained ∧ request {} innerThree = .ok r ∧
      r.page (numberRows [0, 1, 2, 3, 4, 5, 6]) ≠
        innerThree.bounds.foldl (fun rows b => b.page rows) (numberRows [0, 1, 2, 3, 4, 5, 6]) := by
  have hobtained : innerThree.Obtained :=
    obtained_paged (some 1) (some 3) (obtained_paged (some 2) (some 5) obtained_images)
  let r : Request := ⟨"images", [], none, none, some 3, some 1⟩
  have hpage : r.page (numberRows [0, 1, 2, 3, 4, 5, 6]) = numberRows [1, 2, 3] := rfl
  have hpages : innerThree.bounds.foldl (fun rows b => b.page rows)
      (numberRows [0, 1, 2, 3, 4, 5, 6]) = numberRows [3, 4, 5] := rfl
  refine ⟨r, hobtained, rfl, ?_⟩
  rw [hpage, hpages]
  simp [numberRows]

end StorePlan.VectorStore
