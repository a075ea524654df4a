import StorePlan.Proofs.VectorStore.Paging
import StorePlan.Proofs.VectorStore.Provenance

/-
How many neighbours a request asks for. Numbers of rows have 64 bits and
numbers of neighbours 32, and the offset and the fetch that are added up may
come from different sorts; still the count is the one that unbounded numbers
give (`Draft.toNat_count_boundSearch`), since no bound is set before the chain
has ended (`Drafted.bound_eq_none`).
-/

namespace StorePlan

variable {α : Type}

/-- Rows behind the end of a window do not matter. -/
theorem window_take {skip keep n : Nat} (h : skip + keep ≤ n) (rows : List α) :
    window skip (some keep) (rows.take n) = window skip (some keep) rows := by
  rw [window, window, List.drop_take, List.take_take, min_eq_left (by omega)]

namespace VectorStore

/-- Where the window of a request ends in its answer, unless all rows from the offset on are
wanted. -/
def Request.windowEnd? (r : Request) : Option Nat :=
  r.limit.map fun limit => limit.toNat + (r.skip.getD 0).toNat

/-- As many rows as the window reaches over hold the whole window. -/
theorem Request.page_take {r : Request} {stop n : Nat} (hstop : r.windowEnd? = some stop)
    (h : stop ≤ n) (rows : List α) : r.page (rows.take n) = r.page rows := by
  obtain ⟨limit, hlimit, rfl⟩ := Option.map_eq_some_iff.1 hstop
  have hskip : (r.skip.map UInt64.toNat).getD 0 = (r.skip.getD 0).toNat := by
    cases r.skip <;> rfl
  simp only [page, Bounds.page, Bounds.skip, Bounds.keep, hlimit, Option.map_some, hskip]
  exact window_take (by omega) rows

/-! ## Arithmetic in 64 and in 32 bits -/

namespace Draft

/-- Adding never wraps around. -/
theorem toNat_addRows (a b : UInt64) :
    (addRows a b).toNat = min (a.toNat + b.toNat) 0xFFFFFFFFFFFFFFFF := by
  have ha := a.toNat_lt
  have hb := b.toNat_lt
  have hsum := UInt64.toNat_add a b
  unfold addRows
  split_ifs with hwrap
  · rw [UInt64.lt_iff_toNat_lt] at hwrap
    rw [min_eq_right (by omega)]
    rfl
  · rw [UInt64.lt_iff_toNat_lt] at hwrap
    omega

/-- A number of rows is narrowed without loss, or is larger than any number of neighbours. -/
theorem neighbours?_cases (rows : UInt64) :
    (∃ n, neighbours? rows = some n ∧ n.toNat = rows.toNat) ∨
      neighbours? rows = none ∧ 0xFFFFFFFF < rows.toNat := by
  have hmax : (0xFFFFFFFF : UInt64).toNat = 0xFFFFFFFF := rfl
  unfold neighbours?
  split_ifs with hsmall
  · rw [UInt64.le_iff_toNat_le, hmax] at hsmall
    refine .inl ⟨_, rfl, ?_⟩
    rw [UInt64.toNat_toUInt32]
    omega
  · rw [UInt64.le_iff_toNat_le, hmax] at hsmall
    exact .inr ⟨rfl, by omega⟩

/-- The count of a search that comes with no bound of its own is what unbounded numbers give. -/
theorem toNat_count_boundSearch (d : Draft) (cap : UInt32) {s : Search} (hs : s.bound = none) :
    ((d.boundSearch cap s).finish cap).count.toNat =
      match d.limit with
      | some limit => min (limit.toNat + (d.skip.getD 0).toNat) cap.toNat
      | none => cap.toNat := by
  have hcap := cap.toNat_lt
  unfold boundSearch
  cases d.limit with
  | none => simp [Search.finish, hs]
  | some limit =>
    have hsum := toNat_addRows limit (d.skip.getD 0)
    obtain ⟨wanted, hwanted, heq⟩ | ⟨hnone, hlarge⟩ :=
      neighbours?_cases (addRows limit (d.skip.getD 0))
    · simp only [hwanted, Search.within, Search.finish, Option.getD_some, UInt32.toNat_min]
      omega
    · simp only [hnone, Search.within, Search.finish, Option.getD_some]
      omega

/-! ## Bounds along a chain -/

variable {d : Draft} {input : Schema}

/-- A distance call sets no bound. -/
theorem bound_of_search? {operands : List RowExpr} {s : Search} (h : d.search? operands = .ok s) :
    s.bound = none := by
  unfold search? at h
  split at h
  case h_3 => cases h
  all_goals
    unfold searchOf at h
    split at h
    · cases h
    · simp only [bind_eq_ok, pure_eq_ok] at h
      obtain ⟨_, -, _, -, _, -, rfl⟩ := h
      rfl

theorem bound_of_projectFields {exprs : List (String × RowExpr)} {search search' : Option Search}
    {sources : List Source} (h : d.projectFields input search exprs = .ok (sources, search'))
    (hsearch : ∀ s ∈ search, s.bound = none) : ∀ s ∈ search', s.bound = none := by
  induction exprs generalizing search sources with
  | nil =>
    obtain ⟨-, rfl⟩ : [] = sources ∧ search = search' := by simpa [projectFields] using h
    exact hsearch
  | cons item rest ih =>
    obtain ⟨name, e⟩ := item
    obtain ⟨source, middle, hfield, others, hrest, rfl⟩ := projectFields_cons_eq_ok.1 h
    refine ih hrest ?_
    cases projects_of_projectField hfield with
    | field _ => exact hsearch
    | distance hs =>
      rintro _ ⟨⟩
      exact bound_of_search? hs

end Draft

open Draft

/-- No operator of a chain bounds the search. -/
theorem Drafted.bound_eq_none {p : Plan} {d : Draft} (h : Drafted p d) :
    ∀ s ∈ d.search, s.bound = none := by
  induction h with
  | scan => nofun
  | filter _ _ _ _ _ ih | sort _ ih => exact ih
  | project _ _ hfields ih => exact bound_of_projectFields hfields ih

/-- A plan with a distance call asks for as many neighbours as its window reaches over, and for at
most as many as are allowed; for all that are allowed if the window has no end. If they are enough,
the window over them is the window over all rows. -/
theorem exists_count_of_request {settings : Settings} {p : Plan} {r : Request} (hp : p.Obtained)
    (h : request settings p = .ok r) (hcall : p.targets ≠ []) :
    ∃ n, r.neighbours = some n ∧
      (n.count.toNat =
        match r.windowEnd? with
        | some stop => min stop settings.knnLimit.toNat
        | none => settings.knnLimit.toNat) ∧
      n.count ≤ settings.knnLimit ∧
      ∀ stop, r.windowEnd? = some stop → stop ≤ settings.knnLimit.toNat →
        ∀ rows : List (List Value), r.page (rows.take n.count.toNat) = r.page rows := by
  obtain ⟨d, hd, rfl⟩ := request_eq_ok hp.built h
  obtain ⟨s, hs⟩ : ∃ s, d.search = some s := by
    rw [hd.targets_eq] at hcall
    cases hsearch : d.search with
    | none => simp [hsearch, searched] at hcall
    | some s => exact ⟨s, rfl⟩
  have hcount := d.toNat_count_boundSearch settings.knnLimit (hd.bound_eq_none s hs)
  have hstop : (d.finish settings.knnLimit).windowEnd? =
      d.limit.map fun limit => limit.toNat + (d.skip.getD 0).toNat := rfl
  refine ⟨_, by rw [finish, hs]; rfl, ?_, ?_, ?_⟩
  · rw [hcount, hstop]
    cases d.limit <;> rfl
  · rw [UInt32.le_iff_toNat_le, hcount]
    split
    · exact min_le_right _ _
    · exact le_rfl
  · intro stop hwindow hle rows
    refine Request.page_take hwindow ?_ rows
    obtain ⟨limit, hlimit, rfl⟩ := Option.map_eq_some_iff.1 (hstop ▸ hwindow)
    rw [hcount, hlimit]
    exact le_min le_rfl hle

/-- The nearest cats past so many that the end of the window has no 64 bits. -/
def remoteCats : Plan := paged (some 0xFFFFFFFFFFFFFFFF) none nearestCats

/-- As many neighbours as are allowed are asked for, not the two that the sum wraps around to. -/
theorem exists_count_of_request_remoteCats :
    ∃ r n, request {} remoteCats = .ok r ∧ remoteCats.targets = [some (.stored "vec")] ∧
      r.windowEnd? = some 18446744073709551618 ∧ r.neighbours = some n ∧
      n.count.toNat = 1000000 := by
  have hobtained : remoteCats.Obtained := obtained_paged _ none obtained_nearestCats
  have hcall : remoteCats.targets ≠ [] := List.cons_ne_nil _ _
  obtain ⟨n, hn, hcount, -, -⟩ := exists_count_of_request hobtained rfl hcall
  exact ⟨_, n, rfl, rfl, rfl, hn, hcount⟩

end VectorStore

end StorePlan
