import StorePlan.Plan.Basic

/-
Pages: what the offsets and the fetches of a chain of sorts leave of the rows
under it. Pages of pages are one window again (`foldl_page`): offsets add up,
and every fetch also counts the rows that are skipped after it.

`lastOffset_eq_skipped_iff` and `lastFetch_eq_kept_iff` say when it is enough
to keep the bounds that were given last.
-/

namespace StorePlan

/-- The rows past the first `skip`, at most `keep` of them. -/
def window (skip : Nat) (keep : Option Nat) (rows : List α) : List α :=
  match keep with
  | some n => (rows.drop skip).take n
  | none => rows.drop skip

/-- The bounds of one sort. -/
structure Bounds where
  offset : Option UInt64
  fetch : Option UInt64

namespace Bounds

/-- How many rows are skipped. -/
def skip (b : Bounds) : Nat := (b.offset.map UInt64.toNat).getD 0

/-- How many rows are kept at most. -/
def keep (b : Bounds) : Option Nat := b.fetch.map UInt64.toNat

/-- The rows within the bounds. -/
def page (b : Bounds) (rows : List α) : List α := window b.skip b.keep rows

@[simp] theorem page_none (rows : List α) : page ⟨none, none⟩ rows = rows := rfl

end Bounds

/-- The bounds of the sorts of a chain, from the scan up. -/
def Plan.bounds : Plan → List Bounds
  | ⟨.sort _ offset fetch, [input], _, _⟩ => input.bounds ++ [⟨offset, fetch⟩]
  | ⟨_, [input], _, _⟩ => input.bounds
  | _ => []
termination_by structural p => p

/-! ## Windows -/

variable {α : Type}

theorem window_window (skip skip' : Nat) (keep keep' : Option Nat) (rows : List α) :
    window skip' keep' (window skip keep rows) =
      window (skip + skip') ((keep.map (· - skip')).merge min keep') rows := by
  cases keep with
  | none => cases keep' <;> simp [window, List.drop_drop]
  | some n =>
    cases keep' with
    | none => simp [window, List.drop_take, List.drop_drop]
    | some m => simp [window, List.drop_take, List.drop_drop, List.take_take, Nat.min_comm]

theorem length_window_replicate (skip : Nat) (keep : Option Nat) (n : Nat) (a : α) :
    (window skip keep (List.replicate n a)).length =
      match keep with
      | some m => min m (n - skip)
      | none => n - skip := by
  cases keep <;> simp [window]

/-- Two windows are the same if they keep as many rows, and these are no rows at all or those past
the same one. -/
theorem window_eq_iff [Inhabited α] {skip skip' : Nat} {keep keep' : Option Nat} :
    (∀ rows : List α, window skip keep rows = window skip' keep' rows) ↔
      keep = keep' ∧ (keep = some 0 ∨ skip = skip') := by
  constructor
  · intro h
    have hlength n := congrArg List.length (h (List.replicate n default))
    rcases keep with _ | n <;> rcases keep' with _ | m <;>
      simp only [length_window_replicate] at hlength
    · have := hlength (skip + skip')
      exact ⟨rfl, .inr (by omega)⟩
    · have := hlength (skip + m + 1)
      omega
    · have := hlength (skip' + n + 1)
      omega
    · -- Enough rows for both windows, and one row past the start of either.
      have hfull := hlength (skip + skip' + n + m)
      have hfirst := hlength (skip + 1)
      have hfirst' := hlength (skip' + 1)
      obtain rfl : n = m := by omega
      refine ⟨rfl, ?_⟩
      rcases Nat.eq_zero_or_pos n with rfl | hpos
      · exact .inl rfl
      · right
        omega
  · rintro ⟨rfl, rfl | rfl⟩ rows
    · simp [window]
    · rfl

/-! ## Pages of pages -/

namespace Bounds

/-- How many rows are skipped in all. -/
def skipped : List Bounds → Nat
  | [] => 0
  | b :: above => b.skip + skipped above

/-- How many rows are kept in the end. -/
def kept : List Bounds → Option Nat
  | [] => none
  | b :: above => (b.keep.map (· - skipped above)).merge min (kept above)

theorem foldl_page (bs : List Bounds) (rows : List α) :
    bs.foldl (fun rows b => b.page rows) rows = window (skipped bs) (kept bs) rows := by
  induction bs generalizing rows with
  | nil => rfl
  | cons b above ih => rw [List.foldl_cons, ih, page, window_window, kept, skipped]

end Bounds

/-! ## The bounds that are given last -/

/-- The last of several values that is given. -/
def lastGiven : List (Option β) → Option β
  | [] => none
  | x :: above => (lastGiven above).or x

theorem lastGiven_concat {β : Type} (xs : List (Option β)) (x : Option β) :
    lastGiven (xs ++ [x]) = x.or (lastGiven xs) := by
  induction xs with
  | nil => simp [lastGiven]
  | cons y rest ih => rw [List.cons_append, lastGiven, ih, lastGiven, Option.or_assoc]

namespace Bounds

def lastOffset (bs : List Bounds) : Option UInt64 := lastGiven (bs.map offset)

def lastFetch (bs : List Bounds) : Option UInt64 := lastGiven (bs.map fetch)

/-- Where rows are skipped, no later sort gives an offset. -/
def KeepsOffsets : List Bounds → Prop
  | [] => True
  | b :: above => (b.skip = 0 ∨ lastOffset above = none) ∧ KeepsOffsets above

/-- Where rows are cut off, as many are left as the last fetch asks for, past those that later
sorts skip. -/
def KeepsFetches : List Bounds → Prop
  | [] => True
  | b :: above =>
    (∀ n, b.fetch = some n →
      ((lastFetch above).getD n).toNat ≤ n.toNat - skipped above) ∧ KeepsFetches above

theorem lastOffset_cons (b : Bounds) (above : List Bounds) :
    lastOffset (b :: above) = (lastOffset above).or b.offset := rfl

theorem lastFetch_cons (b : Bounds) (above : List Bounds) :
    lastFetch (b :: above) = (lastFetch above).or b.fetch := rfl

/-- The offset given last is one of those that add up. -/
theorem le_skipped {bs : List Bounds} {n : UInt64} (h : lastOffset bs = some n) :
    n.toNat ≤ skipped bs := by
  induction bs with
  | nil => simp [lastOffset, lastGiven] at h
  | cons b above ih =>
    rw [lastOffset_cons] at h
    rw [skipped]
    rcases Option.or_eq_some_iff.1 h with h | ⟨-, h⟩
    · exact Nat.le_add_left_of_le (ih h)
    · simp [skip, h]

theorem skipped_eq_zero {bs : List Bounds} (h : lastOffset bs = none) : skipped bs = 0 := by
  induction bs with
  | nil => rfl
  | cons b above ih =>
    rw [lastOffset_cons, Option.or_eq_none_iff] at h
    rw [skipped, ih h.1, skip, h.2]
    rfl

/-- The offset given last is all that is skipped if no other offset counts. -/
theorem lastOffset_eq_skipped_iff (bs : List Bounds) :
    ((lastOffset bs).map UInt64.toNat).getD 0 = skipped bs ↔ KeepsOffsets bs := by
  induction bs with
  | nil => simp [lastOffset, lastGiven, skipped, KeepsOffsets]
  | cons b above ih =>
    rw [lastOffset_cons, skipped, KeepsOffsets, ← ih]
    cases habove : lastOffset above with
    | none => simp [skip, skipped_eq_zero habove]
    | some m =>
      have hle := le_skipped habove
      simp only [Option.some_or, Option.map_some, Option.getD_some, reduceCtorEq, or_false]
      omega

theorem kept_eq_none {bs : List Bounds} (h : lastFetch bs = none) : kept bs = none := by
  induction bs with
  | nil => rfl
  | cons b above ih =>
    rw [lastFetch_cons, Option.or_eq_none_iff] at h
    rw [kept, ih h.1, keep, h.2]
    rfl

/-- At most as many rows are kept as the fetch given last asks for. -/
theorem exists_kept {bs : List Bounds} {n : UInt64} (h : lastFetch bs = some n) :
    ∃ m ≤ n.toNat, kept bs = some m := by
  induction bs with
  | nil => simp [lastFetch, lastGiven] at h
  | cons b above ih =>
    rw [lastFetch_cons] at h
    rw [kept]
    rcases Option.or_eq_some_iff.1 h with habove | ⟨habove, hb⟩
    · obtain ⟨m, hle, hm⟩ := ih habove
      rw [hm]
      cases b.keep with
      | none => exact ⟨m, hle, rfl⟩
      | some k => exact ⟨min (k - skipped above) m, Nat.le_trans (Nat.min_le_right ..) hle, rfl⟩
    · rw [kept_eq_none habove, keep, hb]
      exact ⟨n.toNat - skipped above, Nat.sub_le .., rfl⟩

/-- As many rows are kept as the fetch given last asks for if every fetch leaves them. -/
theorem lastFetch_eq_kept_iff (bs : List Bounds) :
    (lastFetch bs).map UInt64.toNat = kept bs ↔ KeepsFetches bs := by
  induction bs with
  | nil => simp [lastFetch, lastGiven, kept, KeepsFetches]
  | cons b above ih =>
    rw [lastFetch_cons, kept, keep, KeepsFetches, ← ih]
    cases hb : b.fetch with
    | none => simp
    | some n =>
      cases habove : lastFetch above with
      | none =>
        simp only [kept_eq_none habove, Option.none_or, Option.map_some, Option.merge_none_right,
          Option.some.injEq, Option.getD_none, forall_eq', Option.map_none, and_true]
        omega
      | some g =>
        obtain ⟨m, hle, hm⟩ := exists_kept habove
        simp only [hm, Option.some_or, Option.map_some, Option.merge_some_some,
          Option.some.injEq, Option.getD_some, forall_eq']
        omega

/-- The bounds given last page as all pages do, one out of the other, exactly if every fetch leaves
what the last one asks for and, unless no rows are wanted, no offset but the last counts. -/
theorem page_last_eq_foldl_iff [Inhabited α] (bs : List Bounds) :
    (∀ rows : List α,
      page ⟨lastOffset bs, lastFetch bs⟩ rows = bs.foldl (fun rows b => b.page rows) rows) ↔
      KeepsFetches bs ∧ (lastFetch bs = some 0 ∨ KeepsOffsets bs) := by
  have hzero : (lastFetch bs).map UInt64.toNat = some 0 ↔ lastFetch bs = some 0 := by
    cases lastFetch bs with
    | none => simp
    | some n => simpa using UInt64.toNat_inj (b := 0)
  rw [← lastFetch_eq_kept_iff, ← lastOffset_eq_skipped_iff, ← hzero, ← window_eq_iff (α := α)]
  simp only [foldl_page]
  rfl

end Bounds

end StorePlan
