import Mathlib.Data.List.Infix
import Mathlib.Data.List.Sort
import Mathlib.Data.List.Sublists
import StorePlan.Proofs.Plan.Checks

/-
Which grouping a list of sets forms, said of the sets themselves: the grouped
fields alone, their initial parts from the longest down, or each of their
parts once.

A cube is recognised by counting masks. That is enough because a mask
determines its part (`eq_of_mask?_eq`): as many parts with different masks as
there are parts at all must be all of them (`perm_sublists_iff`).
-/

namespace StorePlan.Grouping

/-- Some of the grouped fields, in ascending order. -/
def IsPart (fields set : List Nat) : Prop := set.Pairwise (· < ·) ∧ set ⊆ fields

/-- Rows are grouped once, by all grouped fields. -/
def IsFlat (fields : List Nat) (sets : Option (List (List Nat))) : Prop :=
  sets = none ∨ sets = some [fields]

/-- There are grouped fields, and the sets are their initial parts, from all of them down to
none. -/
def AreInitialParts (fields : List Nat) (sets : Option (List (List Nat))) : Prop :=
  0 < fields.length ∧ sets = some fields.inits.reverse

/-- Every part of the grouped fields is a set, and is one once. -/
def AreAllParts (fields : List Nat) (sets : Option (List (List Nat))) : Prop :=
  ∃ given, sets = some given ∧ ∀ set, IsPart fields set → given.count set = 1

/-- The sets form this grouping over the grouped fields. -/
def Describes (fields : List Nat) (sets : Option (List (List Nat))) : Grouping → Prop
  | simple => IsFlat fields sets
  | rollup => AreInitialParts fields sets
  | cube => ¬IsFlat fields sets ∧ ¬AreInitialParts fields sets ∧ AreAllParts fields sets
  | other => ¬IsFlat fields sets ∧ ¬AreInitialParts fields sets ∧ ¬AreAllParts fields sets

section Parts

variable {fields set : List Nat}

theorem isPart_iff_sublist (hfields : fields.Pairwise (· < ·)) :
    IsPart fields set ↔ set.Sublist fields := by
  constructor
  · rintro ⟨hascend, hsub⟩
    exact List.sublist_of_subperm_of_pairwise (hascend.nodup.subperm hsub) hascend hfields
  · exact fun h => ⟨hfields.sublist h, h.subset⟩

theorem initialParts_eq (fields : List Nat) : initialParts fields = fields.inits.reverse := by
  refine List.ext_getElem (by simp [initialParts]) fun i hi _ => ?_
  have hle : i ≤ fields.length := by
    rw [initialParts, List.length_map, List.length_range] at hi
    omega
  simp only [initialParts, List.getElem_map, List.getElem_range, List.getElem_reverse,
    List.getElem_inits, List.length_inits]
  congr 1

end Parts

/-! ## Masks -/

section Masks

variable {fields set : List Nat}

/-- One field more sets the bit of its position, which is taken to be there. -/
theorem testBit_foldlM {start mask : Nat} {i : Nat}
    (h : set.foldlM (fun mask field => (fields.idxOf? field).map fun i => mask ||| 1 <<< i) start =
      some mask) :
    mask.testBit i = true ↔ start.testBit i = true ∨ ∃ f ∈ set, fields.idxOf? f = some i := by
  induction set generalizing start with
  | nil =>
    obtain rfl := Option.some.inj h
    simp
  | cons f rest ih =>
    rw [List.foldlM_cons] at h
    obtain ⟨next, hnext, h⟩ := Option.bind_eq_some_iff.1 h
    obtain ⟨j, hj, rfl⟩ := Option.map_eq_some_iff.1 hnext
    rw [ih h, Nat.testBit_or, Nat.one_shiftLeft, Nat.testBit_two_pow]
    simp [hj, or_assoc]

/-- The bits of a mask are the positions of its fields. -/
theorem testBit_mask? {mask : Nat} (h : mask? fields set = some mask) (i : Nat) :
    mask.testBit i = true ↔ ∃ f ∈ set, fields.idxOf? f = some i := by
  simpa using testBit_foldlM h

theorem exists_mask? (h : set ⊆ fields) : ∃ mask, mask? fields set = some mask := by
  unfold mask?
  generalize 0 = start
  induction set generalizing start with
  | nil => exact ⟨start, rfl⟩
  | cons f rest ih =>
    obtain ⟨hf, hrest⟩ := List.cons_subset.1 h
    obtain ⟨i, hi⟩ := Option.ne_none_iff_exists'.1 (mt List.idxOf?_eq_none_iff.1 (not_not.2 hf))
    obtain ⟨mask, hmask⟩ := ih hrest (start ||| 1 <<< i)
    exact ⟨mask, by rw [List.foldlM_cons, hi]; exact hmask⟩

theorem mem_iff_of_mask? {mask f : Nat} (hset : set ⊆ fields) (h : mask? fields set = some mask) :
    f ∈ set ↔ ∃ i, fields.idxOf? f = some i ∧ mask.testBit i = true := by
  constructor
  · intro hf
    obtain ⟨i, hi⟩ :=
      Option.ne_none_iff_exists'.1 (mt List.idxOf?_eq_none_iff.1 (not_not.2 (hset hf)))
    exact ⟨i, hi, (testBit_mask? h i).2 ⟨f, hf, hi⟩⟩
  · rintro ⟨i, hi, hbit⟩
    obtain ⟨g, hg, hgi⟩ := (testBit_mask? h i).1 hbit
    -- Two fields at one position are one field.
    obtain ⟨_, hf, -⟩ := List.idxOf?_eq_some_iff.1 hi
    obtain ⟨_, hgf, -⟩ := List.idxOf?_eq_some_iff.1 hgi
    rwa [← hf, hgf]

/-- A mask determines its part. -/
theorem eq_of_mask?_eq {other : List Nat} (hset : IsPart fields set) (hother : IsPart fields other)
    (h : mask? fields set = mask? fields other) : set = other := by
  obtain ⟨mask, hmask⟩ := exists_mask? hset.2
  refine hset.1.eq_of_mem_iff hother.1 fun f => ?_
  rw [mem_iff_of_mask? hset.2 hmask, mem_iff_of_mask? hother.2 (h ▸ hmask)]

end Masks

/-! ## Cubes -/

section Cubes

variable {fields : List Nat} {sets : List (List Nat)}

theorem nodup_eraseDups : ∀ ns : List Nat, ns.eraseDups.Nodup
  | [] => by simp
  | n :: rest => by
    rw [List.eraseDups_cons, List.nodup_cons, List.mem_eraseDups, List.mem_filter]
    exact ⟨by simp, nodup_eraseDups (rest.filter fun m => !m == n)⟩
termination_by ns => ns.length
decreasing_by exact Nat.lt_succ_of_le (List.length_filter_le _ _)

/-- A list is as long as its different members are many exactly if none is repeated. -/
theorem length_eraseDups_eq_iff {ns : List Nat} : ns.eraseDups.length = ns.length ↔ ns.Nodup := by
  have hsub : ns.eraseDups.Subperm ns :=
    (nodup_eraseDups ns).subperm fun _ => List.mem_eraseDups.1
  constructor
  · intro h
    exact (hsub.perm_of_length_le h.ge).nodup_iff.1 (nodup_eraseDups ns)
  · intro h
    exact (hsub.antisymm (h.subperm fun _ => List.mem_eraseDups.2)).length_eq

/-- The masks of parts repeat exactly where the parts do. -/
theorem length_eraseDups_masks (hsets : ∀ set ∈ sets, IsPart fields set) :
    (sets.filterMap (mask? fields)).eraseDups.length = sets.length ↔ sets.Nodup := by
  have hmasks : sets.filterMap (mask? fields) = sets.map fun set => (mask? fields set).getD 0 := by
    rw [← List.filterMap_eq_map]
    refine List.filterMap_congr fun set hset => ?_
    obtain ⟨mask, hmask⟩ := exists_mask? (hsets set hset).2
    simp [hmask]
  have hinj : ∀ set ∈ sets, ∀ other ∈ sets,
      (mask? fields set).getD 0 = (mask? fields other).getD 0 → set = other := by
    intro set hset other hother h
    obtain ⟨m, hm⟩ := exists_mask? (hsets set hset).2
    obtain ⟨n, hn⟩ := exists_mask? (hsets other hother).2
    refine eq_of_mask?_eq (hsets set hset) (hsets other hother) ?_
    simpa [hm, hn] using h
  have hlength : (sets.filterMap (mask? fields)).length = sets.length := by
    rw [hmasks, List.length_map]
  rw [← hlength, length_eraseDups_eq_iff, hmasks]
  exact ⟨List.Nodup.of_map _, fun h => (List.nodup_map_iff_inj_on h).2 hinj⟩

/-- Parts without repetition, as many as there are parts, are all of them. -/
theorem perm_sublists_iff (hfields : fields.Pairwise (· < ·))
    (hsets : ∀ set ∈ sets, IsPart fields set) :
    sets.Perm fields.sublists ↔ sets.length = Nat.pow 2 fields.length ∧ sets.Nodup := by
  constructor
  · intro h
    exact ⟨h.length_eq.trans (List.length_sublists fields),
      h.nodup_iff.2 (List.nodup_sublists.2 hfields.nodup)⟩
  · rintro ⟨hlength, hnodup⟩
    have hsub : sets ⊆ fields.sublists := fun set hset =>
      List.mem_sublists.2 ((isPart_iff_sublist hfields).1 (hsets set hset))
    refine (hnodup.subperm hsub).perm_of_length_le ?_
    rw [List.length_sublists, hlength, Nat.pow_eq]

theorem perm_sublists_iff_count (hfields : fields.Pairwise (· < ·))
    (hsets : ∀ set ∈ sets, IsPart fields set) :
    sets.Perm fields.sublists ↔ ∀ set, IsPart fields set → sets.count set = 1 := by
  have hnodup : fields.sublists.Nodup := List.nodup_sublists.2 hfields.nodup
  have hmem : ∀ set, set ∈ fields.sublists ↔ IsPart fields set := fun set => by
    rw [List.mem_sublists, isPart_iff_sublist hfields]
  rw [List.perm_iff_count]
  constructor
  · intro h set hset
    rw [h, List.count_eq_one_of_mem hnodup ((hmem set).2 hset)]
  · intro h set
    by_cases hset : IsPart fields set
    · rw [h set hset, List.count_eq_one_of_mem hnodup ((hmem set).2 hset)]
    · rw [List.count_eq_zero_of_not_mem fun hin => hset (hsets set hin),
        List.count_eq_zero_of_not_mem fun hin => hset ((hmem set).1 hin)]

theorem isCube_iff (hfields : fields.Pairwise (· < ·)) (hnarrow : fields.length < 64)
    (hsets : ∀ set ∈ sets, IsPart fields set) :
    isCube fields sets = true ↔ AreAllParts fields (some sets) := by
  have hparts : AreAllParts fields (some sets) ↔ ∀ set, IsPart fields set → sets.count set = 1 := by
    simp [AreAllParts]
  rw [hparts, ← perm_sublists_iff_count hfields hsets, perm_sublists_iff hfields hsets,
    ← length_eraseDups_masks hsets]
  simp [isCube, cubeLimit, hnarrow]

end Cubes

/-! ## Classification -/

variable {fields : List Nat} {sets : Option (List (List Nat))}

/-- All initial parts of some fields are more than one. -/
theorem not_isFlat_of_areInitialParts (h : AreInitialParts fields sets) : ¬IsFlat fields sets := by
  obtain ⟨hpos, rfl⟩ := h
  rintro (h | h)
  · cases h
  · have hlength := congrArg List.length (Option.some.inj h)
    simp only [List.length_reverse, List.length_inits, List.length_singleton] at hlength
    omega

/-- Sets form no two groupings. -/
theorem Describes.unique {g h : Grouping} (hg : g.Describes fields sets)
    (hh : h.Describes fields sets) : g = h := by
  have hinitial : AreInitialParts fields sets → ¬IsFlat fields sets :=
    not_isFlat_of_areInitialParts
  cases g <;> cases h <;> simp only [Describes] at hg hh <;> first | rfl | tauto

theorem describes_classify (hfields : fields.Pairwise (· < ·)) (hnarrow : fields.length < 64)
    (hsets : ∀ given ∈ sets, ∀ set ∈ given, IsPart fields set) :
    (classify fields sets).Describes fields sets := by
  cases sets with
  | none => exact .inl rfl
  | some given =>
    have hcube := isCube_iff hfields hnarrow (hsets given rfl)
    rw [classify]
    split
    · rename_i hflat
      exact .inr (congrArg some hflat)
    rename_i hflat
    have hflat : ¬IsFlat fields (some given) := by simpa [IsFlat] using hflat
    split
    · rename_i hinitial
      rw [initialParts_eq] at hinitial
      refine ⟨List.length_pos_iff.2 fun hnil => hflat (.inr ?_), congrArg some hinitial⟩
      -- Without grouped fields the only initial part is all of them, and that is flat.
      rw [hinitial, hnil]
      rfl
    rename_i hinitial
    have hinitial : ¬AreInitialParts fields (some given) := fun h =>
      hinitial ((Option.some.inj h.2).trans (initialParts_eq fields).symm)
    split
    · rename_i hall
      exact ⟨hflat, hinitial, hcube.1 hall⟩
    · rename_i hall
      exact ⟨hflat, hinitial, mt hcube.2 hall⟩

/-- Classification is exact: with the grouped fields and each set in ascending order, as building
leaves them, the verdict is the one grouping that the sets form. -/
theorem classify_eq_iff (hfields : fields.Pairwise (· < ·)) (hnarrow : fields.length < 64)
    (hsets : ∀ given ∈ sets, ∀ set ∈ given, IsPart fields set) (g : Grouping) :
    classify fields sets = g ↔ g.Describes fields sets := by
  have h := describes_classify hfields hnarrow hsets
  exact ⟨fun heq => heq ▸ h, h.unique⟩

/-- The parts of the fields 1 and 4 in an order that is no rollup's are a cube. -/
theorem classify_cube_of_two :
    let sets := [[4], [], [1, 4], [1]]
    [1, 4].Pairwise (· < ·) ∧ [1, 4].length < 64 ∧ (∀ set ∈ sets, IsPart [1, 4] set) ∧
      classify [1, 4] (some sets) = cube ∧ cube.Describes [1, 4] (some sets) := by
  intro sets
  have hfields : [1, 4].Pairwise (· < ·) := by decide
  have hsets : ∀ set ∈ sets, IsPart [1, 4] set := by simp [sets, IsPart]
  have hcube : classify [1, 4] (some sets) = cube := by decide
  have hgiven : ∀ given ∈ some sets, ∀ set ∈ given, IsPart [1, 4] set := by
    rintro _ ⟨⟩
    exact hsets
  exact ⟨hfields, by decide, hsets, hcube,
    (classify_eq_iff hfields (by decide) hgiven cube).1 hcube⟩

end StorePlan.Grouping
