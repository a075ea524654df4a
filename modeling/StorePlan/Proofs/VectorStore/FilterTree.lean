import StorePlan.Proofs.Outcome
import StorePlan.Proofs.Value.Coercion
import StorePlan.VectorStore.Filter

/-
Filters as images of predicates. A filter is read through its slots, where a
side that does not have exactly one of its two slots filled is no tree at all;
what is read is the predicate that the filter was made for, connective by
connective and leaf by leaf.

`slots_ofPredicate` follows the emitter once; that the filter reads back as a
tree (`exists_tree_of_slots`) and which leaves it has (`leaves_of_slots`)
follows from the slots alone.
-/

namespace StorePlan.VectorStore

/-- A filter without slots. -/
inductive FilterTree where
  | leaf (leaf : Leaf)
  | node (connective : Connective) (left right : FilterTree)

/-- Number of inner nodes above the deepest leaf. -/
def FilterTree.depth : FilterTree → Nat
  | leaf _ => 0
  | node _ l r => 1 + max l.depth r.depth

mutual

/-- The tree under an inner node. -/
def Compound.tree? : Compound → Option FilterTree
  | ⟨connective, leftLeaf, leftCompound, rightLeaf, rightCompound⟩ => do
    let left ← Compound.sideTree? leftLeaf leftCompound
    let right ← Compound.sideTree? rightLeaf rightCompound
    return .node connective left right
termination_by structural c => c

/-- The tree on a side, of which exactly one slot has to be filled. -/
def Compound.sideTree? (leaf : Option Leaf) : Option Compound → Option FilterTree
  | none => leaf.map .leaf
  | some c => if leaf.isNone then c.tree? else none
termination_by structural c => c

end

mutual

/-- The leaves in the slots under an inner node, from left to right. -/
def Compound.leaves : Compound → List Leaf
  | ⟨_, leftLeaf, leftCompound, rightLeaf, rightCompound⟩ =>
    (leftLeaf.toList ++ Compound.leaves? leftCompound) ++
      (rightLeaf.toList ++ Compound.leaves? rightCompound)
termination_by structural c => c

def Compound.leaves? : Option Compound → List Leaf
  | none => []
  | some c => c.leaves
termination_by structural c => c

end

namespace Filter

def tree? : Filter → Option FilterTree
  | leaf l => some (.leaf l)
  | compound c => c.tree?

/-- All leaves, from left to right. -/
def leaves : Filter → List Leaf
  | leaf l => [l]
  | compound c => c.leaves

end Filter

/-! ## Images -/

/-- A datum is the form of a literal that is compared with an attribute of a type. -/
def Datum.IsFormOf (type : DataType) (v : Value) (d : Datum) : Prop :=
  ∃ w, v.coerce type = .ok w ∧ Datum.ofValue w = .ok d

/-- A leaf of a filter compares the same attribute in the same way, with one datum for each
literal. -/
structure Leaf.IsImage (a : Atom) (l : Leaf) : Prop where
  attributeName : l.attributeName = a.attributeName
  comparison : l.comparison = a.comparison
  negated : l.negated = a.negated
  data : List.Forall₂ (Datum.IsFormOf a.type) a.values l.data

/-- A tree has the shape of a predicate, its connectives, and images of its leaves. -/
inductive FilterTree.Mirrors : Predicate → FilterTree → Prop where
  | atomic {a : Atom} {l : Leaf} : l.IsImage a → Mirrors (.atomic a) (.leaf l)
  | compound (c : Connective) {left right : Predicate} {s t : FilterTree} :
    Mirrors left s → Mirrors right t → Mirrors (.compound c left right) (.node c s t)

/-- The two slots of a side hold the image of a predicate: the one for leaves is filled exactly if
the predicate is a leaf, and the one for inner nodes exactly if it is not. -/
def Slots : Predicate → Option Leaf → Option Compound → Prop
  | .atomic a, leaf, compound => (∃ l, leaf = some l ∧ l.IsImage a) ∧ compound = none
  | .compound c left right, leaf, compound =>
    leaf = none ∧ ∃ k, compound = some k ∧ k.connective = c ∧
      Slots left k.leftLeaf k.leftCompound ∧ Slots right k.rightLeaf k.rightCompound

/-- A literal has no form in which it could be compared with an attribute of a type. -/
def LacksForm (type : DataType) (v : Value) : Prop :=
  ∃ w, v.coerce type = .ok w ∧ ∀ d, Datum.ofValue w ≠ .ok d

theorem lacksForm_iff {type : DataType} {v : Value} :
    LacksForm type v ↔ ¬∃ d, Datum.IsFormOf type v d := by
  obtain ⟨w, hw⟩ := v.exists_coerce type
  simp [LacksForm, Datum.IsFormOf, hw]

theorem FilterTree.Mirrors.depth_eq {p : Predicate} {t : FilterTree} (h : t.Mirrors p) :
    t.depth = p.depth := by
  induction h with
  | atomic => rfl
  | compound _ _ _ ihl ihr => rw [depth, Predicate.depth, ihl, ihr]

/-! ## Reading slots -/

/-- Slots that hold the image of a predicate read back as a tree that mirrors it. -/
theorem exists_tree_of_slots {p : Predicate} {leaf : Option Leaf} {compound : Option Compound}
    (h : Slots p leaf compound) :
    ∃ t, Compound.sideTree? leaf compound = some t ∧ t.Mirrors p := by
  induction p generalizing leaf compound with
  | atomic a =>
    obtain ⟨⟨l, rfl, hl⟩, rfl⟩ := h
    exact ⟨.leaf l, rfl, .atomic hl⟩
  | compound c left right ihl ihr =>
    obtain ⟨rfl, ⟨_, _, _, _, _⟩, rfl, rfl, hleft, hright⟩ := h
    obtain ⟨s, hs, hleft⟩ := ihl hleft
    obtain ⟨t, ht, hright⟩ := ihr hright
    refine ⟨.node _ s t, ?_, .compound _ hleft hright⟩
    simp [Compound.sideTree?, Compound.tree?, hs, ht]

/-- The leaves in slots that hold the image of a predicate are those of the predicate's leaves. -/
theorem leaves_of_slots {p : Predicate} {leaf : Option Leaf} {compound : Option Compound}
    (h : Slots p leaf compound) :
    List.Forall₂ Leaf.IsImage p.atoms (leaf.toList ++ Compound.leaves? compound) := by
  induction p generalizing leaf compound with
  | atomic a =>
    obtain ⟨⟨l, rfl, hl⟩, rfl⟩ := h
    exact .cons hl .nil
  | compound c left right ihl ihr =>
    obtain ⟨rfl, ⟨_, _, _, _, _⟩, rfl, rfl, hleft, hright⟩ := h
    rw [Compound.leaves?, Compound.leaves]
    exact List.rel_append (ihl hleft) (ihr hright)

namespace Filter

theorem sideTree?_slots (f : Filter) : Compound.sideTree? f.leaf? f.compound? = f.tree? := by
  cases f <;> rfl

theorem leaves_slots (f : Filter) : f.leaf?.toList ++ Compound.leaves? f.compound? = f.leaves := by
  cases f <;> simp [leaf?, compound?, Compound.leaves?, leaves]

theorem leaves_join (c : Connective) (f g : Filter) :
    (join c f g).leaves = f.leaves ++ g.leaves := by
  rw [join, leaves, Compound.leaves, leaves_slots, leaves_slots]

/-! ## What the emitter makes -/

theorem dataOf_eq_ok {type : DataType} {vs : List Value} {ds : List Datum} :
    dataOf type vs = .ok ds ↔ List.Forall₂ (Datum.IsFormOf type) vs ds := by
  induction vs generalizing ds with
  | nil => simp [dataOf, eq_comm]
  | cons v rest ih =>
    simp only [dataOf, bind_eq_ok, pure_eq_ok, mapError_eq_ok, ih, List.forall₂_cons_left_iff]
    constructor
    · rintro ⟨w, hw, d, hd, others, hothers, rfl⟩
      exact ⟨d, others, ⟨w, hw, hd⟩, hothers, rfl⟩
    · rintro ⟨d, others, ⟨w, hw, hd⟩, hothers, rfl⟩
      exact ⟨w, hw, d, hd, others, hothers, rfl⟩

theorem ofPredicate_atomic_eq_ok {a : Atom} {f : Filter} :
    ofPredicate (.atomic a) = .ok f ↔
      ∃ ds, List.Forall₂ (Datum.IsFormOf a.type) a.values ds ∧
        leaf ⟨a.attributeName, a.negated, a.comparison, ds⟩ = f := by
  simp only [ofPredicate, ofAtom, bind_eq_ok, pure_eq_ok, dataOf_eq_ok]
  constructor
  · rintro ⟨_, ⟨ds, hds, rfl⟩, rfl⟩
    exact ⟨ds, hds, rfl⟩
  · rintro ⟨ds, hds, rfl⟩
    exact ⟨_, ⟨ds, hds, rfl⟩, rfl⟩

theorem ofPredicate_compound_eq_ok {c : Connective} {left right : Predicate} {f : Filter} :
    ofPredicate (.compound c left right) = .ok f ↔
      ∃ l, ofPredicate left = .ok l ∧ ∃ r, ofPredicate right = .ok r ∧ join c l r = f := by
  simp only [ofPredicate, bind_eq_ok, pure_eq_ok]

/-- Each part of a predicate goes into the slots of its own kind. -/
theorem slots_ofPredicate : ∀ {p : Predicate} {f : Filter}, ofPredicate p = .ok f →
    Slots p f.leaf? f.compound?
  | .atomic a, f, h => by
    obtain ⟨ds, hds, rfl⟩ := ofPredicate_atomic_eq_ok.1 h
    exact ⟨⟨_, rfl, rfl, rfl, rfl, hds⟩, rfl⟩
  | .compound c left right, f, h => by
    obtain ⟨l, hl, r, hr, rfl⟩ := ofPredicate_compound_eq_ok.1 h
    exact ⟨rfl, _, rfl, rfl, slots_ofPredicate hl, slots_ofPredicate hr⟩

theorem exists_forms_iff {type : DataType} {vs : List Value} :
    (∃ ds, List.Forall₂ (Datum.IsFormOf type) vs ds) ↔
      ∀ v ∈ vs, ∃ d, Datum.IsFormOf type v d := by
  induction vs with
  | nil => simp
  | cons v rest ih =>
    rw [List.forall_mem_cons, ← ih]
    constructor
    · rintro ⟨_, h⟩
      cases h with
      | cons hd hothers => exact ⟨⟨_, hd⟩, _, hothers⟩
    · rintro ⟨⟨d, hd⟩, others, hothers⟩
      exact ⟨d :: others, .cons hd hothers⟩

/-- A predicate becomes a filter if all its literals have a form. -/
theorem exists_ofPredicate_iff {p : Predicate} : (∃ f, ofPredicate p = .ok f) ↔
    ∀ a ∈ p.atoms, ∀ v ∈ a.values, ∃ d, Datum.IsFormOf a.type v d := by
  induction p with
  | atomic a =>
    rw [Predicate.atoms, List.forall_mem_singleton, ← exists_forms_iff]
    simp only [ofPredicate_atomic_eq_ok]
    constructor
    · rintro ⟨_, ds, hds, -⟩
      exact ⟨ds, hds⟩
    · rintro ⟨ds, hds⟩
      exact ⟨_, ds, hds, rfl⟩
  | compound c left right ihl ihr =>
    rw [Predicate.atoms, List.forall_mem_append, ← ihl, ← ihr]
    simp only [ofPredicate_compound_eq_ok]
    constructor
    · rintro ⟨_, l, hl, r, hr, -⟩
      exact ⟨⟨l, hl⟩, r, hr⟩
    · rintro ⟨⟨l, hl⟩, r, hr⟩
      exact ⟨_, l, hl, r, hr, rfl⟩

/-- A predicate becomes no filter exactly if one of its literals has no form. Otherwise its filter
reads back as a tree of the same shape, with the same connectives and an image of each leaf, and
each part of the predicate fills the slot of its own kind and no other. -/
theorem mirrors_ofPredicate (p : Predicate) :
    ((∃ e, ofPredicate p = .error e) ↔ ∃ a ∈ p.atoms, ∃ v ∈ a.values, LacksForm a.type v) ∧
      ∀ f, ofPredicate p = .ok f →
        (∃ t, f.tree? = some t ∧ t.Mirrors p ∧ t.depth = p.depth) ∧
          List.Forall₂ Leaf.IsImage p.atoms f.leaves ∧ Slots p f.leaf? f.compound? := by
  constructor
  · have hfails : (∃ e, ofPredicate p = .error e) ↔ ¬∃ f, ofPredicate p = .ok f := by
      cases ofPredicate p <;> simp
    simp only [hfails, exists_ofPredicate_iff, lacksForm_iff, not_forall, exists_prop]
  · intro f h
    have hslots := slots_ofPredicate h
    obtain ⟨t, ht, hmirrors⟩ := exists_tree_of_slots hslots
    rw [sideTree?_slots] at ht
    exact ⟨⟨t, ht, hmirrors, hmirrors.depth_eq⟩, leaves_slots f ▸ leaves_of_slots hslots, hslots⟩

end Filter

end StorePlan.VectorStore
