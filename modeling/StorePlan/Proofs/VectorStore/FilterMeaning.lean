import StorePlan.Proofs.Predicate.Literals
import StorePlan.Proofs.Predicate.Meaning
import StorePlan.Proofs.VectorStore.FilterTree

/-
The truth of a vector filter under an assignment of values to attributes,
message by message. Data do not say of which literals they were made (two
integer literals of different widths make the same datum), so that the truth
is one over literals too: each leaf takes as many of them as it has data, from
left to right.
-/

namespace StorePlan.VectorStore

/-- A datum is made of a literal, once that is brought to some type. -/
def Datum.MadeOf (v : Value) (d : Datum) : Prop :=
  ∃ type w, v.coerce type = .ok w ∧ Datum.ofValue w = .ok d

/-- A leaf compares its attribute with the literals. -/
def Leaf.truth (I : Interpretation) (env : String → Value) (l : Leaf) (literals : List Value) :
    Truth :=
  (l.comparison.truth I (env l.attributeName) literals).negateIf l.negated

/-- The data of a leaf that may be missing. -/
def Leaf.data? (l : Option Leaf) : List Datum := (l.map (·.data)).getD []

mutual

/-- The data of all leaves, from left to right. -/
def Compound.data : Compound → List Datum
  | ⟨_, leftLeaf, leftCompound, rightLeaf, rightCompound⟩ =>
    (Leaf.data? leftLeaf ++ Compound.data? leftCompound) ++
      (Leaf.data? rightLeaf ++ Compound.data? rightCompound)
termination_by structural c => c

def Compound.data? : Option Compound → List Datum
  | none => []
  | some c => c.data
termination_by structural c => c

end

mutual

/-- An inner node connects the truths of its sides. -/
def Compound.truth (I : Interpretation) (env : String → Value) : Compound → List Value → Truth
  | ⟨connective, leftLeaf, leftCompound, rightLeaf, rightCompound⟩, literals =>
    let onLeft := (Leaf.data? leftLeaf ++ Compound.data? leftCompound).length
    connective.truth (Compound.sideTruth I env leftLeaf leftCompound (literals.take onLeft))
      (Compound.sideTruth I env rightLeaf rightCompound (literals.drop onLeft))
termination_by structural c => c

/-- The truth of a side, which is unknown unless exactly one of its slots is filled. -/
def Compound.sideTruth (I : Interpretation) (env : String → Value) (leaf : Option Leaf) :
    Option Compound → List Value → Truth
  | none, literals => (leaf.map fun l => l.truth I env literals).getD .unknown
  | some c, literals => if leaf.isNone then c.truth I env literals else .unknown
termination_by structural c => c

end

namespace Filter

/-- The data of all leaves, from left to right. -/
def data : Filter → List Datum
  | leaf l => l.data
  | compound c => c.data

def truth (I : Interpretation) (env : String → Value) : Filter → List Value → Truth
  | leaf l => l.truth I env
  | compound c => c.truth I env

/-! ## What filters are made of -/

variable {I : Interpretation} {env : String → Value}

/-- The two slots of a side hold what the filter on that side holds. -/
theorem data_slots (f : Filter) : Leaf.data? f.leaf? ++ Compound.data? f.compound? = f.data := by
  cases f <;> simp [leaf?, compound?, Leaf.data?, Compound.data?, data]

theorem sideTruth_slots (f : Filter) (literals : List Value) :
    Compound.sideTruth I env f.leaf? f.compound? literals = f.truth I env literals := by
  cases f <;> simp [leaf?, compound?, Compound.sideTruth, truth]

theorem data_join (c : Connective) (f g : Filter) : (join c f g).data = f.data ++ g.data := by
  rw [join, data, Compound.data, data_slots, data_slots]

theorem truth_join (c : Connective) (f g : Filter) {vs ws : List Value}
    (h : vs.length = f.data.length) :
    (join c f g).truth I env (vs ++ ws) = c.truth (f.truth I env vs) (g.truth I env ws) := by
  rw [join, truth, Compound.truth]
  simp only [data_slots, ← h, List.take_left, List.drop_left]
  rw [sideTruth_slots, sideTruth_slots]

theorem madeOf_ofPredicate : ∀ {p : Predicate} {f : Filter}, ofPredicate p = .ok f →
    List.Forall₂ Datum.MadeOf p.values f.data
  | .atomic a, f, h => by
    obtain ⟨ds, hds, rfl⟩ := ofPredicate_atomic_eq_ok.1 h
    rw [Predicate.values_atomic]
    exact hds.imp fun _ _ hform => ⟨a.type, hform⟩
  | .compound c left right, f, h => by
    obtain ⟨l, hl, r, hr, rfl⟩ := ofPredicate_compound_eq_ok.1 h
    rw [Predicate.values_compound, data_join]
    exact List.rel_append (madeOf_ofPredicate hl) (madeOf_ofPredicate hr)

/-- The filter for a predicate has its truth, over the predicate's literals. -/
theorem truth_ofPredicate (I : Interpretation) (env : String → Value) :
    ∀ {p : Predicate} {f : Filter}, ofPredicate p = .ok f →
      f.truth I env p.values = p.truth I env
  | .atomic a, f, h => by
    obtain ⟨ds, hds, rfl⟩ := ofPredicate_atomic_eq_ok.1 h
    rw [Predicate.values_atomic]
    rfl
  | .compound c left right, f, h => by
    obtain ⟨l, hl, r, hr, rfl⟩ := ofPredicate_compound_eq_ok.1 h
    rw [Predicate.values_compound, truth_join c l r (madeOf_ofPredicate hl).length_eq,
      truth_ofPredicate I env hl, truth_ofPredicate I env hr]
    rfl

end Filter

end StorePlan.VectorStore
