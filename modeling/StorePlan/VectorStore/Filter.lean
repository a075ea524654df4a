import StorePlan.Predicate.Basic
import StorePlan.VectorStore.Error

/-
Filters of a vector request. Leaves and inner nodes are distinct messages, so
an inner node has two slots for each of its sides, one for a leaf and one for
an inner node.
-/

namespace StorePlan.VectorStore

/-- A comparison of a stored attribute with data. -/
structure Leaf where
  attributeName : String
  negated : Bool
  comparison : Comparison
  data : List Datum

/-- An inner node. -/
structure Compound where
  connective : Connective
  leftLeaf : Option Leaf
  leftCompound : Option Compound
  rightLeaf : Option Leaf
  rightCompound : Option Compound

/-- A filter. -/
inductive Filter where
  | leaf (leaf : Leaf)
  | compound (compound : Compound)

namespace Filter

def leaf? : Filter → Option Leaf
  | leaf l => some l
  | compound _ => none

def compound? : Filter → Option Compound
  | leaf _ => none
  | compound c => some c

/-- Two filters under a connective, each in the slot of its kind. -/
def join (connective : Connective) (left right : Filter) : Filter :=
  compound ⟨connective, left.leaf?, left.compound?, right.leaf?, right.compound?⟩

/-- The data for literals, each brought to the attribute's type first. -/
def dataOf (type : DataType) : List Value → Emit (List Datum)
  | [] => .ok []
  | v :: rest => do
    let v ← (v.coerce type).mapError .coercion
    let d ← (Datum.ofValue v).mapError .literal
    return d :: (← dataOf type rest)

def ofAtom (a : Atom) : Emit Leaf := do
  return ⟨a.attributeName, a.negated, a.comparison, ← dataOf a.type a.values⟩

/-- The filter for a predicate. -/
def ofPredicate : Predicate → Emit Filter
  | .atomic a => do return leaf (← ofAtom a)
  | .compound c left right => do
    let left ← ofPredicate left
    let right ← ofPredicate right
    return join c left right

end Filter

/-! ## Records -/

/-- The name of a comparison in a request. -/
def comparisonName : Comparison → String
  | .equal => "EQUAL"
  | .greater => "GREATER"
  | .less => "LESS"
  | .greaterOrEqual => "GEQUAL"
  | .lessOrEqual => "LEQUAL"
  | .isIn => "IN"
  | .between => "BETWEEN"
  | .isNull => "ISNULL"
  | .isNotNull => "ISNOTNULL"
  | .like => "LIKE"

def Leaf.record (l : Leaf) : Json :=
  .object
    [("attribute", .string l.attributeName), ("not", .bool l.negated),
     ("op", .string (comparisonName l.comparison)), ("data", .array (l.data.map Datum.record))]

/-- A field that is left out when it has no value. -/
def optionalField (name : String) (value : Option Json) : List (String × Json) :=
  (value.map (name, ·)).toList

mutual

def Compound.record : Compound → Json
  | ⟨connective, leftLeaf, leftCompound, rightLeaf, rightCompound⟩ =>
    .object
      (("op", .string connective.text) ::
        optionalField "aleft" (leftLeaf.map Leaf.record) ++
        optionalField "cleft" (Compound.record? leftCompound) ++
        optionalField "aright" (rightLeaf.map Leaf.record) ++
        optionalField "cright" (Compound.record? rightCompound))
termination_by structural c => c

def Compound.record? : Option Compound → Option Json
  | none => none
  | some c => some c.record
termination_by structural c => c

end

def Filter.record : Filter → Json
  | leaf l => .field "atomic" l.record
  | compound c => .field "compound" c.record

end StorePlan.VectorStore
