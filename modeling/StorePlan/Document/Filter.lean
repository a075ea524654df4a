import StorePlan.Document.Error

/-
Filter documents: what a predicate becomes in a `$match` stage. A leaf is an
object whose one field is the attribute; connectives are `$and` and `$or`.
-/

namespace StorePlan.Document

/-- The literals of a leaf, brought to the attribute's type. -/
def atomValues (a : Atom) : List Value → Emit (List Value)
  | [] => .ok []
  | v :: rest => do
    let v ← (v.coerce a.type).mapError .coercion
    return v :: (← atomValues a rest)

/-- The encoded literal at a position. -/
def operand (a : Atom) (values : List Value) (position : Nat) : Emit Json :=
  match values[position]? with
  | some v => encodeLiteral v
  | none => .error (.malformedAtom a)

/-- A condition with one operand. -/
def comparison (name : String) (a : Atom) (values : List Value) : Emit Json := do
  return .field name (← operand a values 0)

/-- The condition of an order comparison, a range or a pattern that is not negated. -/
def positiveCondition (a : Atom) (values : List Value) : Emit Json :=
  match a.comparison with
  | .greater => comparison "$gt" a values
  | .less => comparison "$lt" a values
  | .greaterOrEqual => comparison "$gte" a values
  | .lessOrEqual => comparison "$lte" a values
  | .between => do
    let low ← operand a values 0
    let high ← operand a values 1
    return .object [("$gte", low), ("$lte", high)]
  | .like =>
    match values with
    | .string pattern :: _ => .ok (.field "$regex" (.string (regexOfLike pattern)))
    | _ => .error (.malformedAtom a)
  | _ => .error (.malformedAtom a)

/-- The condition that a leaf puts on its attribute. -/
def condition (a : Atom) (values : List Value) : Emit Json :=
  match a.comparison with
  | .equal => comparison (if a.negated then "$ne" else "$eq") a values
  | .isIn => do
    return .field (if a.negated then "$nin" else "$in") (.array (← encodeLiterals values))
  | .isNull => .ok (.field (if a.negated then "$ne" else "$eq") .null)
  | .isNotNull => .ok (.field (if a.negated then "$eq" else "$ne") .null)
  | _ => do
    let positive ← positiveCondition a values
    return if a.negated then .field "$not" positive else positive

/-- The filter document of a leaf. -/
def atomFilter (a : Atom) : Emit Json := do
  let values ← atomValues a a.values
  return .field a.attributeName (← condition a values)

/-- The field that stands for a connective. -/
def connectiveField : Connective → String
  | .and => "$and"
  | .or => "$or"

/-- The filter document of a predicate. -/
def filter : Predicate → Emit Json
  | .atomic a => atomFilter a
  | .compound c left right => do
    let left ← filter left
    let right ← filter right
    return .field (connectiveField c) (.array [left, right])

end StorePlan.Document
