/-
Conventions: which kind of store a plan is meant for.
-/

namespace StorePlan

/-- The mark that every node of a plan carries. -/
inductive Convention where
  /-- Not yet assigned. -/
  | logical
  /-- A relational store, by the name of the product. -/
  | sql (store : String)
  /-- A document store. -/
  | document
  /-- A vector store. -/
  | vector
deriving DecidableEq, Inhabited

namespace Convention

def text : Convention → String
  | logical => "LOGICAL"
  | sql store => "SQL(" ++ store ++ ")"
  | document => "DOCUMENT"
  | vector => "VECTOR"

/-- Whether aggregates may be computed over distinct arguments. -/
def allowsDistinct : Convention → Bool
  | logical | sql _ => true
  | document | vector => false

/-- Whether rows may be grouped in more than one way at once. -/
def allowsGroupingSets : Convention → Bool
  | logical | sql _ => true
  | document | vector => false

end Convention

end StorePlan
