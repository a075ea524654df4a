import StorePlan.VectorStore.Filter

/-
Requests for nearest neighbours of a query vector: which stored vectors are
compared, how the distance is measured, and how many neighbours are wanted.
-/

namespace StorePlan.VectorStore

/-- How the distance of two vectors is measured. -/
inductive Metric where
  | l1
  | l2
  | l2Squared
  | chiSquared
  | cosine
deriving DecidableEq

namespace Metric

def name : Metric → String
  | l1 => "L1"
  | l2 => "L2"
  | l2Squared => "L2SQUARED"
  | chiSquared => "CHISQUARED"
  | cosine => "COSINE"

def all : List Metric := [l1, l2, l2Squared, chiSquared, cosine]

/-- The metric of a name, which has to be in capitals. -/
def ofName (name : String) : Emit Metric :=
  match all.find? (·.name == name) with
  | some m => .ok m
  | none => .error (.metric name)

theorem ofName_name (m : Metric) : ofName m.name = .ok m := by cases m <;> rfl

end Metric

/-- A request whose bound may still be open. -/
structure Search where
  /-- The stored vectors that are compared. -/
  attributeName : String
  metric : Metric
  bound : Option UInt32 := none
  query : Option Components := none
  weights : Option Components := none

/-- A finished request. -/
structure Neighbours where
  attributeName : String
  /-- How many neighbours are wanted. -/
  count : UInt32
  metric : Metric
  query : Option Components
  weights : Option Components

/-- The request with this bound. -/
def Search.within (s : Search) (bound : UInt32) : Search := { s with bound := some bound }

/-- Closes a request: a bound that is still open is the given one, since the store takes no
request without one. -/
def Search.finish (s : Search) (bound : UInt32) : Neighbours :=
  ⟨s.attributeName, s.bound.getD bound, s.metric, s.query, s.weights⟩

def Neighbours.record (n : Neighbours) : Json :=
  .object
    ([("attribute", .string n.attributeName), ("k", .nat n.count.toNat),
      ("distance", .string n.metric.name)] ++
      optionalField "query" (n.query.map Components.record) ++
      optionalField "weights" (n.weights.map Components.record))

end StorePlan.VectorStore
