import StorePlan.Proofs.Outcome
import StorePlan.VectorStore.Datum

/-
Data that goes to a vector store and comes back. What comes back is the value
that was sent, with its small integers as wide as the store has them, and it
is sent as the same datum again.

Each kind of component is read off a value in one way and made into a value in
another; `Reads` says what the two have to do with each other, and all that
follows on vectors is said once for any such pair.
-/

namespace StorePlan

open VectorStore

/-! ## What can be sent -/

/-- The kinds of components that a vector may have. -/
inductive ComponentKind where
  | bool
  | int
  | long
  | single
  | double

/-- Whether a value can be a component of a vector of the kind. -/
def ComponentKind.Admits : ComponentKind → Value → Prop
  | bool, .boolean _ => True
  | int, .tinyInt _ => True
  | int, .smallInt _ => True
  | int, .integer _ => True
  | long, .bigInt _ => True
  | single, .real _ => True
  | double, .double _ => True
  | _, _ => False

namespace Value

/-- The same value, but for integers of 8 and of 16 bits, for which the same number stands in 32
bits. -/
inductive Widens : Value → Value → Prop where
  | tinyInt {i : Int8} {j : Int32} : j.toInt = i.toInt → Widens (tinyInt i) (integer j)
  | smallInt {i : Int16} {j : Int32} : j.toInt = i.toInt → Widens (smallInt i) (integer j)
  | null : Widens null null
  | boolean (b : Bool) : Widens (boolean b) (boolean b)
  | integer (i : Int32) : Widens (integer i) (integer i)
  | bigInt (i : Int64) : Widens (bigInt i) (bigInt i)
  | real (x : Number.Single) : Widens (real x) (real x)
  | double (x : Number.Double) : Widens (double x) (double x)
  | string (s : String) : Widens (string s) (string s)
  | array {items others : List Value} :
    List.Forall₂ Widens items others → Widens (array items) (array others)

end Value

namespace VectorStore

open Components

/-! ## Kinds of components -/

/-- How components of a kind are read off values and made into values: what admits one of the kind
has one, which is the value again but for its width, and a vector that starts with such a value is
collected as one of the kind. -/
structure Reads {α : Type} (kind : ComponentKind) (pick : Value → Option α) (make : α → Value)
    (wrap : List α → Components) : Prop where
  isSome_iff : ∀ v, (pick v).isSome ↔ kind.Admits v
  pick_make : ∀ a, pick (make a) = some a
  widens : ∀ v a, pick v = some a → v.Widens (make a)
  values_wrap : ∀ as, (wrap as).values = as.map make
  ofValues_cons : ∀ v rest, kind.Admits v →
    ofValues (v :: rest) = (collect pick (v :: rest)).map wrap

namespace Components

/-! ## Collecting -/

section Collecting

variable {α : Type} {kind : ComponentKind} {pick : Value → Option α} {make : α → Value}
  {wrap : List α → Components} {v : Value} {vs rest : List Value} {as : List α} {c : Components}

end Collecting

end Components

namespace Datum

section Arrays

variable {items : List Value} {d : Datum}

end Arrays

/-- The first item decides on the kind of a vector, whatever its width is. -/
example : ofValue (.array [.tinyInt 3, .integer 70000]) = .ok (.vector (.ints [3, 70000])) := rfl

end Datum

end VectorStore

end StorePlan
