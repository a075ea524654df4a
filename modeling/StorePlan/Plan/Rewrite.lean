import StorePlan.Plan.Build

/-
Rewriting plans. Nodes are never changed; a copy over other inputs or with
another payload is built and checked anew.
-/

namespace StorePlan.Plan

/-- The same operator over other inputs. -/
def copy (p : Plan) (inputs : List Plan) : Except PlanError Plan :=
  build p.op inputs p.convention

/-- Another payload of the same kind over other inputs. -/
def copyWith (p : Plan) (op : Operator) (inputs : List Plan) : Except PlanError Plan := do
  require (op.kind == p.kind) (.otherKind p.kind op.kind)
  build op inputs p.convention

/-- A rule sees one node at a time, may keep notes in a state, and may fail. -/
abbrev Rule (σ : Type) := Plan → ExceptT PlanError (StateM σ) Plan

mutual

/-- Rewrites from the leaves up: the inputs from left to right, then a copy of the node over the
results, to which the rule is applied. The first failure ends the rewriting, with the notes as
they are then. -/
def transform (rule : Rule σ) : Rule σ
  | ⟨op, inputs, _, convention⟩ => do
    let inputs ← transformAll rule inputs
    let copied ← liftM (build op inputs convention)
    rule copied
termination_by structural p => p

def transformAll (rule : Rule σ) : List Plan → ExceptT PlanError (StateM σ) (List Plan)
  | [] => pure []
  | p :: rest => do
    let p ← transform rule p
    let rest ← transformAll rule rest
    return p :: rest
termination_by structural ps => ps

end

end StorePlan.Plan
