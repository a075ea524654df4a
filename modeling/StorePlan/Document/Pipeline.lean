import StorePlan.Document.Filter
import StorePlan.Document.Projection
import StorePlan.Predicate.Lowering
import StorePlan.Settings.Basic

/-
Pipelines: the stages that a document store runs over one collection. A
chain of filters, projections, aggregates and sorts over a scan becomes one
or more stages for each operator, from the scan up.

An aggregate is a `$group` stage and, when there are grouped fields, a
`$project` stage that lifts the group key back to named fields.
-/

namespace StorePlan.Document

/-- Stages over a collection. -/
structure Pipeline where
  collection : String
  stages : List Json

/-- The name of a stage, which is its first field. -/
def stageName? : Json → Option String
  | .object ((name, _) :: _) => some name
  | _ => none

/-! ## Aggregates -/

/-- The path of the one argument that an accumulator has. -/
def argumentPath (input : Schema) (call : AggregateCall) : Emit String :=
  match call.arguments with
  | [i] => fieldPath input i
  | _ => .error (.accumulatorArguments call)

/-- An accumulator over the argument. -/
def pathAccumulator (name : String) (input : Schema) (call : AggregateCall) : Emit Json := do
  return .field name (.string (← argumentPath input call))

/-- The accumulator of a call. A count of an argument adds up ones for values other than
`NULL`. -/
def accumulator (settings : Settings) (input : Schema) (call : AggregateCall) : Emit Json :=
  match call.function with
  | .count =>
    if call.arguments = [] then .ok (.field "$sum" (.integer 1))
    else do
      let path ← argumentPath input call
      return .field "$sum" (.field "$cond" (.array
        [.field "$eq" (.array [.string path, .null]), .integer 0, .integer 1]))
  | .sum | .sumOrZero => pathAccumulator "$sum" input call
  | .min => pathAccumulator "$min" input call
  | .max => pathAccumulator "$max" input call
  | .avg => pathAccumulator "$avg" input call
  | .singleValue =>
    if settings.singleValueAsSum then pathAccumulator "$sum" input call
    else .error (.noAccumulator .singleValue)
  | .other name t => .error (.noAccumulator (.other name t))

/-- The parts of a composite key, by the names of the fields. -/
def keyParts (input : Schema) : List Nat → Emit (List (String × Json))
  | [] => .ok []
  | i :: rest => do
    let name ← fieldName input i
    let path ← fieldPath input i
    return (name, .string path) :: (← keyParts input rest)

/-- The group key: `null` for one group of all rows, a path for one field, else a document. -/
def groupKey (input : Schema) : List Nat → Emit Json
  | [] => .ok .null
  | [i] => do return .string (← fieldPath input i)
  | fields => do return .ofFields (← keyParts input fields)

/-- The accumulators of calls under the names of their output columns, the first of which is at a
position. -/
def accumulators (settings : Settings) (output input : Schema) :
    Nat → List AggregateCall → Emit (List (String × Json))
  | _, [] => .ok []
  | position, call :: rest => do
    let name ← fieldName output position
    let entry ← accumulator settings input call
    return (name, entry) :: (← accumulators settings output input (position + 1) rest)

/-- The source of an output column after grouping by several fields. -/
def liftedPath (keys : Nat) (item : String × Nat) : String × Json :=
  let (name, position) := item
  (name, .string (if position < keys then "$_id." ++ name else "$" ++ name))

/-- The stage that turns the group key back into fields, if there is a key. -/
def liftStage? (keys : Nat) (names : List String) : Option Json :=
  match keys with
  | 0 => none
  -- One grouped field is the key itself, several are parts of a document.
  | 1 =>
    let entry (item : String × Nat) : String × Json :=
      (item.1, .string ("$" ++ if item.2 = 0 then "_id" else item.1))
    some (.field "$project" (.ofFields (names.zipIdx.map entry)))
  | _ => some (.field "$project"
      (.ofFields (("_id", .integer 0) :: names.zipIdx.map (liftedPath keys))))

/-- The stages of an aggregate. -/
def aggregateStages (settings : Settings) (output input : Schema) (fields : List Nat)
    (calls : List AggregateCall) : Emit (List Json) := do
  let key ← groupKey input fields
  let results ← accumulators settings output input fields.length calls
  let group := .field "$group" (.ofFields (("_id", key) :: results))
  return group :: (liftStage? fields.length output.names).toList

/-! ## Sorts -/

/-- Sort keys as names with a direction. -/
def sortEntries (schema : Schema) : List Collation → Emit (List (String × Json))
  | [] => .ok []
  | c :: rest => do
    let name ← fieldName schema c.field
    return (name, .integer (if c.descending then -1 else 1)) :: (← sortEntries schema rest)

/-- The stages of a sort: the order if there are keys, then the rows to skip and to keep. -/
def sortStages (schema : Schema) (keys : List Collation) (offset fetch : Option UInt64) :
    Emit (List Json) := do
  let entries ← sortEntries schema keys
  let order := if keys.isEmpty then [] else [.field "$sort" (.ofFields entries)]
  let limit (name : String) : Option UInt64 → List Json
    | some n => [.field name (.nat n.toNat)]
    | none => []
  return order ++ limit "$skip" offset ++ limit "$limit" fetch

/-! ## Plans -/

/-- The stages that an operator adds over its input. -/
def operatorStages (settings : Settings) (op : Operator) (output input : Schema) :
    Emit (List Json) :=
  match op with
  | .filter condition => do
    let predicate ← (Predicate.ofCondition input condition).mapError .plan
    return [.field "$match" (← filter predicate)]
  | .project exprs => do return [.field "$project" (← projection exprs input)]
  | .aggregate fields _ calls => aggregateStages settings output input fields calls
  | .sort keys offset fetch => sortStages output keys offset fetch
  | op => .error (.operator op.kind)

/-- Whether operators of the kind can be a link of the chain. -/
def isLink : OperatorKind → Bool
  | .filter | .project | .aggregate | .sort => true
  | .scan | .join | .union | .values => false

/-- The pipeline of a chain of operators. -/
def chain (settings : Settings) : Plan → Emit Pipeline
  | ⟨.scan table _, _, _, _⟩ => .ok ⟨table, []⟩
  | ⟨op, [input], schema, _⟩ => do
    if isLink op.kind then
      let below ← chain settings input
      let stages ← operatorStages settings op schema input.schema
      return { below with stages := below.stages ++ stages }
    else .error (.operator op.kind)
  | ⟨op, inputs, _, _⟩ =>
    if isLink op.kind then .error (.plan (.inputCount op.kind inputs.length))
    else .error (.operator op.kind)
termination_by structural p => p

/-- The pipeline of a plan meant for a document store. -/
def pipeline (settings : Settings) (p : Plan) : Emit Pipeline :=
  if p.convention = .document then chain settings p else .error (.convention p.convention)

end StorePlan.Document
