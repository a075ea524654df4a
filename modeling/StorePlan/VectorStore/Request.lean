import StorePlan.Predicate.Lowering
import StorePlan.Settings.Basic
import StorePlan.Text.UpperCase
import StorePlan.VectorStore.Neighbours

/-
Requests to a vector store, compiled from chains of filters, projections and
sorts over a scan. The scan names the entity, filters become one filter over
stored attributes, a projection picks attributes and may rank the rows by one
distance call, and sorts on that distance page through the answer.
-/

namespace StorePlan.VectorStore

open Text

/-- What a field of a row holds. -/
inductive Source where
  | stored (attributeName : String)
  | distance
deriving DecidableEq

def Source.stored? : Source → Option String
  | stored name => some name
  | distance => none

/-- A request while the chain is compiled from the scan up. -/
structure Draft where
  entity : String
  /-- What the fields of the current row hold. -/
  sources : List Source
  /-- The attributes that the last projection picks; none picks all. -/
  projection : List String := []
  filter : Option Filter := none
  search : Option Search := none
  limit : Option UInt64 := none
  skip : Option UInt64 := none

/-- A request. -/
structure Request where
  entity : String
  /-- The attributes that are wanted; an empty list stands for all. -/
  projection : List String
  filter : Option Filter
  neighbours : Option Neighbours
  limit : Option UInt64
  skip : Option UInt64

namespace Draft

/-- Whether rows have been cut off. The store filters and ranks before it does. -/
def isPaged (d : Draft) : Bool := d.limit.isSome || d.skip.isSome

/-- The last field that holds the distance. -/
def distanceField? (d : Draft) : Option Nat :=
  d.sources.zipIdx.foldl (fun last item => if item.1 = .distance then some item.2 else last) none

/-- The stored attribute behind a field. -/
def stored? (d : Draft) (index : Nat) : Option String := d.sources[index]?.bind Source.stored?

/-! ## Filters -/

/-- A row type with every stored field under the name of its attribute. -/
def storedSchema (d : Draft) (input : Schema) : Schema :=
  ⟨(input.columns.zip d.sources).map fun (column, source) =>
    match source with
    | .stored name => { column with name := name }
    | .distance => column⟩

/-- Refuses a condition over a field that is not stored. -/
def checkStored (d : Draft) (condition : RowExpr) : Emit Unit :=
  match condition.fields.find? fun i => (d.stored? i).isNone with
  | some i => .error (.computedField i)
  | none => .ok ()

/-- Adds a condition over rows of the type `input`. -/
def addFilter (d : Draft) (condition : RowExpr) (input : Schema) : Emit Draft := do
  -- A filter over rows that have been cut off would have to come last.
  if d.isPaged then .error (.operator .filter)
  else
    d.checkStored condition
    let predicate ← (Predicate.ofCondition (d.storedSchema input) condition).mapError .plan
    let added ← Filter.ofPredicate predicate
    let filter :=
      match d.filter with
      | some filter => Filter.join .and filter added
      | none => added
    return { d with filter := some filter }

/-! ## Projections -/

/-- The components of an array literal. -/
def literalComponents (cause : MalformedDistance) (e : RowExpr) : Emit Components :=
  match e.literal? with
  | some (.array items) => (Components.ofValues items).mapError .literal
  | _ => .error (.distance cause)

/-- The metric that a literal names, in any case. -/
def literalMetric (e : RowExpr) : Emit Metric :=
  match e.literal? with
  | some (.string name) => Metric.ofName (upperText name)
  | _ => .error (.distance .metric)

/-- The search for a target, a query vector, a metric and perhaps weights. -/
def searchOf (d : Draft) (target query metric : RowExpr) (weights : Option RowExpr) :
    Emit Search :=
  match target.field?.bind d.stored? with
  | none => .error (.distance .target)
  | some name => do
    let metric ← literalMetric metric
    let query ← literalComponents .query query
    let weights ← weights.mapM (literalComponents .weights)
    return { attributeName := name, metric, query := some query, weights }

/-- The search that a distance call asks for. -/
def search? (d : Draft) : List RowExpr → Emit Search
  | [target, query, metric] => d.searchOf target query metric none
  | [target, query, metric, weights] => d.searchOf target query metric (some weights)
  | operands => .error (.distance (.operandCount operands.length))

/-- What a projected expression holds, and the search so far, to which a distance call adds. -/
def projectField (d : Draft) (input : Schema) (search : Option Search) :
    RowExpr → Emit (Source × Option Search)
  | .field i _ =>
    match d.sources[i]? with
    | some source => .ok (source, search)
    | none => .error (.plan (.fieldOutOfRange .project i input.width))
  | .call .distance operands _ =>
    if search.isSome then .error (.distance .repeated)
    else do return (.distance, some (← d.search? operands))
  | e => .error (.expression e)

def projectFields (d : Draft) (input : Schema) (search : Option Search) :
    List (String × RowExpr) → Emit (List Source × Option Search)
  | [] => .ok ([], search)
  | (_, e) :: rest => do
    let (source, search) ← d.projectField input search e
    let (sources, search) ← projectFields d input search rest
    return (source :: sources, search)

/-- Whether an expression ranks rows. -/
def ranks (e : RowExpr) : Bool := e.op? == some .distance

/-- Puts a projection of rows of the type `input` on top. -/
def project (d : Draft) (exprs : List (String × RowExpr)) (input : Schema) : Emit Draft := do
  if (exprs.any fun item => ranks item.2) && d.isPaged then .error (.operator .project)
  else
    let (sources, search) ← d.projectFields input d.search exprs
    return { d with sources, search, projection := sources.filterMap Source.stored? }

/-! ## Sorts -/

/-- Whether the store can order by a key. -/
def canSortBy (d : Draft) (key : Collation) : Bool :=
  d.distanceField? == some key.field && !key.descending

/-- The name of a field for messages. -/
def fieldName (schema : Schema) (index : Nat) : String :=
  match schema.column? index with
  | some column => column.name
  | none => "$" ++ natText index

/-- Puts a sort on top, whose bounds replace earlier ones. -/
def sort (d : Draft) (keys : List Collation) (offset fetch : Option UInt64) (output : Schema) :
    Emit Draft :=
  match keys.find? fun key => !d.canSortBy key with
  | some key => .error (.sortKey (fieldName output key.field))
  | none => .ok { d with skip := offset <|> d.skip, limit := fetch <|> d.limit }

/-! ## Plans -/

/-- Puts an operator on top of the draft of its input. -/
def add (d : Draft) (op : Operator) (output input : Schema) : Emit Draft :=
  match op with
  | .filter condition => d.addFilter condition input
  | .project exprs => d.project exprs input
  | .sort keys offset fetch => d.sort keys offset fetch output
  | op => .error (.operator op.kind)

/-- Whether operators of the kind can be a link of the chain. -/
def isLink : OperatorKind → Bool
  | .filter | .project | .sort => true
  | .scan | .aggregate | .join | .union | .values => false

/-- The draft of a chain of operators. -/
def ofPlan : Plan → Emit Draft
  | ⟨.scan table schema, _, _, _⟩ => .ok { entity := table, sources := schema.names.map .stored }
  | ⟨op, [input], schema, _⟩ => do
    if isLink op.kind then
      let below ← ofPlan input
      below.add op schema input.schema
    else .error (.operator op.kind)
  | ⟨op, inputs, _, _⟩ =>
    if isLink op.kind then .error (.plan (.inputCount op.kind inputs.length))
    else .error (.operator op.kind)
termination_by structural p => p

/-- The sum of two numbers of rows, or the largest one where the sum would be larger. -/
def addRows (a b : UInt64) : UInt64 :=
  -- A sum that has wrapped around is less than what was added to.
  if a + b < a then 0xFFFFFFFFFFFFFFFF else a + b

/-- A number of rows as a number of neighbours, if it is small enough. -/
def neighbours? (rows : UInt64) : Option UInt32 :=
  if rows ≤ 0xFFFFFFFF then some rows.toUInt32 else none

/-- The search for as many neighbours as rows are skipped and kept, and for at most `cap`. Its bound
stays open if all rows are kept. -/
def boundSearch (d : Draft) (cap : UInt32) (s : Search) : Search :=
  match d.limit with
  | some limit =>
    match neighbours? (addRows limit (d.skip.getD 0)) with
    | some wanted => s.within (min wanted cap)
    | none => s.within cap
  | none => s

@[simp] theorem attributeName_boundSearch (d : Draft) (cap : UInt32) (s : Search) :
    (d.boundSearch cap s).attributeName = s.attributeName := by
  unfold boundSearch
  split
  · split <;> rfl
  · rfl

/-- The request for a whole chain. -/
def finish (d : Draft) (cap : UInt32) : Request :=
  { entity := d.entity
    projection := d.projection
    filter := d.filter
    neighbours := d.search.map fun s => (d.boundSearch cap s).finish cap
    limit := d.limit
    skip := d.skip }

end Draft

/-- The request for a plan meant for a vector store. -/
def request (settings : Settings) (p : Plan) : Emit Request :=
  if p.convention = .vector then do return (← Draft.ofPlan p).finish settings.knnLimit
  else .error (.convention p.convention)

def Request.record (r : Request) : Json :=
  .object
    ([("entity", .string r.entity)] ++
      optionalField "projection" (if r.projection.isEmpty then none
        else some (.strings r.projection)) ++
      optionalField "where" (r.filter.map Filter.record) ++
      optionalField "knn" (r.neighbours.map Neighbours.record) ++
      optionalField "limit" (r.limit.map fun n => .nat n.toNat) ++
      optionalField "skip" (r.skip.map fun n => .nat n.toNat))

end StorePlan.VectorStore
