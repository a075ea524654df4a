import Mathlib.Data.List.Forall2
import Mathlib.Data.Option.Basic
import StorePlan.Proofs.Sql.Wording

/-
Trees that differ in what stands in quotes only: in the contents of literals,
in parts of names and in aliases. `Dialect.contents` lists what a tree has
there, in the order in which a dialect writes it.

Nothing that decides on how a tree is written depends on these contents.
-/

namespace StorePlan.Sql

/-! ## Respelling -/

/-- A part of a name for another; a star is no name and stays a star. -/
def SamePart (p q : String) : Prop := p = "*" ↔ q = "*"

/-- What stands in the quotes of a literal. -/
def Literal.contents : Literal → List String
  | string s | date s | time s | timestamp s | interval s _ => [s]
  | null | boolean _ | exact _ | approximate _ | unit _ => []

/-- A literal of the same kind with any other content. One without quotes stays as it is. -/
inductive Literal.Respells : Literal → Literal → Prop where
  | bare {l : Literal} : l.contents = [] → Respells l l
  | string (s t : String) : Respells (string s) (string t)
  | date (s t : String) : Respells (date s) (date t)
  | time (s t : String) : Respells (time s) (time t)
  | timestamp (s t : String) : Respells (timestamp s) (timestamp t)
  | interval (s t : String) (q : IntervalQualifier) : Respells (interval s q) (interval t q)

namespace Node

/-- The same tree with any other contents of literals, parts of names and aliases. Numbers and
names of functions, which are not quoted, stay as they are. -/
inductive Respells : Node → Node → Prop where
  | name {ps qs : List String} : List.Forall₂ SamePart ps qs → Respells (name ps) (name qs)
  | star : Respells star star
  | literal {l k : Literal} : l.Respells k → Respells (literal l) (literal k)
  | call {op : Op} {ns ms : List Node} {distinct : Bool} :
    List.Forall₂ Respells ns ms → Respells (call op ns distinct) (call op ms distinct)
  | cast {n m : Node} {target : DataType} : Respells n m → Respells (cast n target) (cast m target)
  | caseOf {s t : Option Node} {bs cs : List (Node × Node)} {o p : Option Node} :
    Option.Rel Respells s t → List.Forall₂ (Prod.RProd Respells Respells) bs cs →
      Option.Rel Respells o p → Respells (caseOf s bs o) (caseOf t cs p)
  | parameter {i : Nat} {type : Option DataType} : Respells (parameter i type) (parameter i type)
  | array {ns ms : List Node} : List.Forall₂ Respells ns ms → Respells (array ns) (array ms)
  | window {n m : Node} {ps qs os us : List Node} :
    Respells n m → List.Forall₂ Respells ps qs → List.Forall₂ Respells os us →
      Respells (window n ps os) (window m qs us)
  | aliased {n m : Node} (a b : String) : Respells n m → Respells (aliased n a) (aliased m b)
  | sortKey {n m : Node} {descending : Bool} {nullsFirst : Option Bool} :
    Respells n m → Respells (sortKey n descending nullsFirst) (sortKey m descending nullsFirst)
  | join {l l' r r' : Node} {kind : JoinKind} {c c' : Option Node} :
    Respells l l' → Respells r r' → Option.Rel Respells c c' →
      Respells (join l r kind c) (join l' r' kind c')
  | select {distinct : Bool} {items items' groupBy groupBy' orderBy orderBy' : List Node}
    {source source' condition condition' having having' offset offset' fetch fetch' :
      Option Node} :
    List.Forall₂ Respells items items' → Option.Rel Respells source source' →
      Option.Rel Respells condition condition' → List.Forall₂ Respells groupBy groupBy' →
      Option.Rel Respells having having' → List.Forall₂ Respells orderBy orderBy' →
      Option.Rel Respells offset offset' → Option.Rel Respells fetch fetch' →
      Respells
        (select ⟨distinct, items, source, condition, groupBy, having, orderBy, offset, fetch⟩)
        (select ⟨distinct, items', source', condition', groupBy', having', orderBy', offset',
          fetch'⟩)
  | setOperation {op : SetOperator} {l l' r r' : Node} :
    Respells l l' → Respells r r' → Respells (setOperation op l r) (setOperation op l' r')
  | values {rows rows' : List (List Node)} :
    List.Forall₂ (List.Forall₂ Respells) rows rows' → Respells (values rows) (values rows')

end Node

/-! ## Contents -/

namespace Dialect

mutual

/-- What stands in the quotes of a tree, in the order in which the dialect writes it. Where a
single value is found by counting, the operands behind the first are not written. -/
def contents (d : Dialect) : Node → List String
  | .name parts => parts.filter (· ≠ "*")
  | .star | .parameter _ _ => []
  | .literal l => l.contents
  | .call op operands _ =>
    if op = .singleValue ∧ d.countsSingleValues then (d.allContents operands).headD []
    else (d.allContents operands).flatten
  | .cast operand _ => d.contents operand
  | .caseOf subject branches otherwise =>
    d.optionContents subject ++ d.branchContents branches ++ d.optionContents otherwise
  | .array items => (d.allContents items).flatten
  | .window called partitionBy orderBy =>
    d.contents called ++ ((d.allContents partitionBy).flatten ++ (d.allContents orderBy).flatten)
  | .aliased operand name => d.contents operand ++ [name]
  | .sortKey operand _ _ => d.contents operand
  | .join left right _ condition =>
    d.contents left ++ d.contents right ++ d.optionContents condition
  | .select block => d.selectContents block
  | .setOperation _ left right => d.contents left ++ d.contents right
  | .values rows => (d.rowContents rows).flatten
termination_by structural n => n

def allContents (d : Dialect) : List Node → List (List String)
  | [] => []
  | n :: rest => d.contents n :: d.allContents rest
termination_by structural ns => ns

def optionContents (d : Dialect) : Option Node → List String
  | none => []
  | some n => d.contents n
termination_by structural n => n

def branchContents (d : Dialect) : List (Node × Node) → List String
  | [] => []
  | (condition, result) :: rest =>
    d.contents condition ++ d.contents result ++ d.branchContents rest
termination_by structural bs => bs

def rowContents (d : Dialect) : List (List Node) → List (List String)
  | [] => []
  | row :: rest => (d.allContents row).flatten :: d.rowContents rest
termination_by structural rows => rows

def selectContents (d : Dialect) : Select Node → List String
  | ⟨_, items, source, condition, groupBy, having, orderBy, offset, fetch⟩ =>
    (d.allContents items).flatten ++ d.optionContents source ++ d.optionContents condition ++
      (d.allContents groupBy).flatten ++ d.optionContents having ++
      (d.allContents orderBy).flatten ++
      match d.features.pagination with
      | .offsetFetch => d.optionContents offset ++ d.optionContents fetch
      | .limitOffset => d.optionContents fetch ++ d.optionContents offset
termination_by structural block => block

end

@[simp] theorem length_allContents (d : Dialect) (ns : List Node) :
    (d.allContents ns).length = ns.length := by
  induction ns with
  | nil => rfl
  | cons n rest ih => simp [allContents, ih]

end Dialect

/-! ## What does not depend on the contents -/

theorem isEmpty_eq_of_forall₂ {α β : Type} {R : α → β → Prop} {as : List α} {bs : List β}
    (h : List.Forall₂ R as bs) : bs.isEmpty = as.isEmpty := by
  cases h <;> rfl

namespace Node

section

variable {n m : Node} {ns ms : List Node}

theorem isQuery_eq (h : n.Respells m) : m.isQuery = n.isQuery := by cases h <;> rfl

theorem isArray_eq (h : n.Respells m) : m.isArray = n.isArray := by cases h <;> rfl

theorem isPaged_eq_of_respells {block other : Select Node}
    (h : (select block).Respells (select other)) : other.isPaged = block.isPaged := by
  cases h with
  | select _ _ _ _ _ _ hoffset hfetch => cases hoffset <;> cases hfetch <;> rfl

theorem any_eq_of_respells {f : Node → Bool} (h : List.Forall₂ Respells ns ms)
    (hf : ∀ {n m}, n.Respells m → f m = f n) : ms.any f = ns.any f := by
  induction h with
  | nil => rfl
  | cons h _ ih => rw [List.any_cons, List.any_cons, hf h, ih]

end

mutual

theorem hasAggregate_eq : ∀ {n m : Node}, n.Respells m → m.hasAggregate = n.hasAggregate
  | .name _, _, .name _ | .star, _, .star | .literal _, _, .literal _
  | .parameter _ _, _, .parameter | .window .., _, .window .. | .join .., _, .join ..
  | .select _, _, .select .. | .setOperation .., _, .setOperation .. | .values _, _, .values _ =>
    rfl
  | .call op ns _, _, .call h => by simp only [hasAggregate, anyHasAggregate_eq h]
  | .cast _ _, _, .cast h => by simp only [hasAggregate, hasAggregate_eq h]
  | .caseOf s bs o, _, .caseOf hs hb ho => by
    simp only [hasAggregate, optionHasAggregate_eq hs, branchHasAggregate_eq hb,
      optionHasAggregate_eq ho]
  | .array ns, _, .array h => by simp only [hasAggregate, anyHasAggregate_eq h]
  | .aliased n _, _, .aliased _ _ h => by simp only [hasAggregate, hasAggregate_eq h]
  | .sortKey n _ _, _, .sortKey h => by simp only [hasAggregate, hasAggregate_eq h]
termination_by structural n => n

theorem anyHasAggregate_eq : ∀ {ns ms : List Node}, List.Forall₂ Respells ns ms →
    anyHasAggregate ms = anyHasAggregate ns
  | [], _, .nil => rfl
  | n :: rest, _, .cons h hrest => by
    simp only [anyHasAggregate, hasAggregate_eq h, anyHasAggregate_eq hrest]
termination_by structural ns => ns

theorem optionHasAggregate_eq : ∀ {n m : Option Node}, Option.Rel Respells n m →
    optionHasAggregate m = optionHasAggregate n
  | none, _, .none => rfl
  | some _, _, .some h => hasAggregate_eq h
termination_by structural n => n

theorem branchHasAggregate_eq : ∀ {bs cs : List (Node × Node)},
    List.Forall₂ (Prod.RProd Respells Respells) bs cs → branchHasAggregate cs = branchHasAggregate bs
  | [], _, .nil => rfl
  | (w, t) :: rest, _, .cons (.intro hw ht) hrest => by
    simp only [branchHasAggregate, hasAggregate_eq hw, hasAggregate_eq ht,
      branchHasAggregate_eq hrest]
termination_by structural bs => bs

end

theorem Literal.raws_eq {l k : Literal} (h : l.Respells k) : k.raws = l.raws := by
  cases h <;> rfl

mutual

/-- The texts that are written as they are stay the same. -/
theorem raws_eq : ∀ {n m : Node}, n.Respells m → m.raws = n.raws
  | .name _, _, .name _ | .star, _, .star | .parameter _ _, _, .parameter => rfl
  | .literal _, _, .literal h => by simp only [raws, Literal.raws_eq h]
  | .call _ ns _, _, .call h => by simp only [raws, allRaws_eq h]
  | .cast n _, _, .cast h => by simp only [raws, raws_eq h]
  | .caseOf s bs o, _, .caseOf hs hb ho => by
    simp only [raws, optionRaws_eq hs, branchRaws_eq hb, optionRaws_eq ho]
  | .array ns, _, .array h => by simp only [raws, allRaws_eq h]
  | .window n ps os, _, .window hn hp ho => by
    simp only [raws, raws_eq hn, allRaws_eq hp, allRaws_eq ho]
  | .aliased n _, _, .aliased _ _ h => by simp only [raws, raws_eq h]
  | .sortKey n _ _, _, .sortKey h => by simp only [raws, raws_eq h]
  | .join l r _ c, _, .join hl hr hc => by
    simp only [raws, raws_eq hl, raws_eq hr, optionRaws_eq hc]
  | .select ⟨_, items, source, condition, groupBy, having, orderBy, offset, fetch⟩, _,
    .select hitems hsource hcondition hgroup hhaving horder hoffset hfetch => by
    simp only [raws, selectRaws, allRaws_eq hitems, optionRaws_eq hsource,
      optionRaws_eq hcondition, allRaws_eq hgroup, optionRaws_eq hhaving, allRaws_eq horder,
      optionRaws_eq hoffset, optionRaws_eq hfetch]
  | .setOperation _ l r, _, .setOperation hl hr => by simp only [raws, raws_eq hl, raws_eq hr]
  | .values rows, _, .values h => by simp only [raws, rowRaws_eq h]
termination_by structural n => n

theorem allRaws_eq : ∀ {ns ms : List Node}, List.Forall₂ Respells ns ms → allRaws ms = allRaws ns
  | [], _, .nil => rfl
  | n :: rest, _, .cons h hrest => by simp only [allRaws, raws_eq h, allRaws_eq hrest]
termination_by structural ns => ns

theorem optionRaws_eq : ∀ {n m : Option Node}, Option.Rel Respells n m →
    optionRaws m = optionRaws n
  | none, _, .none => rfl
  | some _, _, .some h => raws_eq h
termination_by structural n => n

theorem branchRaws_eq : ∀ {bs cs : List (Node × Node)},
    List.Forall₂ (Prod.RProd Respells Respells) bs cs → branchRaws cs = branchRaws bs
  | [], _, .nil => rfl
  | (w, t) :: rest, _, .cons (.intro hw ht) hrest => by
    simp only [branchRaws, raws_eq hw, raws_eq ht, branchRaws_eq hrest]
termination_by structural bs => bs

theorem rowRaws_eq : ∀ {rows rows' : List (List Node)},
    List.Forall₂ (List.Forall₂ Respells) rows rows' → rowRaws rows' = rowRaws rows
  | [], _, .nil => rfl
  | row :: rest, _, .cons h hrest => by simp only [rowRaws, allRaws_eq h, rowRaws_eq hrest]
termination_by structural rows => rows

end

end Node

namespace Dialect

variable {op : Op} {ns ms : List Node}

theorem roundingUnit?_eq (h : List.Forall₂ Node.Respells ns ms) :
    roundingUnit? op ms = roundingUnit? op ns := by
  match h with
  | .nil | .cons _ .nil | .cons _ (.cons _ (.cons _ _)) => simp [roundingUnit?]
  | .cons _ (.cons h .nil) =>
    cases h with
    | @literal l _ h => cases l <;> cases h <;> rfl
    | _ => rfl

theorem checkNesting_eq (d : Dialect) (h : List.Forall₂ Node.Respells ns ms) :
    d.checkNesting op ms = d.checkNesting op ns := by
  rw [checkNesting, Node.anyHasAggregate_eq h, ← checkNesting]

theorem rounding?_eq (d : Dialect) (h : List.Forall₂ Node.Respells ns ms) :
    d.rounding? op ms = d.rounding? op ns := by
  rw [rounding?, roundingUnit?_eq h, ← rounding?]

theorem checkOperands_eq (h : List.Forall₂ Node.Respells ns ms) :
    checkOperands op ms = checkOperands op ns := by
  rw [checkOperands, ← h.length_eq, ← checkOperands]

/-- A call that rounds to a unit has contents in its first operand only. -/
theorem flatten_allContents_of_rounding? {d : Dialect} {r : Rounding}
    (h : d.rounding? op ns = .ok (some r)) :
    (d.allContents ns).flatten = (d.allContents ns).headD [] := by
  have hunit : roundingUnit? op ns ≠ none := by
    intro hnone
    simp [rounding?, hnone] at h
  unfold roundingUnit? at hunit
  split at hunit
  · simp [allContents, contents, Literal.contents]
  · contradiction

end Dialect

end StorePlan.Sql
