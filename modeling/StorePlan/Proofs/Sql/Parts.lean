import StorePlan.Sql.Node

/-
The nodes right below a node, what is reached through them, and induction
over them.
-/

namespace StorePlan.Sql

/-- The nodes right below a block. -/
def Select.parts (block : Select Node) : List Node :=
  block.items ++ block.source.toList ++ block.condition.toList ++ block.groupBy ++
    block.having.toList ++ block.orderBy ++ block.offset.toList ++ block.fetch.toList

namespace Node

/-- The nodes right below a node. -/
def parts : Node → List Node
  | name _ | star | literal _ | parameter _ _ => []
  | call _ operands _ => operands
  | cast operand _ | aliased operand _ | sortKey operand _ _ => [operand]
  | caseOf subject branches otherwise =>
    subject.toList ++ branches.flatMap (fun branch => [branch.1, branch.2]) ++ otherwise.toList
  | array items => items
  | window called partitionBy orderBy => called :: (partitionBy ++ orderBy)
  | join left right _ condition => left :: right :: condition.toList
  | select block => block.parts
  | setOperation _ left right => [left, right]
  | values rows => rows.flatten

def isJoin : Node → Bool
  | join .. => true
  | _ => false

/-- A node is or holds another one, where only some nodes are looked into. -/
inductive Reaches (enters : Node → Bool) : Node → Node → Prop where
  | self (n : Node) : Reaches enters n n
  | inside {n part m : Node} :
    enters n = true → part ∈ n.parts → Reaches enters part m → Reaches enters n m

theorem Reaches.mono {enters enters' : Node → Bool} {n m : Node} (h : Reaches enters n m)
    (hsub : ∀ k, enters k = true → enters' k = true) : Reaches enters' n m := by
  induction h with
  | self n => exact .self n
  | inside hn hpart _ ih => exact .inside (hsub _ hn) hpart ih

/-! ## Induction over the parts -/

/-- What the parts of a node hand up to it. -/
def Ascends (P : Node → Prop) : Prop := ∀ n, (∀ m ∈ n.parts, P m) → P n

mutual

theorem ascends_node {P : Node → Prop} (h : Ascends P) : ∀ n, P n
  | .name _ | .star | .literal _ | .parameter _ _ => h _ (List.forall_mem_nil _)
  | .call _ operands _ => h _ (ascends_all h operands)
  | .cast operand _ => h _ (List.forall_mem_singleton.2 (ascends_node h operand))
  | .caseOf subject branches otherwise =>
    h _ (List.forall_mem_append.2
      ⟨List.forall_mem_append.2 ⟨ascends_option h subject, ascends_branches h branches⟩,
        ascends_option h otherwise⟩)
  | .array items => h _ (ascends_all h items)
  | .window called partitionBy orderBy =>
    h _ (List.forall_mem_cons.2 ⟨ascends_node h called,
      List.forall_mem_append.2 ⟨ascends_all h partitionBy, ascends_all h orderBy⟩⟩)
  | .aliased operand _ => h _ (List.forall_mem_singleton.2 (ascends_node h operand))
  | .sortKey operand _ _ => h _ (List.forall_mem_singleton.2 (ascends_node h operand))
  | .join left right _ condition =>
    h _ (List.forall_mem_cons.2 ⟨ascends_node h left,
      List.forall_mem_cons.2 ⟨ascends_node h right, ascends_option h condition⟩⟩)
  | .select block => h _ (ascends_select h block)
  | .setOperation _ left right =>
    h _ (List.forall_mem_cons.2 ⟨ascends_node h left,
      List.forall_mem_singleton.2 (ascends_node h right)⟩)
  | .values rows => h _ (ascends_rows h rows)

theorem ascends_all {P : Node → Prop} (h : Ascends P) : ∀ ns : List Node, ∀ m ∈ ns, P m
  | [] => List.forall_mem_nil _
  | n :: rest => List.forall_mem_cons.2 ⟨ascends_node h n, ascends_all h rest⟩

theorem ascends_option {P : Node → Prop} (h : Ascends P) : ∀ n : Option Node, ∀ m ∈ n.toList, P m
  | none => List.forall_mem_nil _
  | some n => List.forall_mem_singleton.2 (ascends_node h n)

theorem ascends_branches {P : Node → Prop} (h : Ascends P) : ∀ bs : List (Node × Node),
    ∀ m ∈ bs.flatMap (fun branch => [branch.1, branch.2]), P m
  | [] => List.forall_mem_nil _
  | (condition, result) :: rest =>
    List.forall_mem_cons.2 ⟨ascends_node h condition,
      List.forall_mem_cons.2 ⟨ascends_node h result, ascends_branches h rest⟩⟩

theorem ascends_rows {P : Node → Prop} (h : Ascends P) :
    ∀ rows : List (List Node), ∀ m ∈ rows.flatten, P m
  | [] => List.forall_mem_nil _
  | row :: rest => List.forall_mem_append.2 ⟨ascends_all h row, ascends_rows h rest⟩

theorem ascends_select {P : Node → Prop} (h : Ascends P) :
    ∀ block : Select Node, ∀ m ∈ block.parts, P m
  | ⟨_, items, source, condition, groupBy, having, orderBy, offset, fetch⟩ => by
    simp only [Select.parts, List.forall_mem_append]
    exact ⟨⟨⟨⟨⟨⟨⟨ascends_all h items, ascends_option h source⟩, ascends_option h condition⟩,
      ascends_all h groupBy⟩, ascends_option h having⟩, ascends_all h orderBy⟩,
      ascends_option h offset⟩, ascends_option h fetch⟩

end

/-- What the parts of a node hand up to it holds of every node. -/
@[elab_as_elim]
theorem induction_parts {P : Node → Prop} (h : ∀ n, (∀ m ∈ n.parts, P m) → P n) (n : Node) : P n :=
  ascends_node h n

end Node

end StorePlan.Sql
