import Mathlib.Data.List.Perm.Basic
import StorePlan.Sql.Dialect
import StorePlan.Sql.Node

/-
The parameters of a tree in the order in which they are written. The order
depends on the dialect in one place only: where a query block bounds its rows,
what is skipped comes first in one style and last in the other.

`Node.reorders_parameters` says when that makes a difference.
-/

namespace StorePlan.Sql

variable {α β : Type}

/-- What the bounds of a block hold, in the order in which a style writes them. -/
def Pagination.arrange (style : Pagination) (offset fetch : List α) : List α :=
  match style with
  | .offsetFetch => offset ++ fetch
  | .limitOffset => fetch ++ offset

namespace Node

/-! ## Gathering from left to right -/

mutual

/-- What the nodes of a tree hold, from left to right; `bounds` puts together what the bounds of a
block hold. -/
def gather (bounds : List α → List α → List α) (held : Node → List α) : Node → List α
  | .name parts => held (.name parts)
  | .star => held .star
  | .literal l => held (.literal l)
  | .call op operands distinct =>
    held (.call op operands distinct) ++ gatherAll bounds held operands
  | .cast operand target => held (.cast operand target) ++ gather bounds held operand
  | .caseOf subject branches otherwise =>
    held (.caseOf subject branches otherwise) ++
      (gatherOption bounds held subject ++ gatherBranches bounds held branches ++
        gatherOption bounds held otherwise)
  | .parameter index type => held (.parameter index type)
  | .array items => held (.array items) ++ gatherAll bounds held items
  | .window called partitionBy orderBy =>
    held (.window called partitionBy orderBy) ++
      (gather bounds held called ++ gatherAll bounds held partitionBy ++
        gatherAll bounds held orderBy)
  | .aliased operand given => held (.aliased operand given) ++ gather bounds held operand
  | .sortKey operand descending nullsFirst =>
    held (.sortKey operand descending nullsFirst) ++ gather bounds held operand
  | .join left right kind condition =>
    held (.join left right kind condition) ++
      (gather bounds held left ++ gather bounds held right ++ gatherOption bounds held condition)
  | .select block => held (.select block) ++ gatherSelect bounds held block
  | .setOperation op left right =>
    held (.setOperation op left right) ++ (gather bounds held left ++ gather bounds held right)
  | .values rows => held (.values rows) ++ gatherRows bounds held rows
termination_by structural n => n

def gatherAll (bounds : List α → List α → List α) (held : Node → List α) : List Node → List α
  | [] => []
  | n :: rest => gather bounds held n ++ gatherAll bounds held rest
termination_by structural ns => ns

def gatherOption (bounds : List α → List α → List α) (held : Node → List α) :
    Option Node → List α
  | none => []
  | some n => gather bounds held n
termination_by structural n => n

def gatherBranches (bounds : List α → List α → List α) (held : Node → List α) :
    List (Node × Node) → List α
  | [] => []
  | (condition, result) :: rest =>
    gather bounds held condition ++ gather bounds held result ++ gatherBranches bounds held rest
termination_by structural bs => bs

def gatherRows (bounds : List α → List α → List α) (held : Node → List α) :
    List (List Node) → List α
  | [] => []
  | row :: rest => gatherAll bounds held row ++ gatherRows bounds held rest
termination_by structural rows => rows

def gatherSelect (bounds : List α → List α → List α) (held : Node → List α) :
    Select Node → List α
  | ⟨_, items, source, condition, groupBy, having, orderBy, offset, fetch⟩ =>
    gatherAll bounds held items ++ gatherOption bounds held source ++
      gatherOption bounds held condition ++ gatherAll bounds held groupBy ++
      gatherOption bounds held having ++ gatherAll bounds held orderBy ++
      bounds (gatherOption bounds held offset) (gatherOption bounds held fetch)
termination_by structural block => block

end

/-- The number of a parameter. -/
def ownParameter : Node → List Nat
  | .parameter index _ => [index]
  | _ => []

def ownBlock : Node → List (Select Node)
  | .select block => [block]
  | _ => []

/-- The numbers of the parameters of a tree, from left to right. -/
def parameters (style : Pagination) (n : Node) : List Nat := n.gather style.arrange ownParameter

/-- The nodes of a tree. -/
def subtrees (n : Node) : List Node := n.gather (· ++ ·) fun m => [m]

/-- The query blocks of a tree, apart from those in the bounds of other blocks. -/
def blocks (n : Node) : List (Select Node) := n.gather (fun _ _ => []) ownBlock

/-- The parameters in the bounds of a block, from left to right. -/
def boundParameters (style : Pagination) (block : Select Node) : List Nat :=
  style.arrange (gatherOption style.arrange ownParameter block.offset)
    (gatherOption style.arrange ownParameter block.fetch)

end Node

/-! ## Reordering -/

/-- Two lists with the same members, which are the same list if and only if something holds for
every part in question. -/
structure Reorders (holds : β → Prop) (as bs : List α) (parts : List β) : Prop where
  perm : as.Perm bs
  eq_iff : as = bs ↔ ∀ p ∈ parts, holds p

namespace Reorders

variable {holds : β → Prop} {as bs as' bs' : List α} {parts parts' : List β}

theorem refl (as : List α) : Reorders holds as as [] := ⟨.refl as, by simp⟩

theorem append (h : Reorders holds as bs parts) (h' : Reorders holds as' bs' parts') :
    Reorders holds (as ++ as') (bs ++ bs') (parts ++ parts') := by
  refine ⟨h.perm.append h'.perm, ?_⟩
  rw [List.forall_mem_append, ← h.eq_iff, ← h'.eq_iff]
  constructor
  · intro heq
    exact List.append_inj heq h.perm.length_eq
  · rintro ⟨rfl, rfl⟩
    rfl

end Reorders

namespace Node

/-- Whether the parameters in the bounds of a block are the same in both styles. -/
def BoundsAgree (block : Select Node) : Prop :=
  boundParameters .offsetFetch block = boundParameters .limitOffset block

instance (block : Select Node) : Decidable (BoundsAgree block) :=
  inferInstanceAs (Decidable (_ = _))

theorem arrange_perm {o o' f f' : List Nat} (ho : o.Perm o') (hf : f.Perm f') :
    (Pagination.offsetFetch.arrange o f).Perm (Pagination.limitOffset.arrange o' f') :=
  (ho.append hf).trans List.perm_append_comm

mutual

/-- Both styles write the same parameters, and in the same order if and only if no block keeps them
from it with its bounds. -/
theorem reorders_parameters : ∀ n : Node,
    Reorders BoundsAgree (n.parameters .offsetFetch) (n.parameters .limitOffset) n.blocks
  | .name _ | .star | .literal _ | .parameter _ _ => .refl _
  | .call _ operands _ => reorders_all operands
  | .cast operand _ => reorders_parameters operand
  | .caseOf subject branches otherwise =>
    ((reorders_option subject).append (reorders_branches branches)).append
      (reorders_option otherwise)
  | .array items => reorders_all items
  | .window called partitionBy orderBy =>
    ((reorders_parameters called).append (reorders_all partitionBy)).append (reorders_all orderBy)
  | .aliased operand _ => reorders_parameters operand
  | .sortKey operand _ _ => reorders_parameters operand
  | .join left right _ condition =>
    ((reorders_parameters left).append (reorders_parameters right)).append
      (reorders_option condition)
  | .select block => reorders_select block
  | .setOperation _ left right => (reorders_parameters left).append (reorders_parameters right)
  | .values rows => reorders_rows rows

theorem reorders_all : ∀ ns : List Node,
    Reorders BoundsAgree (gatherAll Pagination.offsetFetch.arrange ownParameter ns)
      (gatherAll Pagination.limitOffset.arrange ownParameter ns)
      (gatherAll (fun _ _ => []) ownBlock ns)
  | [] => .refl _
  | n :: rest => (reorders_parameters n).append (reorders_all rest)

theorem reorders_option : ∀ n : Option Node,
    Reorders BoundsAgree (gatherOption Pagination.offsetFetch.arrange ownParameter n)
      (gatherOption Pagination.limitOffset.arrange ownParameter n)
      (gatherOption (fun _ _ => []) ownBlock n)
  | none => .refl _
  | some n => reorders_parameters n

theorem reorders_branches : ∀ bs : List (Node × Node),
    Reorders BoundsAgree (gatherBranches Pagination.offsetFetch.arrange ownParameter bs)
      (gatherBranches Pagination.limitOffset.arrange ownParameter bs)
      (gatherBranches (fun _ _ => []) ownBlock bs)
  | [] => .refl _
  | (condition, result) :: rest =>
    ((reorders_parameters condition).append (reorders_parameters result)).append
      (reorders_branches rest)

theorem reorders_rows : ∀ rows : List (List Node),
    Reorders BoundsAgree (gatherRows Pagination.offsetFetch.arrange ownParameter rows)
      (gatherRows Pagination.limitOffset.arrange ownParameter rows)
      (gatherRows (fun _ _ => []) ownBlock rows)
  | [] => .refl _
  | row :: rest => (reorders_all row).append (reorders_rows rest)

theorem reorders_select : ∀ block : Select Node,
    Reorders BoundsAgree (gatherSelect Pagination.offsetFetch.arrange ownParameter block)
      (gatherSelect Pagination.limitOffset.arrange ownParameter block)
      (block :: gatherSelect (fun _ _ => []) ownBlock block)
  | ⟨distinct, items, source, condition, groupBy, having, orderBy, offset, fetch⟩ => by
    have hhead := (((((reorders_all items).append (reorders_option source)).append
      (reorders_option condition)).append (reorders_all groupBy)).append
      (reorders_option having)).append (reorders_all orderBy)
    let block : Select Node :=
      ⟨distinct, items, source, condition, groupBy, having, orderBy, offset, fetch⟩
    have hbounds : Reorders BoundsAgree (boundParameters .offsetFetch block)
        (boundParameters .limitOffset block) [block] :=
      ⟨arrange_perm (reorders_option offset).perm (reorders_option fetch).perm, by simp [BoundsAgree]⟩
    have hall := hhead.append hbounds
    refine ⟨hall.perm, hall.eq_iff.trans ?_⟩
    simp only [gatherSelect, List.append_nil, List.forall_mem_append, List.forall_mem_singleton,
      List.forall_mem_cons]
    exact and_comm

end

end Node

end StorePlan.Sql
