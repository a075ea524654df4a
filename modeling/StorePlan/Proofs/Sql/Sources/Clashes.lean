import Mathlib.Data.List.ReduceOption
import StorePlan.Proofs.Sql.Sources.Aliases

/-
Names within one `FROM` clause. The aliases that are made up for a clause
differ from each other, but nothing keeps them from the names that the tree
gives in it: the names of the clause stay distinct exactly if none of its
made-up aliases is one of those (`Dialect.forall₂_completes`).
-/

namespace StorePlan.Sql

open Text

/-! ## Names of a clause -/

namespace Node

/-- The names that a `FROM` clause introduces, from left to right: aliases, and names of tables
without one. A query without an alias has its place among them. -/
def introduced : Node → List (Option String)
  | .join left right _ _ => left.introduced ++ right.introduced
  | .aliased _ given => [some given]
  | .name parts => parts.getLast?.toList.map some
  | .select _ | .setOperation .. | .values _ => [none]
  | _ => []

def names (source : Node) : List String := source.introduced.reduceOption

def ownClause : Node → List Node
  | .select block => block.source.toList
  | _ => []

/-- The contents of the `FROM` clauses of a tree. -/
def clauses (n : Node) : List Node := n.gather (· ++ ·) ownClause

end Node

/-- Filling in adds the missing names to those that are given. -/
theorem Fills.perm {p : String} {is : List Nat} {as bs : List (Option String)}
    (h : Fills p is as bs) :
    bs.reduceOption.Perm (as.reduceOption ++ is.map fun i => p ++ natText i) := by
  induction h with
  | nil => simp
  | given name _ ih => simpa using ih
  | missing i _ ih => simpa using (ih.cons _).trans List.perm_middle.symm

namespace Dialect

/-! ## Numbers of a clause -/

section

variable {d : Dialect} (p : String)

theorem exists_fills_query (hd : d.features.namedSources = true) {q q' : Node}
    (hq : q.isQuery = true) (i : Nat) (xs : List Source) :
    ∃ is, is.Pairwise (· < ·) ∧
      (∀ j ∈ is, i ≤ j ∧ j < i + d.unnamed (xs ++ q.ownSource true)) ∧
      Fills p is q.introduced (d.nameQuery p (i + d.unnamed xs) true q').introduced := by
  have hnone : q.introduced = [none] := by
    cases q <;> first | rfl | cases hq
  have hcount : d.unnamed (xs ++ q.ownSource true) = d.unnamed xs + 1 := by
    rw [ownSource_of_isQuery hq, unnamed_append]
    simp [unnamed, hd]
  refine ⟨[i + d.unnamed xs], by simp, ?_, ?_⟩
  · rw [hcount]
    simp
  · rw [hnone, nameQuery, hd]
    exact .missing _ .nil

/-- The queries without an alias in a clause get different numbers. -/
theorem exists_fills_introduced (hd : d.features.namedSources = true) : ∀ (i : Nat) (c : Node),
    ∃ is, is.Pairwise (· < ·) ∧ (∀ j ∈ is, i ≤ j ∧ j < i + d.unnamed (d.sources true c)) ∧
      Fills p is c.introduced (d.named p i true c).introduced
  | i, .join left right kind condition => by
    obtain ⟨is, hsorted, hbound, hfills⟩ := exists_fills_introduced hd i left
    obtain ⟨js, hsorted', hbound', hfills'⟩ :=
      exists_fills_introduced hd (i + d.unnamed (d.sources true left)) right
    refine ⟨is ++ js, ?_, fun j hj => ?_, hfills.append hfills'⟩
    · refine List.pairwise_append.2 ⟨hsorted, hsorted', fun j hj k hk => ?_⟩
      exact (hbound j hj).2.trans_le (hbound' k hk).1
    · simp only [sources, unnamed_append]
      rcases List.mem_append.1 hj with hj | hj
      · have := hbound j hj
        omega
      · have := hbound' j hj
        omega
  | i, .select block => exists_fills_query p hd (q := .select block) rfl i _
  | i, .setOperation op left right =>
    exists_fills_query p hd (q := .setOperation op left right) rfl i _
  | i, .values rows => exists_fills_query p hd (q := .values rows) rfl i _
  | _, .aliased _ given => ⟨[], .nil, by simp, .given given .nil⟩
  | _, .name parts => by
    refine ⟨[], .nil, by simp, ?_⟩
    simp only [named, Node.introduced]
    cases parts.getLast? with
    | none => exact .nil
    | some table => exact .given table .nil
  | _, .star | _, .literal _ | _, .parameter .. | _, .call .. | _, .cast .. | _, .caseOf ..
  | _, .array _ | _, .window .. | _, .sortKey .. => ⟨[], .nil, by simp, .nil⟩

/-- The names of a clause stay distinct exactly if no number makes one of them. -/
theorem nodup_names_iff {is : List Nat} {c c' : Node} (hsorted : is.Pairwise (· < ·))
    (hfills : Fills p is c.introduced c'.introduced) (hc : c.names.Nodup) :
    c'.names.Nodup ↔ ∀ i ∈ is, p ++ natText i ∉ c.names := by
  have hnumbers : is.Nodup := hsorted.imp Nat.ne_of_lt
  have hmade := hnumbers.map (append_natText_injective p)
  rw [Node.names, hfills.perm.nodup_iff, List.nodup_append']
  constructor
  · rintro ⟨-, -, hdisjoint⟩ i hi hmem
    exact hdisjoint hmem (List.mem_map_of_mem hi)
  · intro hfresh
    refine ⟨hc, hmade, fun a ha hmem => ?_⟩
    obtain ⟨i, hi, rfl⟩ := List.mem_map.1 hmem
    exact hfresh i hi ha

end

/-! ## The clauses of a tree -/

section

variable (d : Dialect) (p : String)

open Node

/-- A clause, and the same clause with names numbered from somewhere on. -/
def NamesClause (c c' : Node) : Prop := ∃ i, c' = d.named p i true c

theorem clauses_nameQuery (number : Nat) (inFrom : Bool) (q : Node) :
    (d.nameQuery p number inFrom q).clauses = q.clauses := by
  unfold nameQuery
  split_ifs <;> rfl

mutual

theorem forall₂_clauses : ∀ (i : Nat) (inFrom : Bool) (n : Node),
    List.Forall₂ (d.NamesClause p) n.clauses (d.named p i inFrom n).clauses
  | _, _, .name _ | _, _, .star | _, _, .literal _ | _, _, .parameter _ _ => .nil
  | i, _, .call _ operands _ => forall₂_allClauses i operands
  | i, _, .cast operand _ => forall₂_clauses i false operand
  | i, _, .caseOf subject branches otherwise =>
    List.rel_append (List.rel_append (forall₂_optionClauses i false subject)
      (forall₂_branchClauses _ branches)) (forall₂_optionClauses _ false otherwise)
  | i, _, .array items => forall₂_allClauses i items
  | i, _, .window called partitionBy orderBy =>
    List.rel_append (List.rel_append (forall₂_clauses i false called)
      (forall₂_allClauses _ partitionBy)) (forall₂_allClauses _ orderBy)
  | i, _, .aliased operand _ => forall₂_clauses i false operand
  | i, _, .sortKey operand _ _ => forall₂_clauses i false operand
  | i, _, .join left right _ condition =>
    List.rel_append (List.rel_append (forall₂_clauses i true left) (forall₂_clauses _ true right))
      (forall₂_optionClauses _ false condition)
  | i, inFrom, .select block => by
    rw [named, clauses_nameQuery]
    exact forall₂_selectClauses i block
  | i, inFrom, .setOperation op left right => by
    rw [named, clauses_nameQuery]
    exact List.rel_append (forall₂_clauses i false left) (forall₂_clauses _ false right)
  | i, inFrom, .values rows => by
    rw [named, clauses_nameQuery]
    exact forall₂_rowClauses i rows
termination_by structural _ _ n => n

theorem forall₂_allClauses : ∀ (i : Nat) (ns : List Node),
    List.Forall₂ (d.NamesClause p) (gatherAll (· ++ ·) ownClause ns)
      (gatherAll (· ++ ·) ownClause (d.allNamed p i ns))
  | _, [] => .nil
  | i, n :: rest => List.rel_append (forall₂_clauses i false n) (forall₂_allClauses _ rest)
termination_by structural _ ns => ns

theorem forall₂_optionClauses : ∀ (i : Nat) (inFrom : Bool) (n : Option Node),
    List.Forall₂ (d.NamesClause p) (gatherOption (· ++ ·) ownClause n)
      (gatherOption (· ++ ·) ownClause (d.optionNamed p i inFrom n))
  | _, _, none => .nil
  | i, inFrom, some n => forall₂_clauses i inFrom n
termination_by structural _ _ n => n

theorem forall₂_branchClauses : ∀ (i : Nat) (bs : List (Node × Node)),
    List.Forall₂ (d.NamesClause p) (gatherBranches (· ++ ·) ownClause bs)
      (gatherBranches (· ++ ·) ownClause (d.branchNamed p i bs))
  | _, [] => .nil
  | i, (condition, result) :: rest =>
    List.rel_append (List.rel_append (forall₂_clauses i false condition)
      (forall₂_clauses _ false result)) (forall₂_branchClauses _ rest)
termination_by structural _ bs => bs

theorem forall₂_rowClauses : ∀ (i : Nat) (rows : List (List Node)),
    List.Forall₂ (d.NamesClause p) (gatherRows (· ++ ·) ownClause rows)
      (gatherRows (· ++ ·) ownClause (d.rowNamed p i rows))
  | _, [] => .nil
  | i, row :: rest => List.rel_append (forall₂_allClauses i row) (forall₂_rowClauses _ rest)
termination_by structural _ rows => rows

theorem forall₂_selectClauses : ∀ (i : Nat) (block : Select Node),
    List.Forall₂ (d.NamesClause p) (Node.select block).clauses
      (Node.select (d.selectNamed p i block)).clauses
  | i, ⟨distinct, items, source, condition, groupBy, having, orderBy, offset, fetch⟩ => by
    have hown : List.Forall₂ (d.NamesClause p) source.toList
        (d.optionNamed p (i + d.unnamed (d.allSources items)) true source).toList := by
      cases source with
      | none => exact .nil
      | some c => exact .cons ⟨_, rfl⟩ .nil
    refine List.rel_append hown (List.rel_append ?_ (List.rel_append
      (forall₂_optionClauses _ false offset) (forall₂_optionClauses _ false fetch)))
    refine List.rel_append (List.rel_append ?_ (forall₂_optionClauses _ false having))
      (forall₂_allClauses _ orderBy)
    refine List.rel_append (List.rel_append ?_ (forall₂_optionClauses _ false condition))
      (forall₂_allClauses _ groupBy)
    exact List.rel_append (forall₂_allClauses i items) (forall₂_optionClauses _ true source)
termination_by structural _ block => block

end

end

/-! ## Texts -/

section

variable {d : Dialect} {p s : String} {n : Node}

/-- A clause `c` with the names that the tree gives in it, and the same clause `c'` with all its
names: the queries without an alias have these numbers behind the prefix. If the names that the tree
gives are distinct, all of them are, exactly if no alias that is made up is one of those. -/
structure Completes (p : String) (is : List Nat) (c c' : Node) : Prop where
  fills : Fills p is c.introduced c'.introduced
  nodup_iff : c.names.Nodup → (c'.names.Nodup ↔ ∀ i ∈ is, p ++ natText i ∉ c.names)

/-- Where a dialect asks for names, each `FROM` clause of a tree has a counterpart with all its
names in the tree that the text is of; only an alias that is made up for it and a name that it gives
can clash. -/
theorem forall₂_completes (hd : d.features.namedSources = true) (h : d.text p n = .ok s) :
    let m := d.named p 0 false n
    d.HasOwnNames m s ∧
      List.Forall₂ (fun c c' => ∃ is, Completes p is c c') n.clauses m.clauses := by
  refine ⟨hasOwnNames_named h, (forall₂_clauses d p 0 false n).imp ?_⟩
  rintro c _ ⟨i, rfl⟩
  obtain ⟨is, hsorted, _, hfills⟩ := exists_fills_introduced p hd i c
  exact ⟨is, hfills, nodup_names_iff p hsorted hfills⟩

/-- The query in the brackets takes the number that the table beside them would clash with. -/
theorem forall₂_completes_nested :
    let one : Node := .select { items := [.number 1] }
    let c : Node := .join (.select { items := [], source := some one }) (.name ["t0"]) .cross none
    let n : Node := .select { items := [], source := some c }
    let s : String := "SELECT * FROM (SELECT * FROM (SELECT 1) AS \"t0\") AS \"t1\" " ++
      "CROSS JOIN \"t0\""
    postgresql.features.namedSources = true ∧ postgresql.text "t" n = .ok s ∧
      List.Forall₂ (fun c c' => ∃ is, Completes "t" is c c') n.clauses
        (postgresql.named "t" 0 false n).clauses ∧
      (postgresql.named "t" 0 true c).names.Nodup := by
  intro one c n s
  have hs : postgresql.text "t" n = .ok s := by decide +kernel
  exact ⟨rfl, hs, (forall₂_completes rfl hs).2, by decide +kernel⟩

/-- A table may have the very name that is made up for the query beside it. -/
theorem not_nodup_names_crossJoin :
    let rows : Node := .select { items := [], source := some (.name ["a"]) }
    let c : Node := .join rows (.name ["t0"]) .cross none
    let n : Node := .select { items := [], source := some c }
    let m := postgresql.named "t" 0 false n
    let s : String := "SELECT * FROM (SELECT * FROM \"a\") AS \"t0\" CROSS JOIN \"t0\""
    postgresql.features.namedSources = true ∧ postgresql.text "t" n = .ok s ∧
      postgresql.HasOwnNames m s ∧ c ∈ n.clauses ∧ c.names.Nodup ∧
      postgresql.named "t" 0 true c ∈ m.clauses ∧
      ¬(postgresql.named "t" 0 true c).names.Nodup := by
  intro rows c n m s
  have hs : postgresql.text "t" n = .ok s := by decide +kernel
  exact ⟨rfl, hs, hasOwnNames_named hs, List.mem_cons_self, by decide +kernel, List.mem_cons_self,
    by decide +kernel⟩

end

end Dialect

end StorePlan.Sql
