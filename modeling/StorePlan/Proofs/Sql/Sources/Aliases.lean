import StorePlan.Proofs.Sql.Sources.Naming

/-
The aliases of a text. Where a dialect asks for names, the missing ones are
the numbers from zero on behind the prefix, in the order in which the brackets
of the queries close, and every query of a `FROM` clause has one alias; where
it asks for none, none is made up.
-/

namespace StorePlan.Sql

open Text

/-! ## Filling in names -/

/-- Names of which the missing ones are filled in with numbers behind a prefix, in this order. -/
inductive Fills (aliasPrefix : String) :
    List Nat → List (Option String) → List (Option String) → Prop where
  | nil : Fills aliasPrefix [] [] []
  | given {is : List Nat} {as bs : List (Option String)} (name : String) :
    Fills aliasPrefix is as bs → Fills aliasPrefix is (some name :: as) (some name :: bs)
  | missing {is : List Nat} {as bs : List (Option String)} (i : Nat) :
    Fills aliasPrefix is as bs →
      Fills aliasPrefix (i :: is) (none :: as) (some (aliasPrefix ++ natText i) :: bs)

namespace Fills

variable {p : String} {is js : List Nat} {as bs as' bs' : List (Option String)}

theorem append (h : Fills p is as bs) (h' : Fills p js as' bs') :
    Fills p (is ++ js) (as ++ as') (bs ++ bs') := by
  induction h with
  | nil => exact h'
  | given name _ ih => exact .given name ih
  | missing i _ ih => exact .missing i ih

end Fills

/-- Numbers differ behind a prefix. -/
theorem append_natText_injective (p : String) : Function.Injective fun i => p ++ natText i := by
  intro i j h
  have hlists := congrArg String.toList h
  simp only [natText, String.toList_append, String.toList_ofList] at hlists
  exact digits_injective (List.append_cancel_left hlists)

namespace Dialect

/-! ## Numbering -/

section

variable {d : Dialect} {p : String} {i : Nat} {xs ys xs' ys' : List Source}

/-- Sources with their names, of which the missing ones are filled in from a number on. -/
def Numbers (d : Dialect) (p : String) (i : Nat) (xs ys : List Source) : Prop :=
  Fills p (List.range' i (d.unnamed xs)) (xs.map Source.name) (ys.map Source.name)

theorem Numbers.nil : d.Numbers p i [] [] := by
  simpa [Numbers] using Fills.nil

theorem Numbers.append (h : d.Numbers p i xs ys) (h' : d.Numbers p (i + d.unnamed xs) xs' ys') :
    d.Numbers p i (xs ++ xs') (ys ++ ys') := by
  have hrange : List.range' i (d.unnamed (xs ++ xs')) =
      List.range' i (d.unnamed xs) ++ List.range' (i + d.unnamed xs) (d.unnamed xs') := by
    rw [unnamed_append, List.range'_append_1]
  rw [Numbers, hrange, List.map_append, List.map_append]
  exact Fills.append h h'

/-- A query, and the same query with the next number for its name if it stands in a `FROM`
clause. -/
theorem numbers_query {q q' : Node} (hd : d.features.namedSources = true) (hq : q.isQuery = true)
    (hq' : q'.isQuery = true) (h : d.Numbers p i xs (d.sources false q')) (inFrom : Bool) :
    d.Numbers p i (xs ++ q.ownSource inFrom)
      (d.sources inFrom (d.nameQuery p (i + d.unnamed xs) inFrom q')) := by
  rw [ownSource_of_isQuery hq]
  cases inFrom with
  | false => simpa using h
  | true =>
    simp only [nameQuery, hd, Bool.and_self, if_true, sources, Node.ownSource, hq']
    refine h.append ?_
    have hone : d.unnamed [⟨q, none⟩] = 1 := by simp [unnamed, hd]
    rw [Numbers, hone]
    exact .missing _ .nil

end

section

variable {d : Dialect} (p : String)

mutual

/-- The sources of the tree with the names are those of the tree without them, and the names that
they miss there are filled in from `i` on. -/
theorem numbers_named (hd : d.features.namedSources = true) :
    ∀ (i : Nat) (inFrom : Bool) (n : Node),
      d.Numbers p i (d.sources inFrom n) (d.sources inFrom (d.named p i inFrom n))
  | _, _, .name _ | _, _, .star | _, _, .literal _ | _, _, .parameter _ _ => .nil
  | i, _, .call op operands _ => by
    simp only [sources, named]
    split_ifs
    · exact numbers_firstSources hd i operands
    · exact numbers_allSources hd i operands
  | i, _, .cast operand _ => numbers_named hd i false operand
  | i, _, .caseOf subject branches otherwise =>
    ((numbers_optionSources hd i false subject).append (numbers_branchSources hd _ branches)).append
      (numbers_optionSources hd _ false otherwise)
  | i, _, .array items => numbers_allSources hd i items
  | i, _, .window called partitionBy orderBy =>
    ((numbers_named hd i false called).append (numbers_allSources hd _ partitionBy)).append
      (numbers_allSources hd _ orderBy)
  | i, inFrom, .aliased operand given => by
    simp only [sources, named, Node.ownSource, isQuery_named]
    refine (numbers_named hd i false operand).append ?_
    split_ifs
    · have hnone : d.unnamed [⟨operand, some given⟩] = 0 := by simp [unnamed]
      rw [Numbers, hnone]
      exact .given given .nil
    · exact .nil
  | i, _, .sortKey operand _ _ => numbers_named hd i false operand
  | i, _, .join left right _ condition =>
    ((numbers_named hd i true left).append (numbers_named hd _ true right)).append
      (numbers_optionSources hd _ false condition)
  | i, inFrom, .select block => by
    have hquery : d.Numbers p i (d.selectSources block)
        (d.sources false (.select (d.selectNamed p i block))) := by
      simpa [sources, Node.ownSource] using numbers_selectSources hd i block
    exact numbers_query hd rfl rfl hquery inFrom
  | i, inFrom, .setOperation op left right => by
    have hquery : d.Numbers p i (d.sources false left ++ d.sources false right)
        (d.sources false (.setOperation op (d.named p i false left)
          (d.named p (i + d.unnamed (d.sources false left)) false right))) := by
      simpa [sources, Node.ownSource] using
        (numbers_named hd i false left).append (numbers_named hd _ false right)
    exact numbers_query hd rfl rfl hquery inFrom
  | i, inFrom, .values rows => by
    have hquery : d.Numbers p i (d.rowSources rows)
        (d.sources false (.values (d.rowNamed p i rows))) := by
      simpa [sources, Node.ownSource] using numbers_rowSources hd i rows
    exact numbers_query hd rfl rfl hquery inFrom
termination_by structural _ _ n => n

theorem numbers_allSources (hd : d.features.namedSources = true) : ∀ (i : Nat) (ns : List Node),
    d.Numbers p i (d.allSources ns) (d.allSources (d.allNamed p i ns))
  | _, [] => .nil
  | i, n :: rest => (numbers_named hd i false n).append (numbers_allSources hd _ rest)
termination_by structural _ ns => ns

theorem numbers_firstSources (hd : d.features.namedSources = true) : ∀ (i : Nat) (ns : List Node),
    d.Numbers p i (d.firstSources ns) (d.firstSources (d.allNamed p i ns))
  | _, [] => .nil
  | i, n :: _ => numbers_named hd i false n
termination_by structural _ ns => ns

theorem numbers_optionSources (hd : d.features.namedSources = true) :
    ∀ (i : Nat) (inFrom : Bool) (n : Option Node),
      d.Numbers p i (d.optionSources inFrom n) (d.optionSources inFrom (d.optionNamed p i inFrom n))
  | _, _, none => .nil
  | i, inFrom, some n => numbers_named hd i inFrom n
termination_by structural _ _ n => n

theorem numbers_branchSources (hd : d.features.namedSources = true) :
    ∀ (i : Nat) (bs : List (Node × Node)),
      d.Numbers p i (d.branchSources bs) (d.branchSources (d.branchNamed p i bs))
  | _, [] => .nil
  | i, (condition, result) :: rest =>
    ((numbers_named hd i false condition).append (numbers_named hd _ false result)).append
      (numbers_branchSources hd _ rest)
termination_by structural _ bs => bs

theorem numbers_rowSources (hd : d.features.namedSources = true) :
    ∀ (i : Nat) (rows : List (List Node)),
      d.Numbers p i (d.rowSources rows) (d.rowSources (d.rowNamed p i rows))
  | _, [] => .nil
  | i, row :: rest => (numbers_allSources hd i row).append (numbers_rowSources hd _ rest)
termination_by structural _ rows => rows

theorem numbers_selectSources (hd : d.features.namedSources = true) :
    ∀ (i : Nat) (block : Select Node),
      d.Numbers p i (d.selectSources block) (d.selectSources (d.selectNamed p i block))
  | i, ⟨distinct, items, source, condition, groupBy, having, orderBy, offset, fetch⟩ => by
    have hhead := (((((numbers_allSources hd i items).append
      (numbers_optionSources hd _ true source)).append
      (numbers_optionSources hd _ false condition)).append
      (numbers_allSources hd _ groupBy)).append
      (numbers_optionSources hd _ false having)).append (numbers_allSources hd _ orderBy)
    simp only [selectSources, selectNamed]
    cases d.features.pagination with
    | offsetFetch =>
      have hbounds := (hhead.append (numbers_optionSources hd _ false offset)).append
        (numbers_optionSources hd _ false fetch)
      simpa only [Pagination.arrange, ← List.append_assoc] using hbounds
    | limitOffset =>
      have hbounds := (hhead.append (numbers_optionSources hd _ false fetch)).append
        (numbers_optionSources hd _ false offset)
      simpa only [Pagination.arrange, ← List.append_assoc] using hbounds
termination_by structural _ block => block

end

end

/-! ## Texts -/

section

variable {d : Dialect} {p s : String} {n : Node}

/-- A tree has a text in which no name is made up, so that the prefix does not matter. The text
carries the queries of the `FROM` clauses of the tree as the tree names them. -/
def HasOwnNames (d : Dialect) (n : Node) (s : String) : Prop :=
  ∃ ts, d.write .statement n = .ok ts ∧ .madeUpName ∉ ts ∧ (∀ p, render p ts = s) ∧
    d.Carries ts (d.sources false n)

theorem carries_of_write {ts : List Token} (h : d.write .statement n = .ok ts) :
    d.Carries ts (d.sources false n) := by
  obtain ⟨_, _, hsettles⟩ := (agree_named d "" .statement 0 n).exists_of_ok h
  exact hsettles.carries

theorem hasOwnNames_named (h : d.text p n = .ok s) : d.HasOwnNames (d.named p 0 false n) s := by
  obtain ⟨ts, hts, hs⟩ := bind_eq_ok.1 h
  cases hs
  obtain ⟨us, hus, hsettles⟩ := (agree_named d p .statement 0 n).exists_of_ok hts
  refine ⟨us, hus, ?_, fun q => ?_, carries_of_write hus⟩
  · exact hsettles.eq_settle ▸ madeUpName_not_mem_settle
  · rw [hsettles.eq_settle, render_settle]

/-- Where a dialect asks for names, the text of a tree is that of the tree with a name for each
query of a `FROM` clause: its own if it has one, and otherwise the next number behind the prefix, in
the order in which the brackets close. Where a dialect does not ask for names, none is made up. -/
theorem hasOwnNames_of_text (h : d.text p n = .ok s) :
    (d.features.namedSources = false → d.HasOwnNames n s) ∧
      (d.features.namedSources = true →
        let m := d.named p 0 false n
        let given := (d.sources false n).map Source.name
        d.HasOwnNames m s ∧
          Fills p (List.range (given.count none)) given ((d.sources false m).map Source.name) ∧
          ((List.range (given.count none)).map fun i => p ++ natText i).Nodup) := by
  refine ⟨fun hd => ?_, fun hd => ⟨hasOwnNames_named h, ?_, ?_⟩⟩
  · obtain ⟨ts, hts, hs⟩ := bind_eq_ok.1 h
    cases hs
    have hcarries := carries_of_write hts
    have hnone : .madeUpName ∉ ts := by
      rw [← List.count_eq_zero, hcarries.count_eq, unnamed, hd]
      rfl
    refine ⟨ts, hts, hnone, fun q => ?_, hcarries⟩
    have hsettle : settle p 0 ts = ts := settle_of_not_mem hnone
    rw [← render_settle p q, hsettle]
  · have hnumbers := numbers_named p hd 0 false n
    rwa [Numbers, unnamed, if_pos hd, ← List.range_eq_range'] at hnumbers
  · exact List.nodup_range.map (append_natText_injective p)

/-- A query takes its number when its brackets close, so after those in it and before those behind
it, in any clause; a name of its own counts for none. -/
theorem hasOwnNames_nested :
    let one : Node := .select { items := [], source := some (.values [[.number 1]]) }
    let table : Node := .aliased (.select { items := [], source := some (.name ["t"]) }) "x"
    let two : Node := .select { items := [], source := some (.values [[.number 2]]) }
    let condition : Node := .apply .isIn [.name ["a"], two]
    let joined : Node := .join one table .inner (some condition)
    let n : Node := .select { items := [], source := some joined }
    let s : String := "SELECT * FROM (SELECT * FROM (VALUES (1)) AS \"q0\") AS \"q1\" " ++
      "INNER JOIN (SELECT * FROM \"t\") AS \"x\" " ++
      "ON \"a\" IN (SELECT * FROM (VALUES (2)) AS \"q2\")"
    let names : List String := ["q0", "q1", "x", "q2"]
    postgresql.text "q" n = .ok s ∧ postgresql.HasOwnNames (postgresql.named "q" 0 false n) s ∧
      (postgresql.sources false (postgresql.named "q" 0 false n)).map Source.name =
        names.map some := by
  intro one table two condition joined n s names
  have hs : postgresql.text "q" n = .ok s := by decide +kernel
  exact ⟨hs, ((hasOwnNames_of_text hs).2 rfl).1, by decide +kernel⟩

end

end Dialect

end StorePlan.Sql
