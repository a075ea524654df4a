import StorePlan.Proofs.Sql.Sources.Basic

/-
Names that are made up are names that the tree could have given. The tree in
which every unnamed query of a `FROM` clause is given its number as a name
(`Dialect.named`) has the text of the tree without them
(`Dialect.agree_named`), and no name of that text is made up.

A query takes its number after the queries in it, when its brackets close.
-/

namespace StorePlan.Sql

open Text

namespace Dialect

/-! ## Naming -/

/-- A query with a number for its name, where the dialect asks for one. -/
def nameQuery (d : Dialect) (aliasPrefix : String) (number : Nat) (inFrom : Bool) (query : Node) :
    Node :=
  if inFrom && d.features.namedSources then .aliased query (aliasPrefix ++ natText number)
  else query

mutual

/-- The tree with a name for every unnamed query of a `FROM` clause that needs one, numbered from
`i` on in the order in which their brackets close. -/
def named (d : Dialect) (p : String) : Nat → Bool → Node → Node
  | _, _, .name parts => .name parts
  | _, _, .star => .star
  | _, _, .literal l => .literal l
  | _, _, .parameter index type => .parameter index type
  | i, _, .call op operands distinct => .call op (d.allNamed p i operands) distinct
  | i, _, .cast operand target => .cast (d.named p i false operand) target
  | i, _, .caseOf subject branches otherwise =>
    let xs := d.optionSources false subject
    .caseOf (d.optionNamed p i false subject) (d.branchNamed p (i + d.unnamed xs) branches)
      (d.optionNamed p (i + d.unnamed (xs ++ d.branchSources branches)) false otherwise)
  | i, _, .array items => .array (d.allNamed p i items)
  | i, _, .window called partitionBy orderBy =>
    let xs := d.sources false called
    .window (d.named p i false called) (d.allNamed p (i + d.unnamed xs) partitionBy)
      (d.allNamed p (i + d.unnamed (xs ++ d.allSources partitionBy)) orderBy)
  | i, _, .aliased operand given => .aliased (d.named p i false operand) given
  | i, _, .sortKey operand descending nullsFirst =>
    .sortKey (d.named p i false operand) descending nullsFirst
  | i, _, .join left right kind condition =>
    let xs := d.sources true left
    .join (d.named p i true left) (d.named p (i + d.unnamed xs) true right) kind
      (d.optionNamed p (i + d.unnamed (xs ++ d.sources true right)) false condition)
  | i, inFrom, .select block =>
    d.nameQuery p (i + d.unnamed (d.selectSources block)) inFrom (.select (d.selectNamed p i block))
  | i, inFrom, .setOperation op left right =>
    let xs := d.sources false left
    d.nameQuery p (i + d.unnamed (xs ++ d.sources false right)) inFrom
      (.setOperation op (d.named p i false left) (d.named p (i + d.unnamed xs) false right))
  | i, inFrom, .values rows =>
    d.nameQuery p (i + d.unnamed (d.rowSources rows)) inFrom (.values (d.rowNamed p i rows))
termination_by structural _ _ n => n

def allNamed (d : Dialect) (p : String) : Nat → List Node → List Node
  | _, [] => []
  | i, n :: rest =>
    d.named p i false n :: d.allNamed p (i + d.unnamed (d.sources false n)) rest
termination_by structural _ ns => ns

def optionNamed (d : Dialect) (p : String) : Nat → Bool → Option Node → Option Node
  | _, _, none => none
  | i, inFrom, some n => some (d.named p i inFrom n)
termination_by structural _ _ n => n

def branchNamed (d : Dialect) (p : String) : Nat → List (Node × Node) → List (Node × Node)
  | _, [] => []
  | i, (condition, result) :: rest =>
    let xs := d.sources false condition
    (d.named p i false condition, d.named p (i + d.unnamed xs) false result) ::
      d.branchNamed p (i + d.unnamed (xs ++ d.sources false result)) rest
termination_by structural _ bs => bs

def rowNamed (d : Dialect) (p : String) : Nat → List (List Node) → List (List Node)
  | _, [] => []
  | i, row :: rest =>
    d.allNamed p i row :: d.rowNamed p (i + d.unnamed (d.allSources row)) rest
termination_by structural _ rows => rows

def selectNamed (d : Dialect) (p : String) : Nat → Select Node → Select Node
  | i, ⟨distinct, items, source, condition, groupBy, having, orderBy, offset, fetch⟩ =>
    let xs := d.allSources items
    let ys := xs ++ d.optionSources true source
    let zs := ys ++ d.optionSources false condition
    let us := zs ++ d.allSources groupBy
    let vs := us ++ d.optionSources false having
    let ws := vs ++ d.allSources orderBy
    -- Bounds are numbered in the order in which the dialect writes them.
    let (beforeOffset, beforeFetch) : List Source × List Source :=
      match d.features.pagination with
      | .offsetFetch => (ws, ws ++ d.optionSources false offset)
      | .limitOffset => (ws ++ d.optionSources false fetch, ws)
    ⟨distinct, d.allNamed p i items, d.optionNamed p (i + d.unnamed xs) true source,
      d.optionNamed p (i + d.unnamed ys) false condition, d.allNamed p (i + d.unnamed zs) groupBy,
      d.optionNamed p (i + d.unnamed us) false having, d.allNamed p (i + d.unnamed vs) orderBy,
      d.optionNamed p (i + d.unnamed beforeOffset) false offset,
      d.optionNamed p (i + d.unnamed beforeFetch) false fetch⟩
termination_by structural _ block => block

end

/-! ## What stays as it is -/

section

variable (d : Dialect) (p : String)

@[simp] theorem nameQuery_false (number : Nat) (query : Node) :
    d.nameQuery p number false query = query := rfl

@[simp] theorem isQuery_named (i : Nat) (n : Node) : (d.named p i false n).isQuery = n.isQuery := by
  cases n <;> rfl

@[simp] theorem isArray_named (i : Nat) (n : Node) : (d.named p i false n).isArray = n.isArray := by
  cases n <;> rfl

theorem any_allNamed {f : Node → Bool} (hf : ∀ i n, f (d.named p i false n) = f n) (i : Nat)
    (ns : List Node) : (d.allNamed p i ns).any f = ns.any f := by
  induction ns generalizing i with
  | nil => rfl
  | cons n rest ih => rw [allNamed, List.any_cons, List.any_cons, hf, ih]

@[simp] theorem length_allNamed (i : Nat) (ns : List Node) :
    (d.allNamed p i ns).length = ns.length := by
  induction ns generalizing i with
  | nil => rfl
  | cons n rest ih => simp [allNamed, ih]

@[simp] theorem isPaged_selectNamed (i : Nat) (block : Select Node) :
    (d.selectNamed p i block).isPaged = block.isPaged := by
  obtain ⟨distinct, items, source, condition, groupBy, having, orderBy, offset, fetch⟩ := block
  cases offset <;> cases fetch <;> rfl

mutual

theorem hasAggregate_named : ∀ (i : Nat) (n : Node),
    (d.named p i false n).hasAggregate = n.hasAggregate
  | _, .name _ | _, .star | _, .literal _ | _, .parameter _ _ | _, .window .. | _, .join ..
  | _, .select _ | _, .setOperation .. | _, .values _ => rfl
  | i, .call op operands _ => by simp only [named, Node.hasAggregate, anyHasAggregate_allNamed]
  | i, .cast operand _ => by simp only [named, Node.hasAggregate, hasAggregate_named]
  | i, .caseOf subject branches otherwise => by
    simp only [named, Node.hasAggregate, optionHasAggregate_optionNamed,
      branchHasAggregate_branchNamed]
  | i, .array items => by simp only [named, Node.hasAggregate, anyHasAggregate_allNamed]
  | i, .aliased operand _ => by simp only [named, Node.hasAggregate, hasAggregate_named]
  | i, .sortKey operand _ _ => by simp only [named, Node.hasAggregate, hasAggregate_named]
termination_by structural _ n => n

theorem anyHasAggregate_allNamed : ∀ (i : Nat) (ns : List Node),
    Node.anyHasAggregate (d.allNamed p i ns) = Node.anyHasAggregate ns
  | _, [] => rfl
  | i, n :: rest => by
    simp only [allNamed, Node.anyHasAggregate, hasAggregate_named, anyHasAggregate_allNamed]
termination_by structural _ ns => ns

theorem optionHasAggregate_optionNamed : ∀ (i : Nat) (n : Option Node),
    Node.optionHasAggregate (d.optionNamed p i false n) = Node.optionHasAggregate n
  | _, none => rfl
  | i, some n => by simp only [optionNamed, Node.optionHasAggregate, hasAggregate_named]
termination_by structural _ n => n

theorem branchHasAggregate_branchNamed : ∀ (i : Nat) (bs : List (Node × Node)),
    Node.branchHasAggregate (d.branchNamed p i bs) = Node.branchHasAggregate bs
  | _, [] => rfl
  | i, (condition, result) :: rest => by
    simp only [branchNamed, Node.branchHasAggregate, hasAggregate_named,
      branchHasAggregate_branchNamed]
termination_by structural _ bs => bs

end

theorem checkNesting_allNamed (op : Op) (i : Nat) (ns : List Node) :
    d.checkNesting op (d.allNamed p i ns) = d.checkNesting op ns := by
  rw [checkNesting, anyHasAggregate_allNamed, ← checkNesting]

theorem rounding?_allNamed (op : Op) (i : Nat) (ns : List Node) :
    d.rounding? op (d.allNamed p i ns) = d.rounding? op ns := by
  have hunit : roundingUnit? op (d.allNamed p i ns) = roundingUnit? op ns := by
    match ns with
    | [] | [_] | _ :: _ :: _ :: _ => simp [allNamed, roundingUnit?]
    | [_, n] =>
      cases n with
      | literal l => cases l <;> rfl
      | _ => rfl
  rw [rounding?, hunit, ← rounding?]

theorem checkOperands_allNamed (op : Op) (i : Nat) (ns : List Node) :
    checkOperands op (d.allNamed p i ns) = checkOperands op ns := by
  rw [checkOperands, length_allNamed, ← checkOperands]

theorem any_drop_allNamed (i : Nat) (ns : List Node) :
    ((d.allNamed p i ns).drop 1).any Node.isQuery = (ns.drop 1).any Node.isQuery := by
  cases ns with
  | nil => rfl
  | cons n rest => exact any_allNamed d p (isQuery_named d p) _ rest

@[simp] theorem isEmpty_branchNamed (i : Nat) (bs : List (Node × Node)) :
    (d.branchNamed p i bs).isEmpty = bs.isEmpty := by
  cases bs <;> rfl

@[simp] theorem isEmpty_rowNamed (i : Nat) (rows : List (List Node)) :
    (d.rowNamed p i rows).isEmpty = rows.isEmpty := by
  cases rows <;> rfl

end

/-! ## Settling -/

section

variable {d : Dialect} {p : String} {i : Nat} {x : Source} {xs ys : List Source}
  {ts us ts' us' : List Token} {tss uss tss' uss' : List (List Token)}

theorem settle_bracketed : settle p i (bracketed ts) = bracketed (settle p i ts) := by
  have hclosing : settle p (i + ts.count .madeUpName) [.word ")"] = [.word ")"] :=
    settle_of_not_mem (by simp)
  rw [bracketed, List.cons_append, settle_cons (by simp), settle_append, hclosing, bracketed,
    List.cons_append]

/-- Tokens that carry sources, and the same tokens with the made-up names numbered from `i` on. -/
structure Settles (d : Dialect) (p : String) (i : Nat) (xs : List Source) (ts us : List Token) :
    Prop where
  carries : d.Carries ts xs
  eq_settle : us = settle p i ts

/-- Lists of tokens with the sources in all of them, numbered one after the other. -/
inductive AllSettle (d : Dialect) (p : String) :
    Nat → List Source → List (List Token) → List (List Token) → Prop where
  | nil {i : Nat} : AllSettle d p i [] [] []
  | cons {i : Nat} {xs ys : List Source} {ts us : List Token} {tss uss : List (List Token)} :
    d.Settles p i xs ts us → AllSettle d p (i + d.unnamed xs) ys tss uss →
      AllSettle d p i (xs ++ ys) (ts :: tss) (us :: uss)

namespace Settles

theorem nil : d.Settles p i [] [] [] := ⟨.nil, rfl⟩

theorem token {t : Token} (ht : t ≠ .madeUpName) (h : d.Settles p i xs ts us) :
    d.Settles p i xs (t :: ts) (t :: us) :=
  ⟨.token ht h.carries, by rw [settle_cons ht, h.eq_settle]⟩

theorem append (h : d.Settles p i xs ts us) (h' : d.Settles p (i + d.unnamed xs) ys ts' us') :
    d.Settles p i (xs ++ ys) (ts ++ ts') (us ++ us') :=
  ⟨h.carries.append h'.carries,
    by rw [settle_append, h.carries.count_eq, h.eq_settle, h'.eq_settle]⟩

/-- What is put together from parts carries what the parts carry. -/
theorem weave (h : Woven (fun _ => True) tss uss ts us) (hparts : d.AllSettle p i xs tss uss) :
    d.Settles p i xs ts us := by
  induction h generalizing i xs with
  | nil =>
    cases hparts
    exact .nil
  | own ht _ ih => exact .token ht.2.1 (ih hparts)
  | part p q _ ih =>
    cases hparts with
    | cons hp hrest => exact hp.append (ih hrest)

/-- A source behind those in its brackets. -/
theorem source (hx : d.WritesSource x ts) (h : d.Settles p i xs ts us) :
    d.Settles p i (xs ++ [x]) (bracketed ts ++ x.nameTokens d)
      (bracketed us ++ settle p (i + d.unnamed xs) (x.nameTokens d)) := by
  have hcount : (bracketed ts).count .madeUpName = d.unnamed xs := by
    simp [bracketed, h.carries.count_eq]
  refine ⟨by simpa using Carries.source hx h.carries .nil, ?_⟩
  rw [settle_append, settle_bracketed, hcount, h.eq_settle]

end Settles

namespace AllSettle

theorem one (h : d.Settles p i xs ts us) : d.AllSettle p i xs [ts] [us] := by
  simpa using AllSettle.cons h .nil

theorem append (h : d.AllSettle p i xs tss uss)
    (h' : d.AllSettle p (i + d.unnamed xs) ys tss' uss') :
    d.AllSettle p i (xs ++ ys) (tss ++ tss') (uss ++ uss') := by
  induction h with
  | nil => simpa using h'
  | cons hts _ ih =>
    rw [unnamed_append, ← Nat.add_assoc] at h'
    rw [List.append_assoc]
    exact .cons hts (ih h')

theorem append_append {zs : List Source} {vss wss : List (List Token)}
    (h : d.AllSettle p i xs tss uss) (h' : d.AllSettle p (i + d.unnamed xs) ys tss' uss')
    (h'' : d.AllSettle p (i + d.unnamed (xs ++ ys)) zs vss wss) :
    d.AllSettle p i (xs ++ (ys ++ zs)) (tss ++ (tss' ++ vss)) (uss ++ (uss' ++ wss)) := by
  rw [unnamed_append, ← Nat.add_assoc] at h''
  exact h.append (h'.append h'')

theorem length_eq (h : d.AllSettle p i xs tss uss) : tss.length = uss.length := by
  induction h with
  | nil => rfl
  | cons _ _ ih => simp [ih]

/-- No look at a part sees a name. -/
theorem startsWithMinus_eq (h : d.AllSettle p i xs tss uss) :
    List.Forall₂ (fun ts us => startsWithMinus us = startsWithMinus ts) tss uss := by
  induction h with
  | nil => exact .nil
  | cons hts _ ih => exact .cons (by rw [hts.eq_settle, startsWithMinus_settle]) ih

/-- The unit that is rounded to carries nothing. -/
theorem headD {op : Op} {operands : List Node} {r : Rounding}
    (h : d.rounding? op operands = .ok (some r))
    (hwritten : d.writeOperands op 0 operands = .ok tss) (htss : d.AllSettle p i xs tss uss) :
    d.Settles p i xs (tss.headD []) (uss.headD []) := by
  obtain ⟨ts, u, rfl⟩ := exists_operands_of_rounding? h hwritten
  obtain _ | ⟨hn, _ | ⟨hunit, _ | _⟩⟩ := htss
  obtain rfl := hunit.carries.eq_nil
  simpa using hn

end AllSettle

end

/-! ## Queries -/

section

variable {d : Dialect} {p : String} {i : Nat} {q q' : Node} {xs : List Source}

theorem ownSource_of_isQuery (hq : q.isQuery = true) (inFrom : Bool) :
    q.ownSource inFrom = if inFrom then [⟨q, none⟩] else [] := by
  cases q with
  | select _ | setOperation _ _ _ | values _ => cases inFrom <;> rfl
  | _ => cases hq

theorem writesSource_of_isQuery {x : Source} {ts : List Token} (hq : x.query.isQuery = true)
    (hts : d.write .statement x.query = .ok ts) : d.WritesSource x ts := by
  refine ⟨hts, ?_⟩
  obtain ⟨q, _ | given⟩ := x
  · rw [Source.item, write_of_isQuery hq, hts]
    rfl
  · simp only [Source.item, write]
    rw [write_of_isQuery hq, hts]
    rfl

/-- A query in its place, and the same query with a name if it is unnamed there. -/
theorem agree_query (hq : q.isQuery = true) (hq' : q'.isQuery = true)
    (h : Agree (d.Settles p i xs) (d.write .statement q) (d.write .statement q'))
    (hrows : q'.isPaged = q.isPaged) (place : Place) :
    Agree (d.Settles p i (xs ++ q.ownSource place.isSource)) (d.write place q)
      (d.write place (d.nameQuery p (i + d.unnamed xs) place.isSource q')) := by
  rw [ownSource_of_isQuery hq]
  by_cases hplace : place = .source
  · subst hplace
    let x : Source := ⟨q, none⟩
    cases hnamed : d.features.namedSources with
    | true =>
      simp only [nameQuery, Place.isSource, hnamed, Bool.and_self, if_true, write]
      rw [write_of_isQuery hq, write_of_isQuery hq', bind_assoc]
      refine h.results.bind fun ts us ⟨hts, _, hsettles⟩ => .ok ?_
      have hsource := hsettles.source (writesSource_of_isQuery (x := x) hq hts)
      simpa [placeQuery, hnamed, x, Source.nameTokens, aliasTokens, spaced, settle, Place.free]
        using hsource
    | false =>
      simp only [nameQuery, Place.isSource, hnamed, Bool.and_false, Bool.false_eq_true, if_false]
      rw [write_of_isQuery hq, write_of_isQuery hq']
      refine h.results.bind fun ts us ⟨hts, _, hsettles⟩ => .ok ?_
      have hsource := hsettles.source (writesSource_of_isQuery (x := x) hq hts)
      simpa [placeQuery, hnamed, x, Source.nameTokens, settle] using hsource
  · have hfrom : place.isSource = false := by
      cases place <;> first | rfl | contradiction
    rw [hfrom, nameQuery_false, write_of_isQuery hq, write_of_isQuery hq', hrows]
    refine h.bind fun ts us hsettles => .ok ?_
    simpa using Settles.weave (woven_placeQuery d _ hplace ts us) (.one hsettles)

/-- A query with a name of its own. -/
theorem agree_aliased_of_isQuery (hq : q.isQuery = true) (hq' : q'.isQuery = true) (given : String)
    (h : Agree (d.Settles p i xs) (d.write .statement q) (d.write .statement q')) :
    Agree (d.Settles p i (xs ++ [⟨q, some given⟩])) (d.write .source (.aliased q given))
      (d.write .source (.aliased q' given)) := by
  let x : Source := ⟨q, some given⟩
  simp only [write]
  rw [write_of_isQuery hq, write_of_isQuery hq', bind_assoc, bind_assoc]
  refine h.results.bind fun ts us ⟨hts, _, hsettles⟩ => .ok ?_
  have hsource := hsettles.source (writesSource_of_isQuery (x := x) hq hts)
  simpa [placeQuery, Place.free, x, Source.nameTokens, aliasTokens, spaced, settle] using hsource

end

/-! ## Trees -/

section

variable (d : Dialect) (p : String)

mutual

/-- The tree with the names is written as the tree without them, its made-up names numbered from `i`
on; what is written carries the sources of the tree. -/
theorem agree_named : ∀ (place : Place) (i : Nat) (n : Node),
    Agree (d.Settles p i (d.sources place.isSource n)) (d.write place n)
      (d.write place (d.named p i place.isSource n))
  | _, _, .name parts => by
    simp only [write, sources, named]
    exact .ok (.weave (woven_nameTokens parts) .nil)
  | _, _, .star => .ok (.weave (.plain (by decide)) .nil)
  | _, _, .literal l => by
    simp only [write, sources, named]
    exact .ok (.weave (woven_literalTokens fun _ _ => trivial) .nil)
  | _, i, .parameter index type => by
    simp only [write, sources, named]
    have hparameter : d.Settles p i [] [.parameter index] [.parameter index] :=
      .token (by simp) .nil
    exact .of_ok fun ts hts => .weave (woven_parameterTokens hts) (.one hparameter)
  | place, i, .call op operands distinct => by
    -- None of the checks and case distinctions of a call looks at a name.
    simp only [write, sources, named, checkNesting_allNamed, rounding?_allNamed,
      checkOperands_allNamed]
    refine .bind_same fun _ _ => ?_
    split_ifs with hsingle
    · exact (agree_writeFirst_named i operands).bind fun ts us hfirst =>
        .ok (.weave (woven_singleValueTokens ts us) (.one hfirst))
    · refine .bind_same fun rounding hrounding => .bind_same fun _ hcount =>
        (agree_writeOperands_named op 0 i operands).results.bind
          fun tss uss ⟨htss, _, hwritten⟩ => ?_
      cases rounding with
      | some r =>
        exact .ok (.weave (woven_roundingTokens hrounding _ _)
          (.one (hwritten.headD hrounding htss)))
      | none =>
        have htakes := takes_length_of_writeOperands hcount htss
        have hqueries := any_drop_allNamed d p i operands
        exact .ok (.weave (woven_placeExpression _ place (woven_operatorTokens distinct
          (fun _ _ => trivial) htakes hqueries hwritten.startsWithMinus_eq)) hwritten)
  | _, i, .cast operand target => by
    simp only [write, sources, named]
    exact (agree_named .free i operand).bind fun ts us hoperand =>
      .bind_same fun _ htarget => .ok (.weave (woven_castTokens htarget ts us) (.one hoperand))
  | _, i, .caseOf subject branches otherwise => by
    simp only [write, sources, named, isEmpty_branchNamed]
    split_ifs
    · exact .error _
    · exact (agree_writeOption_named .free i subject).bind fun _ _ hsubject =>
        (agree_writeBranches_named _ branches).bind fun ts us hbranches =>
          (agree_writeOption_named .free _ otherwise).bind fun _ _ hotherwise =>
            .ok (.weave (woven_caseTokens ts us hsubject.length_eq hotherwise.length_eq)
              ((hsubject.append (.one hbranches)).append hotherwise))
  | _, i, .array items => by
    simp only [write, sources, named, any_allNamed d p (isArray_named d p)]
    split_ifs
    · exact .error _
    · exact (agree_writeAll_named i items).bind fun _ _ hitems =>
        .ok (.weave (woven_arrayTokens hitems.length_eq) hitems)
  | _, i, .window called partitionBy orderBy => by
    simp only [write, sources, named]
    split_ifs
    · exact .error _
    · exact (agree_named (.operand Op.leafPrecedence) i called).bind fun ts us hcalled =>
        (agree_writeAll_named _ partitionBy).bind fun _ _ hpartition =>
          (agree_writeAll_named _ orderBy).bind fun _ _ horder =>
            .ok (.weave (woven_windowTokens ts us hpartition.length_eq horder.length_eq)
              (((AllSettle.one hcalled).append hpartition).append horder))
  | place, i, .aliased operand given => by
    by_cases hsource : place.isSource = true ∧ operand.isQuery = true
    · obtain ⟨hplace, hquery⟩ := hsource
      obtain rfl : place = .source := by cases place <;> first | rfl | cases hplace
      simp only [sources, named, Node.ownSource, Place.isSource, hquery, Bool.and_self, if_true]
      exact agree_aliased_of_isQuery hquery ((isQuery_named d p i operand).trans hquery) given
        (agree_named .statement i operand)
    · have hnone : Node.ownSource place.isSource (.aliased operand given) = [] := by
        rw [Node.ownSource, if_neg (by simpa using hsource)]
      simp only [write, sources, named, hnone, List.append_nil]
      exact (agree_named .free i operand).bind fun ts us hoperand =>
        .ok (.weave (woven_aliasTokens given ts us) (.one hoperand))
  | _, i, .sortKey operand descending nullsFirst => by
    simp only [write, sources, named]
    exact (agree_named .free i operand).bind fun ts us hoperand =>
      .ok (.weave (woven_sortKeyTokens descending nullsFirst ts us) (.one hoperand))
  | place, i, .join left right kind condition => by
    simp only [write, sources, named]
    split_ifs
    · exact (agree_named .source i left).bind fun ts us hleft =>
        (agree_named .source _ right).bind fun ts' us' hright =>
          (agree_writeOption_named .free _ condition).bind fun _ _ hcondition =>
            .ok (.weave (woven_joinTokens kind ts us ts' us' hcondition.length_eq)
              (((AllSettle.one hleft).append (.one hright)).append hcondition))
    · exact .error _
  | place, i, .select block => by
    have hquery : Agree (d.Settles p i (d.selectSources block)) (d.write .statement (.select block))
        (d.write .statement (.select (d.selectNamed p i block))) := by
      simp only [write, placeQuery, bind_pure]
      exact agree_writeSelect_named i block
    simp only [sources, named]
    exact agree_query rfl rfl hquery (isPaged_selectNamed d p i block) place
  | place, i, .setOperation op left right => by
    have hquery : Agree (d.Settles p i (d.sources false left ++ d.sources false right))
        (d.write .statement (.setOperation op left right))
        (d.write .statement (.setOperation op (d.named p i false left)
          (d.named p (i + d.unnamed (d.sources false left)) false right))) := by
      simp only [write, placeQuery]
      exact (agree_named .setOperand i left).bind fun ts us hleft =>
        (agree_named .setOperand _ right).bind fun ts' us' hright =>
          .ok (.weave (woven_setTokens op ts us ts' us')
            ((AllSettle.one hleft).append (.one hright)))
    simp only [sources, named]
    exact agree_query rfl rfl hquery rfl place
  | place, i, .values rows => by
    have hquery : Agree (d.Settles p i (d.rowSources rows)) (d.write .statement (.values rows))
        (d.write .statement (.values (d.rowNamed p i rows))) := by
      simp only [write, placeQuery, isEmpty_rowNamed]
      split_ifs
      · exact .error _
      · exact (agree_writeRows_named i rows).bind fun _ _ hrows =>
          .ok (.weave (woven_valuesTokens hrows.length_eq) hrows)
    simp only [sources, named]
    exact agree_query rfl rfl hquery rfl place
termination_by structural _ _ n => n

theorem agree_writeAll_named : ∀ (i : Nat) (ns : List Node),
    Agree (d.AllSettle p i (d.allSources ns)) (d.writeAll .free ns)
      (d.writeAll .free (d.allNamed p i ns))
  | _, [] => .ok .nil
  | i, n :: rest => by
    simp only [writeAll, allSources, allNamed]
    exact (agree_named .free i n).bind fun _ _ hfirst =>
      (agree_writeAll_named _ rest).bind fun _ _ hothers => .ok (.cons hfirst hothers)
termination_by structural _ ns => ns

theorem agree_writeOperands_named (op : Op) : ∀ (position i : Nat) (ns : List Node),
    Agree (d.AllSettle p i (d.allSources ns)) (d.writeOperands op position ns)
      (d.writeOperands op position (d.allNamed p i ns))
  | _, _, [] => .ok .nil
  | position, i, n :: rest => by
    simp only [writeOperands, allSources, allNamed]
    exact (agree_named (.operand (op.operandPrecedence position)) i n).bind fun _ _ hfirst =>
      (agree_writeOperands_named op (position + 1) _ rest).bind fun _ _ hothers =>
        .ok (.cons hfirst hothers)
termination_by structural _ _ ns => ns

theorem agree_writeFirst_named : ∀ (i : Nat) (ns : List Node),
    Agree (d.Settles p i (d.firstSources ns)) (d.writeFirst ns) (d.writeFirst (d.allNamed p i ns))
  | _, [] => .ok (.weave (.plain (by decide)) .nil)
  | i, n :: _ => by
    simp only [writeFirst, firstSources, allNamed]
    exact agree_named .free i n
termination_by structural _ ns => ns

theorem agree_writeOption_named : ∀ (place : Place) (i : Nat) (n : Option Node),
    Agree (fun o o' => d.AllSettle p i (d.optionSources place.isSource n) o.toList o'.toList)
      (d.writeOption place n) (d.writeOption place (d.optionNamed p i place.isSource n))
  | _, _, none => .ok .nil
  | place, i, some n => by
    simp only [writeOption, optionSources, optionNamed]
    exact (agree_named place i n).bind fun _ _ hcontent => .ok (.one hcontent)
termination_by structural _ _ n => n

theorem agree_writeBranches_named : ∀ (i : Nat) (bs : List (Node × Node)),
    Agree (d.Settles p i (d.branchSources bs)) (d.writeBranches bs)
      (d.writeBranches (d.branchNamed p i bs))
  | _, [] => .ok .nil
  | i, (condition, result) :: rest => by
    simp only [writeBranches, branchSources, branchNamed]
    exact (agree_named .free i condition).bind fun cs cs' hcondition =>
      (agree_named .free _ result).bind fun rs rs' hresult =>
        (agree_writeBranches_named _ rest).bind fun ts us hothers =>
          .ok (.weave (woven_branchTokens cs cs' rs rs' ts us)
            (((AllSettle.one hcondition).append (.one hresult)).append (.one hothers)))
termination_by structural _ bs => bs

theorem agree_writeRows_named : ∀ (i : Nat) (rows : List (List Node)),
    Agree (d.AllSettle p i (d.rowSources rows)) (d.writeRows rows)
      (d.writeRows (d.rowNamed p i rows))
  | _, [] => .ok .nil
  | i, row :: rest => by
    simp only [writeRows, rowSources, rowNamed]
    exact (agree_writeAll_named i row).bind fun _ _ hrow =>
      (agree_writeRows_named _ rest).bind fun _ _ hothers =>
        .ok (.cons (.weave (Woven.commaSeparated hrow.length_eq).inBrackets hrow) hothers)
termination_by structural _ rows => rows

theorem agree_writeSelect_named : ∀ (i : Nat) (block : Select Node),
    Agree (d.Settles p i (d.selectSources block)) (d.writeSelect block)
      (d.writeSelect (d.selectNamed p i block))
  | i, ⟨distinct, items, source, condition, groupBy, having, orderBy, offset, fetch⟩ => by
    simp only [writeSelect, selectSources, selectNamed]
    refine (agree_writeAll_named i items).bind fun _ _ hitems =>
      (agree_writeOption_named .source _ source).bind fun _ _ hsource =>
        (agree_writeOption_named .free _ condition).bind fun _ _ hcondition =>
          (agree_writeAll_named _ groupBy).bind fun _ _ hgroup =>
            (agree_writeOption_named .free _ having).bind fun _ _ hhaving =>
              (agree_writeAll_named _ orderBy).bind fun _ _ horder => ?_
    have hhead := ((((hitems.append hsource).append hcondition).append hgroup).append
      hhaving).append horder
    -- The bounds come last, in one of two orders.
    cases d.features.pagination with
    | offsetFetch =>
      refine (agree_writeOption_named .free _ offset).bind fun _ _ hoffset =>
        (agree_writeOption_named .free _ fetch).bind fun _ _ hfetch => .ok ?_
      have hparts := hhead.append_append hoffset hfetch
      exact .weave (woven_selectTokens .offsetFetch
        ⟨rfl, hitems.length_eq, hsource.length_eq, hcondition.length_eq, hgroup.length_eq,
          hhaving.length_eq, horder.length_eq, hoffset.length_eq, hfetch.length_eq⟩) hparts
    | limitOffset =>
      refine (agree_writeOption_named .free _ fetch).bind fun _ _ hfetch =>
        (agree_writeOption_named .free _ offset).bind fun _ _ hoffset => .ok ?_
      have hparts := hhead.append_append hfetch hoffset
      exact .weave (woven_selectTokens .limitOffset
        ⟨rfl, hitems.length_eq, hsource.length_eq, hcondition.length_eq, hgroup.length_eq,
          hhaving.length_eq, horder.length_eq, hoffset.length_eq, hfetch.length_eq⟩) hparts
termination_by structural _ block => block

end

end

end Dialect

end StorePlan.Sql
