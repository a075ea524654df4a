import StorePlan.Proofs.Sql.Weaving

/-
What is written of a tree holds the parameters of the tree, in the order in
which the style of the dialect has them, and no placeholders but theirs, apart
from numbers and names of functions that hold one themselves.

The tokens that writing adds hold none, so the parameters of the whole are
those of its parts (`Holds.weave`).
-/

namespace StorePlan.Sql

open Lexeme

/-- Tokens with the parameters in them, from left to right. -/
inductive Holds (raw : Token → Prop) : List Token → List Nat → Prop where
  | nil : Holds raw [] []
  | parameter {ts : List Token} {is : List Nat} (index : Nat) :
    Holds raw ts is → Holds raw (.parameter index :: ts) (index :: is)
  | other {t : Token} {ts : List Token} {is : List Nat} :
    t.IsOther raw → Holds raw ts is → Holds raw (t :: ts) is

/-- Lists of tokens with the parameters in all of them, from left to right. -/
inductive AllHold (raw : Token → Prop) : List (List Token) → List Nat → Prop where
  | nil : AllHold raw [] []
  | cons {ts : List Token} {is : List Nat} {tss : List (List Token)} {js : List Nat} :
    Holds raw ts is → AllHold raw tss js → AllHold raw (ts :: tss) (is ++ js)

namespace Holds

variable {raw : Token → Prop} {t : Token} {ts us : List Token} {is js : List Nat}

theorem filterMap_eq (h : Holds raw ts is) : ts.filterMap Token.parameter? = is := by
  induction h with
  | nil => rfl
  | parameter index _ ih => exact congrArg (index :: ·) ih
  | other ht _ ih => rw [List.filterMap_cons_none ht.1, ih]

theorem isOther (h : Holds raw ts is) (ht : t ∈ ts) (hnone : t.parameter? = none) :
    t.IsOther raw := by
  induction h with
  | nil => cases ht
  | parameter index _ ih =>
    rcases List.mem_cons.1 ht with rfl | ht
    · cases hnone
    · exact ih ht
  | other hother _ ih =>
    rcases List.mem_cons.1 ht with rfl | ht
    · exact hother
    · exact ih ht

theorem append (h : Holds raw ts is) (h' : Holds raw us js) : Holds raw (ts ++ us) (is ++ js) := by
  induction h with
  | nil => exact h'
  | parameter index _ ih => exact .parameter index ih
  | other ht _ ih => exact .other ht ih

theorem quiet (h : ∀ t ∈ ts, t.IsQuiet) : Holds raw ts [] := by
  induction ts with
  | nil => exact .nil
  | cons t ts ih =>
    rw [List.forall_mem_cons] at h
    exact .other h.1.isOther (ih h.2)

end Holds

namespace AllHold

variable {raw : Token → Prop} {ts : List Token} {tss uss : List (List Token)} {is js : List Nat}

theorem one (h : Holds raw ts is) : AllHold raw [ts] is := by
  simpa using AllHold.cons h .nil

theorem append (h : AllHold raw tss is) (h' : AllHold raw uss js) :
    AllHold raw (tss ++ uss) (is ++ js) := by
  induction h with
  | nil => exact h'
  | cons hts _ ih => simpa using AllHold.cons hts ih

theorem arrange (style : Pagination) (h : AllHold raw tss is) (h' : AllHold raw uss js) :
    AllHold raw (style.arrange tss uss) (style.arrange is js) := by
  cases style with
  | offsetFetch => exact h.append h'
  | limitOffset => exact h'.append h

end AllHold

/-- What is put together from parts holds what the parts hold. -/
theorem Holds.weave {raw : Token → Prop} {tss uss : List (List Token)} {ts us : List Token}
    {is : List Nat} (h : Woven raw tss uss ts us) (hparts : AllHold raw tss is) :
    Holds raw ts is := by
  induction h generalizing is with
  | nil =>
    cases hparts
    exact .nil
  | own ht _ ih => exact .other ht.1 (ih hparts)
  | part p q _ ih =>
    cases hparts with
    | cons hp hrest => exact hp.append (ih hrest)

namespace Dialect

/-! ## Trees -/

variable {raw : Token → Prop} {d : Dialect} {ts : List Token} {tss : List (List Token)}
  {is : List Nat}

theorem holds_placeQuery (d : Dialect) (isPaged : Bool) (place : Place) (h : Holds raw ts is) :
    Holds raw (d.placeQuery isPaged ts place) is := by
  by_cases hplace : place = .source
  · subst hplace
    -- The alias is no part, and where it is made up it is not the same in every text.
    have hbracketed : Holds raw (bracketed ts) is := .weave (Woven.one ts ts).inBrackets (.one h)
    have hquiet : ∀ t ∈ (if d.features.namedSources then aliasTokens .madeUpName else []),
        t.IsQuiet := by
      split_ifs <;> decide
    simpa [placeQuery] using hbracketed.append (.quiet hquiet)
  · exact .weave (woven_placeQuery d isPaged hplace ts ts) (.one h)

/-- No parameter stands in the unit that is rounded to. -/
theorem holds_headD {op : Op} {operands : List Node} {r : Rounding}
    (h : d.rounding? op operands = .ok (some r))
    (hwritten : d.writeOperands op 0 operands = .ok tss) (htss : AllHold raw tss is) :
    Holds raw (tss.headD []) is := by
  obtain ⟨ts, u, rfl⟩ := exists_operands_of_rounding? h hwritten
  obtain _ | ⟨hn, _ | ⟨hunit, _ | _⟩⟩ := htss
  obtain rfl : _ = [] := hunit.filterMap_eq.symm
  simpa using hn

end Dialect

namespace Node

/-- A call that finds the value of the only row; a dialect may write no operand but the first. -/
def isSingleValue : Node → Bool
  | .call .singleValue _ _ => true
  | _ => false

end Node

namespace Dialect

open Node

variable {raw : Token → Prop} {d : Dialect}

/-- The parameters of trees in the order of the dialect. -/
abbrev order (d : Dialect) : List Nat → List Nat → List Nat := d.features.pagination.arrange

mutual

/-- What is written of a tree holds its parameters, if all operands of its calls are written. -/
theorem holds_write {ts : List Token} : ∀ {place : Place} (n : Node), d.write place n = .ok ts →
    (∀ m ∈ n.subtrees, m.isSingleValue = false) → (∀ t ∈ n.raws, raw t) →
      Holds raw ts (n.parameters d.features.pagination)
  | place, .name parts, h, _, _ => by
    cases h
    exact .weave (woven_nameTokens parts) .nil
  | place, .star, h, _, _ => by
    cases h
    exact .quiet (by decide)
  | place, .literal l, h, _, hraw => by
    cases h
    exact .weave (woven_literalTokens (by simpa [raws] using hraw)) .nil
  | place, .parameter index type, h, _, _ =>
    .weave (woven_parameterTokens (by simpa [write] using h)) (.one (.parameter index .nil))
  | place, .call op operands distinct, h, hsingle, hraw => by
    rw [raws, List.forall_mem_append] at hraw
    rw [subtrees, gather, List.forall_mem_append] at hsingle
    cases (write_call_eq_ok.1 h).2 with
    | singleValue hop _ =>
      obtain ⟨rfl, -⟩ := hop
      cases hsingle.1 _ (List.mem_singleton_self _)
    | @rounding _ written _ hrounding _ hwritten =>
      have hall := holds_writeOperands operands hwritten hsingle.2 hraw.2
      exact .weave (woven_roundingTokens hrounding (written.headD []) (written.headD []))
        (.one (holds_headD hrounding hwritten hall))
    | operator _ _ htakes hwritten =>
      have hall := holds_writeOperands operands hwritten hsingle.2 hraw.2
      exact .weave (woven_operator distinct place hraw.1 htakes) hall
  | place, .cast operand target, h, hsingle, hraw => by
    rw [raws] at hraw
    rw [subtrees, gather, List.forall_mem_append] at hsingle
    obtain ⟨us, hoperand, target, htarget, rfl⟩ := write_cast_eq_ok.1 h
    exact .weave (woven_castTokens htarget us us)
      (.one (holds_write operand hoperand hsingle.2 hraw))
  | place, .caseOf subject branches otherwise, h, hsingle, hraw => by
    simp only [raws, List.forall_mem_append] at hraw
    simp only [subtrees, gather, List.forall_mem_append] at hsingle
    obtain ⟨-, ⟨hsSubject, hsBranches⟩, hsOtherwise⟩ := hsingle
    obtain ⟨-, subject', hsubject, branches', hbranches, otherwise', hotherwise, rfl⟩ :=
      write_caseOf_eq_ok.1 h
    have hparts := ((holds_writeOption subject hsubject hsSubject hraw.1.1).append
      (.one (holds_writeBranches branches hbranches hsBranches hraw.1.2))).append
      (holds_writeOption otherwise hotherwise hsOtherwise hraw.2)
    exact .weave (woven_caseTokens _ branches' rfl rfl) hparts
  | place, .array items, h, hsingle, hraw => by
    rw [raws] at hraw
    rw [subtrees, gather, List.forall_mem_append] at hsingle
    obtain ⟨-, items', hitems, rfl⟩ := write_array_eq_ok.1 h
    exact .weave (woven_arrayTokens rfl) (holds_writeAll items hitems hsingle.2 hraw)
  | place, .window called partitionBy orderBy, h, hsingle, hraw => by
    simp only [raws, List.forall_mem_append] at hraw
    simp only [subtrees, gather, List.forall_mem_append] at hsingle
    obtain ⟨-, ⟨hsCalled, hsPartition⟩, hsOrder⟩ := hsingle
    obtain ⟨-, called', hcalled, partitionBy', hpartition, orderBy', horder, rfl⟩ :=
      write_window_eq_ok.1 h
    have hparts := ((AllHold.one (holds_write called hcalled hsCalled hraw.1.1)).append
      (holds_writeAll partitionBy hpartition hsPartition hraw.1.2)).append
      (holds_writeAll orderBy horder hsOrder hraw.2)
    exact .weave (woven_windowTokens called' called' rfl rfl) hparts
  | place, .aliased operand name, h, hsingle, hraw => by
    rw [raws] at hraw
    rw [subtrees, gather, List.forall_mem_append] at hsingle
    obtain ⟨us, hoperand, rfl⟩ := write_aliased_eq_ok.1 h
    exact .weave (woven_aliasTokens name us us) (.one (holds_write operand hoperand hsingle.2 hraw))
  | place, .sortKey operand descending nullsFirst, h, hsingle, hraw => by
    rw [raws] at hraw
    rw [subtrees, gather, List.forall_mem_append] at hsingle
    obtain ⟨us, hoperand, rfl⟩ := write_sortKey_eq_ok.1 h
    exact .weave (woven_sortKeyTokens descending nullsFirst us us)
      (.one (holds_write operand hoperand hsingle.2 hraw))
  | place, .join left right kind condition, h, hsingle, hraw => by
    simp only [raws, List.forall_mem_append] at hraw
    simp only [subtrees, gather, List.forall_mem_append] at hsingle
    obtain ⟨-, ⟨hsLeft, hsRight⟩, hsCondition⟩ := hsingle
    obtain ⟨-, left', hleft, right', hright, condition', hcondition, rfl⟩ := write_join_eq_ok.1 h
    have hparts := ((AllHold.one (holds_write left hleft hsLeft hraw.1.1)).append
      (.one (holds_write right hright hsRight hraw.1.2))).append
      (holds_writeOption condition hcondition hsCondition hraw.2)
    exact .weave (woven_joinTokens kind left' left' right' right' rfl) hparts
  | place, .select block, h, hsingle, hraw => by
    rw [raws] at hraw
    rw [subtrees, gather, List.forall_mem_append] at hsingle
    obtain ⟨query, hquery, rfl⟩ := write_select_eq_ok.1 h
    exact holds_placeQuery d _ place (holds_writeSelect block hquery hsingle.2 hraw)
  | place, .setOperation op left right, h, hsingle, hraw => by
    simp only [raws, List.forall_mem_append] at hraw
    simp only [subtrees, gather, List.forall_mem_append] at hsingle
    obtain ⟨left', hleft, right', hright, rfl⟩ := write_setOperation_eq_ok.1 h
    have hparts := (AllHold.one (holds_write left hleft hsingle.2.1 hraw.1)).append
      (.one (holds_write right hright hsingle.2.2 hraw.2))
    exact holds_placeQuery d _ place (.weave (woven_setTokens op left' left' right' right') hparts)
  | place, .values rows, h, hsingle, hraw => by
    rw [raws] at hraw
    rw [subtrees, gather, List.forall_mem_append] at hsingle
    obtain ⟨-, rows', hrows, rfl⟩ := write_values_eq_ok.1 h
    exact holds_placeQuery d _ place
      (.weave (woven_valuesTokens rfl) (holds_writeRows rows hrows hsingle.2 hraw))

theorem holds_writeAll {tss : List (List Token)} : ∀ {place : Place} (ns : List Node),
    d.writeAll place ns = .ok tss →
      (∀ m ∈ gatherAll (· ++ ·) (fun m => [m]) ns, m.isSingleValue = false) →
        (∀ t ∈ allRaws ns, raw t) → AllHold raw tss (gatherAll d.order ownParameter ns)
  | place, [], h, _, _ => by
    cases h
    exact .nil
  | place, n :: rest, h, hsingle, hraw => by
    rw [allRaws, List.forall_mem_append] at hraw
    rw [gatherAll, List.forall_mem_append] at hsingle
    obtain ⟨ts, hts, rest', hrest, rfl⟩ := writeAll_cons_eq_ok.1 h
    exact .cons (holds_write n hts hsingle.1 hraw.1) (holds_writeAll rest hrest hsingle.2 hraw.2)

theorem holds_writeOperands {op : Op} {tss : List (List Token)} :
    ∀ {position : Nat} (ns : List Node), d.writeOperands op position ns = .ok tss →
      (∀ m ∈ gatherAll (· ++ ·) (fun m => [m]) ns, m.isSingleValue = false) →
        (∀ t ∈ allRaws ns, raw t) → AllHold raw tss (gatherAll d.order ownParameter ns)
  | position, [], h, _, _ => by
    cases h
    exact .nil
  | position, n :: rest, h, hsingle, hraw => by
    rw [allRaws, List.forall_mem_append] at hraw
    rw [gatherAll, List.forall_mem_append] at hsingle
    obtain ⟨ts, hts, rest', hrest, rfl⟩ := writeOperands_cons_eq_ok.1 h
    exact .cons (holds_write n hts hsingle.1 hraw.1)
      (holds_writeOperands rest hrest hsingle.2 hraw.2)

theorem holds_writeOption {o : Option (List Token)} : ∀ {place : Place} (n : Option Node),
    d.writeOption place n = .ok o →
      (∀ m ∈ gatherOption (· ++ ·) (fun m => [m]) n, m.isSingleValue = false) →
        (∀ t ∈ optionRaws n, raw t) →
          AllHold raw o.toList (gatherOption d.order ownParameter n)
  | place, none, h, _, _ => by
    cases h
    exact .nil
  | place, some n, h, hsingle, hraw => by
    rw [optionRaws] at hraw
    rw [gatherOption] at hsingle
    obtain ⟨ts, hts, rfl⟩ := writeOption_some_eq_ok.1 h
    exact .one (holds_write n hts hsingle hraw)

theorem holds_writeBranches {us : List Token} : ∀ bs : List (Node × Node),
    d.writeBranches bs = .ok us →
      (∀ m ∈ gatherBranches (· ++ ·) (fun m => [m]) bs, m.isSingleValue = false) →
        (∀ t ∈ branchRaws bs, raw t) → Holds raw us (gatherBranches d.order ownParameter bs)
  | [], h, _, _ => by
    cases h
    exact .nil
  | (condition, result) :: rest, h, hsingle, hraw => by
    simp only [branchRaws, List.forall_mem_append] at hraw
    simp only [gatherBranches, List.forall_mem_append] at hsingle
    obtain ⟨condition', hcondition, result', hresult, rest', hrest, rfl⟩ :=
      writeBranches_cons_eq_ok.1 h
    have hparts := ((AllHold.one (holds_write condition hcondition hsingle.1.1 hraw.1.1)).append
      (.one (holds_write result hresult hsingle.1.2 hraw.1.2))).append
      (.one (holds_writeBranches rest hrest hsingle.2 hraw.2))
    exact .weave (woven_branchTokens condition' condition' result' result' rest' rest') hparts

theorem holds_writeRows {tss : List (List Token)} : ∀ rows : List (List Node),
    d.writeRows rows = .ok tss →
      (∀ m ∈ gatherRows (· ++ ·) (fun m => [m]) rows, m.isSingleValue = false) →
        (∀ t ∈ rowRaws rows, raw t) → AllHold raw tss (gatherRows d.order ownParameter rows)
  | [], h, _, _ => by
    cases h
    exact .nil
  | row :: rest, h, hsingle, hraw => by
    rw [rowRaws, List.forall_mem_append] at hraw
    rw [gatherRows, List.forall_mem_append] at hsingle
    obtain ⟨row', hrow, rest', hrest, rfl⟩ := writeRows_cons_eq_ok.1 h
    have hrow := Holds.weave (Woven.commaSeparated rfl).inBrackets
      (holds_writeAll row hrow hsingle.1 hraw.1)
    exact .cons hrow (holds_writeRows rest hrest hsingle.2 hraw.2)

theorem holds_writeSelect {ts : List Token} : ∀ block : Select Node,
    d.writeSelect block = .ok ts →
      (∀ m ∈ gatherSelect (· ++ ·) (fun m => [m]) block, m.isSingleValue = false) →
        (∀ t ∈ selectRaws block, raw t) → Holds raw ts (gatherSelect d.order ownParameter block)
  | ⟨distinct, items, source, condition, groupBy, having, orderBy, offset, fetch⟩, h, hsingle,
      hraw => by
    simp only [selectRaws, List.forall_mem_append] at hraw
    obtain ⟨⟨⟨⟨⟨⟨⟨hrItems, hrSource⟩, hrCondition⟩, hrGroup⟩, hrHaving⟩, hrOrder⟩, hrOffset⟩,
      hrFetch⟩ := hraw
    simp only [gatherSelect, List.forall_mem_append] at hsingle
    obtain ⟨⟨⟨⟨⟨⟨hsItems, hsSource⟩, hsCondition⟩, hsGroup⟩, hsHaving⟩, hsOrder⟩, hsOffset,
      hsFetch⟩ := hsingle
    obtain ⟨s, hs, rfl⟩ := writesParts_of_writeSelect h
    have hhead := (((((holds_writeAll items hs.items hsItems hrItems).append
      (holds_writeOption source hs.source hsSource hrSource)).append
      (holds_writeOption condition hs.condition hsCondition hrCondition)).append
      (holds_writeAll groupBy hs.groupBy hsGroup hrGroup)).append
      (holds_writeOption having hs.having hsHaving hrHaving)).append
      (holds_writeAll orderBy hs.orderBy hsOrder hrOrder)
    exact .weave (woven_selectTokens _ (.refl s)) (hhead.append
      (.arrange _ (holds_writeOption offset hs.offset hsOffset hrOffset)
        (holds_writeOption fetch hs.fetch hsFetch hrFetch)))

end

end Dialect

end StorePlan.Sql
