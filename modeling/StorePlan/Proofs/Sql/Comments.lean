import StorePlan.Proofs.Sql.Numeral
import StorePlan.Proofs.Sql.Parts
import StorePlan.Proofs.Sql.Weaving

/-
No text starts a comment. Each token by itself has none, since all that is
written as it is are numbers and names of functions; and tokens that stand side
by side start none, since what is written is a phrase.
-/

namespace StorePlan.Sql

open Lexeme Text

/-! ## Numbers and names -/

/-- A number with or without a sign. -/
def isSignedNumeral : List Char → Bool
  | '+' :: cs | '-' :: cs | cs => isNumeral cs

namespace Calm

variable {as bs cs : List Char} {c : Char}

/-- The characters of a number apart from signs. -/
def isFigure (c : Char) : Bool := isDigit c || c == '.' || isExponentMark c

/-- A comment starts with no such character. -/
theorem not_mem_of_isFigure (h : isFigure c = true) : c ∉ "'\"-/".toList := by
  intro hmem
  have hnone : "'\"-/".toList.all (fun c => !isFigure c) = true := by decide
  have := List.all_eq_true.1 hnone c hmem
  simp [h] at this

/-- Such characters in front of a text. -/
theorem figures_append (ha : ∀ c ∈ as, isFigure c = true) (hb : Calm bs) : Calm (as ++ bs) := by
  have has : Calm as := of_forall fun c hc => not_mem_of_isFigure (ha c hc)
  refine has.append hb fun c hc d _ => ?_
  have hmem : c ∈ as := mem_of_mem_unquoted (List.mem_of_getLast? hc)
  have hnot := not_mem_of_isFigure (ha c hmem)
  exact ⟨fun h => hnot (by simp [h.1]), fun h => hnot (by simp [h.1])⟩

/-- A sign in front of a text that does not begin with one. -/
theorem sign {sign : Char} (hsign : sign = '+' ∨ sign = '-') (h : Calm cs)
    (hhead : cs.head? ≠ some '-') : Calm (sign :: cs) := by
  have hone : Calm [sign] ∧ unquoted [sign] = [sign] ∧ sign ≠ '/' := by
    rcases hsign with rfl | rfl <;> decide
  obtain ⟨hcalm, hself, hslash⟩ := hone
  refine hcalm.append h fun c hc d hd => ?_
  rw [hself] at hc
  cases hc
  exact ⟨fun h => hhead (h.2 ▸ hd), fun h => hslash h.1⟩

theorem of_digits (h : ∀ c ∈ cs, isDigit c = true) : Calm cs := by
  rw [← List.append_nil cs]
  exact figures_append (fun c hc => by simp [isFigure, h c hc]) .nil

theorem of_isTail (h : IsTail cs) : Calm cs := by
  obtain rfl | ⟨mark, exponent, rfl, hmark, hexponent⟩ := h
  · exact .nil
  have hmark : ∀ c ∈ [mark], isFigure c = true := by simp [isFigure, hmark]
  refine figures_append hmark ?_
  obtain ⟨d, ds, hd, rfl | ⟨sign, hsign, rfl⟩⟩ := isExponent_cases hexponent
  · exact of_digits hd
  · refine Calm.sign hsign (of_digits hd) fun hminus => ?_
    cases hminus
    exact absurd (hd '-' List.mem_cons_self) (by decide)

/-- A number without a sign in front, perhaps with one in its exponent. -/
theorem of_isNumeral (h : isNumeral cs = true) : Calm cs ∧ cs.head? ≠ some '-' := by
  obtain ⟨mantissa, tail, rfl, hmantissa, htail⟩ := isNumeral_cases h
  obtain ⟨c, ds, rfl, hfigures⟩ : ∃ c ds, mantissa = c :: ds ∧
      ∀ d ∈ c :: ds, isDigit d = true ∨ d = '.' := by
    rcases isMantissa_cases hmantissa with ⟨c, ds, hcs, hc, hds⟩ | ⟨c, ds, hcs, hc, hds⟩
    · exact ⟨c, ds, hcs, List.forall_mem_cons.2 ⟨.inl hc, hds⟩⟩
    · exact ⟨'.', c :: ds, hcs,
        List.forall_mem_cons.2 ⟨.inr rfl, List.forall_mem_cons.2 ⟨.inl hc, hds⟩⟩⟩
  have hfigures : ∀ d ∈ c :: ds, isFigure d = true := fun d hd => by
    rcases hfigures d hd with hdigit | rfl
    · simp [isFigure, hdigit]
    · rfl
  refine ⟨figures_append hfigures (of_isTail htail), fun hminus => ?_⟩
  have hc := hfigures c List.mem_cons_self
  obtain rfl : c = '-' := by simpa using hminus
  cases hc

/-- A number with a sign in front, in its exponent or both. -/
theorem of_isSignedNumeral (h : isSignedNumeral cs = true) : Calm cs := by
  unfold isSignedNumeral at h
  split at h
  · obtain ⟨hcalm, hhead⟩ := of_isNumeral h
    exact sign (.inl rfl) hcalm hhead
  · obtain ⟨hcalm, hhead⟩ := of_isNumeral h
    exact sign (.inr rfl) hcalm hhead
  · exact (of_isNumeral h).1

theorem of_isWord (h : IsWord cs) : Calm cs := by
  refine of_forall fun c hc hmem => ?_
  have hpart : isWordPart c = true := List.all_eq_true.1 h.2 c hc
  have hnone : "'\"-/".toList.all (fun c => !isWordPart c) = true := by decide
  have := List.all_eq_true.1 hnone c hmem
  simp [hpart] at this

end Calm

/-! ## Tokens -/

/-- Tokens that have no comment, one by one. -/
def AllCalm (ts : List Token) : Prop := ∀ t ∈ ts, Calm t.chars

instance (ts : List Token) : Decidable (AllCalm ts) := inferInstanceAs (Decidable (∀ t ∈ ts, _))

/-- What is put together from such tokens are such tokens. -/
theorem AllCalm.weave {tss uss : List (List Token)} {ts us : List Token}
    (h : Woven (fun t => Calm t.chars) tss uss ts us) (hparts : ∀ ts ∈ tss, AllCalm ts) :
    AllCalm ts := by
  induction h with
  | nil => exact List.forall_mem_nil _
  | own ht _ ih => exact List.forall_mem_cons.2 ⟨or_self_iff.1 ht.2.2, ih hparts⟩
  | part p q _ ih =>
    rw [List.forall_mem_cons] at hparts
    exact List.forall_mem_append.2 ⟨hparts.1, ih hparts.2⟩

namespace Node

theorem allRaws_eq_flatMap (ns : List Node) : allRaws ns = ns.flatMap raws := by
  induction ns with
  | nil => rfl
  | cons n rest ih => rw [allRaws, List.flatMap_cons, ih]

theorem optionRaws_eq_flatMap (n : Option Node) : optionRaws n = n.toList.flatMap raws := by
  cases n <;> simp [optionRaws]

theorem branchRaws_eq_flatMap (bs : List (Node × Node)) :
    branchRaws bs = (bs.flatMap fun branch => [branch.1, branch.2]).flatMap raws := by
  induction bs with
  | nil => rfl
  | cons b rest ih => simp [branchRaws, ih]

theorem rowRaws_eq_flatMap (rows : List (List Node)) :
    rowRaws rows = rows.flatten.flatMap raws := by
  induction rows with
  | nil => rfl
  | cons row rest ih => simp [rowRaws, allRaws_eq_flatMap, ih]

theorem selectRaws_eq_flatMap (block : Select Node) :
    selectRaws block = block.parts.flatMap raws := by
  obtain ⟨distinct, items, source, condition, groupBy, having, orderBy, offset, fetch⟩ := block
  simp [selectRaws, Select.parts, allRaws_eq_flatMap, optionRaws_eq_flatMap]

/-- The number or the name of a function of a node itself. -/
def rawsHere : Node → List Token
  | literal l => l.raws
  | call op _ _ => op.raws
  | _ => []

theorem raws_eq_append (n : Node) : n.raws = n.rawsHere ++ n.parts.flatMap raws := by
  cases n <;>
    simp [raws, rawsHere, parts, allRaws_eq_flatMap, optionRaws_eq_flatMap, branchRaws_eq_flatMap,
      rowRaws_eq_flatMap, selectRaws_eq_flatMap]

/-- A part has no other numbers and names of functions than the whole. -/
theorem raws_subset_of_mem_parts {n m : Node} (h : m ∈ n.parts) : m.raws ⊆ n.raws := by
  rw [raws_eq_append n]
  exact fun t ht => List.mem_append_right _ (List.mem_flatMap.2 ⟨m, h, ht⟩)

theorem number_or_function_of_mem_raws {n : Node} {t : Token} (h : t ∈ n.raws) :
    (∃ s, t = .number s) ∨ ∃ f, t = .function f := by
  induction n using induction_parts with
  | h n ih =>
    rw [raws_eq_append, List.mem_append, List.mem_flatMap] at h
    rcases h with hhere | ⟨m, hm, ht⟩
    · cases n with
      | literal l => cases l <;> simp_all [rawsHere, Literal.raws]
      | call op _ _ => cases op <;> simp_all [rawsHere, Op.raws]
      | _ => cases hhere
    · exact ih m hm ht

end Node

namespace Dialect

variable {d : Dialect} {ts : List Token} {tss : List (List Token)} {ns : List Node}

/-! ## Lists of nodes -/

/-- Whatever is written of these nodes are tokens without comments. -/
def WritesCalm (d : Dialect) (ns : List Node) : Prop :=
  ∀ n ∈ ns, ∀ place ts, d.write place n = .ok ts → AllCalm ts

theorem WritesCalm.all (hns : d.WritesCalm ns) {place : Place}
    (h : d.writeAll place ns = .ok tss) : ∀ ts ∈ tss, AllCalm ts := by
  induction ns generalizing tss with
  | nil =>
    cases h
    exact List.forall_mem_nil _
  | cons n rest ih =>
    rw [WritesCalm, List.forall_mem_cons] at hns
    obtain ⟨ts, hts, rest', hrest, rfl⟩ := writeAll_cons_eq_ok.1 h
    exact List.forall_mem_cons.2 ⟨hns.1 place ts hts, ih hns.2 hrest⟩

theorem WritesCalm.operands (hns : d.WritesCalm ns) {op : Op} {position : Nat}
    (h : d.writeOperands op position ns = .ok tss) : ∀ ts ∈ tss, AllCalm ts := by
  induction ns generalizing position tss with
  | nil =>
    cases h
    exact List.forall_mem_nil _
  | cons n rest ih =>
    rw [WritesCalm, List.forall_mem_cons] at hns
    obtain ⟨ts, hts, rest', hrest, rfl⟩ := writeOperands_cons_eq_ok.1 h
    exact List.forall_mem_cons.2 ⟨hns.1 _ ts hts, ih hns.2 hrest⟩

theorem WritesCalm.first (hns : d.WritesCalm ns) (h : d.writeFirst ns = .ok ts) : AllCalm ts := by
  cases ns with
  | nil =>
    cases h
    decide
  | cons n rest => exact hns n List.mem_cons_self _ ts h

theorem WritesCalm.option {n : Option Node} (hn : d.WritesCalm n.toList) {place : Place}
    {o : Option (List Token)} (h : d.writeOption place n = .ok o) :
    ∀ ts ∈ o.toList, AllCalm ts := by
  cases n with
  | none =>
    cases h
    exact List.forall_mem_nil _
  | some n =>
    obtain ⟨ts, hts, rfl⟩ := writeOption_some_eq_ok.1 h
    exact List.forall_mem_singleton.2 (hn n List.mem_cons_self place ts hts)

theorem WritesCalm.branches {bs : List (Node × Node)}
    (hbs : d.WritesCalm (bs.flatMap fun branch => [branch.1, branch.2]))
    (h : d.writeBranches bs = .ok ts) : AllCalm ts := by
  induction bs generalizing ts with
  | nil =>
    cases h
    exact List.forall_mem_nil _
  | cons b rest ih =>
    simp only [WritesCalm, List.flatMap_cons, List.forall_mem_append, List.forall_mem_cons] at hbs
    obtain ⟨condition, hcondition, result, hresult, rest', hrest, rfl⟩ :=
      writeBranches_cons_eq_ok.1 h
    refine .weave (woven_branchTokens condition condition result result rest' rest') ?_
    simp only [List.forall_mem_cons]
    exact ⟨hbs.1.1 _ _ hcondition, hbs.1.2.1 _ _ hresult, ih hbs.2 hrest, List.forall_mem_nil _⟩

theorem WritesCalm.rows {rows : List (List Node)} (hrows : d.WritesCalm rows.flatten)
    (h : d.writeRows rows = .ok tss) : ∀ ts ∈ tss, AllCalm ts := by
  induction rows generalizing tss with
  | nil =>
    cases h
    exact List.forall_mem_nil _
  | cons row rest ih =>
    rw [WritesCalm, List.flatten_cons, List.forall_mem_append] at hrows
    obtain ⟨row', hrow, rest', hrest, rfl⟩ := writeRows_cons_eq_ok.1 h
    have hbracketed : AllCalm (bracketed (commaSeparated row')) :=
      .weave (Woven.commaSeparated rfl).inBrackets (WritesCalm.all hrows.1 hrow)
    exact List.forall_mem_cons.2 ⟨hbracketed, ih hrows.2 hrest⟩

theorem WritesCalm.select {block : Select Node} (hblock : d.WritesCalm block.parts)
    (h : d.writeSelect block = .ok ts) : AllCalm ts := by
  obtain ⟨s, hs, rfl⟩ := writesParts_of_writeSelect h
  simp only [WritesCalm, Select.parts, List.forall_mem_append] at hblock
  obtain ⟨⟨⟨⟨⟨⟨⟨hitems, hsource⟩, hcondition⟩, hgroup⟩, hhaving⟩, horder⟩, hoffset⟩, hfetch⟩ :=
    hblock
  refine .weave (woven_selectTokens d.features.pagination (.refl s)) ?_
  have hbounds : ∀ ts ∈ d.features.pagination.arrange s.offset.toList s.fetch.toList,
      AllCalm ts := by
    cases d.features.pagination with
    | offsetFetch =>
      exact List.forall_mem_append.2
        ⟨WritesCalm.option hoffset hs.offset, WritesCalm.option hfetch hs.fetch⟩
    | limitOffset =>
      exact List.forall_mem_append.2
        ⟨WritesCalm.option hfetch hs.fetch, WritesCalm.option hoffset hs.offset⟩
  simp only [writtenParts, List.forall_mem_append]
  exact ⟨⟨⟨⟨⟨⟨WritesCalm.all hitems hs.items, WritesCalm.option hsource hs.source⟩,
    WritesCalm.option hcondition hs.condition⟩, WritesCalm.all hgroup hs.groupBy⟩,
    WritesCalm.option hhaving hs.having⟩, WritesCalm.all horder hs.orderBy⟩, hbounds⟩

/-! ## Trees -/

theorem allCalm_placeQuery (d : Dialect) (isPaged : Bool) (place : Place) (h : AllCalm ts) :
    AllCalm (d.placeQuery isPaged ts place) := by
  have hone : ∀ us ∈ [ts], AllCalm us := List.forall_mem_singleton.2 h
  by_cases hplace : place = .source
  · subst hplace
    have hbracketed : AllCalm (bracketed ts) := .weave (Woven.one ts ts).inBrackets hone
    refine List.forall_mem_append.2 ⟨hbracketed, ?_⟩
    split_ifs
    · decide
    · exact List.forall_mem_nil _
  · exact .weave (woven_placeQuery d isPaged hplace ts ts) hone

theorem allCalm_call {op : Op} {operands : List Node} {distinct : Bool} {place : Place}
    (hoperands : d.WritesCalm operands) (hop : ∀ t ∈ op.raws, Calm t.chars)
    (h : d.write place (.call op operands distinct) = .ok ts) : AllCalm ts := by
  cases (write_call_eq_ok.1 h).2 with
  | @singleValue operand _ hoperand =>
    exact .weave (woven_singleValueTokens operand operand)
      (List.forall_mem_singleton.2 (hoperands.first hoperand))
  | rounding _ hrounding _ hwritten =>
    obtain ⟨us, u, rfl⟩ := exists_operands_of_rounding? hrounding hwritten
    exact .weave (woven_roundingTokens hrounding us us)
      (List.forall_mem_singleton.2 (hoperands.operands hwritten us List.mem_cons_self))
  | operator _ _ htakes hwritten =>
    exact .weave (woven_operator distinct place hop htakes) (hoperands.operands hwritten)

/-- A node adds no comment to what is written of its parts. -/
theorem allCalm_of_parts {n : Node} {place : Place} (hparts : d.WritesCalm n.parts)
    (hraw : ∀ t ∈ n.raws, Calm t.chars) (h : d.write place n = .ok ts) : AllCalm ts := by
  cases n with
  | name parts =>
    cases h
    exact .weave (woven_nameTokens parts) (List.forall_mem_nil _)
  | star =>
    cases h
    decide
  | literal l =>
    cases h
    exact .weave (woven_literalTokens (by simpa [Node.raws] using hraw)) (List.forall_mem_nil _)
  | parameter index type =>
    have hmark : Calm "?".toList := by decide
    have hparameter : AllCalm [.parameter index] := List.forall_mem_singleton.2 hmark
    exact .weave (woven_parameterTokens (by simpa [write] using h))
      (List.forall_mem_singleton.2 hparameter)
  | call op operands distinct =>
    rw [Node.raws, List.forall_mem_append] at hraw
    exact allCalm_call hparts hraw.1 h
  | cast operand target =>
    obtain ⟨us, hoperand, target, htarget, rfl⟩ := write_cast_eq_ok.1 h
    exact .weave (woven_castTokens htarget us us)
      (List.forall_mem_singleton.2 (hparts _ List.mem_cons_self _ us hoperand))
  | caseOf subject branches otherwise =>
    simp only [WritesCalm, Node.parts, List.forall_mem_append] at hparts
    obtain ⟨-, subject', hsubject, branches', hbranches, otherwise', hotherwise, rfl⟩ :=
      write_caseOf_eq_ok.1 h
    refine .weave (woven_caseTokens branches' branches' rfl rfl) ?_
    simp only [List.forall_mem_append, List.forall_mem_singleton]
    exact ⟨⟨WritesCalm.option hparts.1.1 hsubject, WritesCalm.branches hparts.1.2 hbranches⟩,
      WritesCalm.option hparts.2 hotherwise⟩
  | array items =>
    obtain ⟨-, items', hitems, rfl⟩ := write_array_eq_ok.1 h
    exact .weave (woven_arrayTokens rfl) (WritesCalm.all hparts hitems)
  | window called partitionBy orderBy =>
    simp only [WritesCalm, Node.parts, List.forall_mem_cons, List.forall_mem_append] at hparts
    obtain ⟨-, called', hcalled, partitionBy', hpartition, orderBy', horder, rfl⟩ :=
      write_window_eq_ok.1 h
    refine .weave (woven_windowTokens called' called' rfl rfl) ?_
    simp only [List.forall_mem_append, List.forall_mem_singleton]
    exact ⟨⟨hparts.1 _ _ hcalled, WritesCalm.all hparts.2.1 hpartition⟩,
      WritesCalm.all hparts.2.2 horder⟩
  | aliased operand name =>
    obtain ⟨us, hoperand, rfl⟩ := write_aliased_eq_ok.1 h
    exact .weave (woven_aliasTokens name us us)
      (List.forall_mem_singleton.2 (hparts _ List.mem_cons_self _ us hoperand))
  | sortKey operand descending nullsFirst =>
    obtain ⟨us, hoperand, rfl⟩ := write_sortKey_eq_ok.1 h
    exact .weave (woven_sortKeyTokens descending nullsFirst us us)
      (List.forall_mem_singleton.2 (hparts _ List.mem_cons_self _ us hoperand))
  | join left right kind condition =>
    simp only [WritesCalm, Node.parts, List.forall_mem_cons] at hparts
    obtain ⟨-, left', hleft, right', hright, condition', hcondition, rfl⟩ := write_join_eq_ok.1 h
    refine .weave (woven_joinTokens kind left' left' right' right' rfl) ?_
    simp only [List.cons_append, List.nil_append, List.forall_mem_cons]
    exact ⟨hparts.1 _ _ hleft, hparts.2.1 _ _ hright, WritesCalm.option hparts.2.2 hcondition⟩
  | select block =>
    obtain ⟨query, hquery, rfl⟩ := write_select_eq_ok.1 h
    exact allCalm_placeQuery d _ place (WritesCalm.select hparts hquery)
  | setOperation op left right =>
    simp only [WritesCalm, Node.parts, List.forall_mem_cons] at hparts
    obtain ⟨left', hleft, right', hright, rfl⟩ := write_setOperation_eq_ok.1 h
    refine allCalm_placeQuery d _ place (.weave (woven_setTokens op left' left' right' right') ?_)
    simp only [List.forall_mem_cons]
    exact ⟨hparts.1 _ _ hleft, hparts.2.1 _ _ hright, List.forall_mem_nil _⟩
  | values rows =>
    obtain ⟨-, rows', hrows, rfl⟩ := write_values_eq_ok.1 h
    exact allCalm_placeQuery d _ place
      (.weave (woven_valuesTokens rfl) (WritesCalm.rows hparts hrows))

/-- Whatever is written are tokens without comments, if numbers and names of functions are. -/
theorem allCalm_write (n : Node) (hraw : ∀ t ∈ n.raws, Calm t.chars) :
    ∀ place ts, d.write place n = .ok ts → AllCalm ts := by
  induction n using Node.induction_parts with
  | h n ih =>
    intro place ts h
    refine allCalm_of_parts (fun m hm => ih m hm fun t ht => ?_) hraw h
    exact hraw t (Node.raws_subset_of_mem_parts hm ht)

/-! ## Texts -/

/-- A made-up name becomes a name. -/
theorem mem_settle {aliasPrefix : String} {number : Nat} {t : Token}
    (h : t ∈ settle aliasPrefix number ts) : t ∈ ts ∨ ∃ n, t = .name n := by
  induction ts generalizing number with
  | nil => cases h
  | cons u rest ih =>
    by_cases hmade : u = .madeUpName
    · subst hmade
      rcases List.mem_cons.1 h with rfl | h
      · exact .inr ⟨_, rfl⟩
      · exact (ih h).imp_left (List.mem_cons_of_mem _)
    · rw [settle_cons hmade] at h
      rcases List.mem_cons.1 h with rfl | h
      · exact .inl List.mem_cons_self
      · exact (ih h).imp_left (List.mem_cons_of_mem _)

/-- No text has a comment outside of quotes, if the numbers of the tree are numbers and its names of
functions are names. -/
theorem no_comment_text (d : Dialect) (aliasPrefix : String) (n : Node)
    (hnumbers : ∀ t, .number t ∈ n.raws → isSignedNumeral t.toList = true)
    (hfunctions : ∀ f, .function f ∈ n.raws → IsWord f.toList) (s : String)
    (hs : d.text aliasPrefix n = .ok s) :
    ¬"--".toList <:+: unquoted s.toList ∧ ¬"/*".toList <:+: unquoted s.toList := by
  obtain ⟨ts, hts, hrender⟩ := bind_eq_ok.1 hs
  cases hrender
  have hraw : ∀ t ∈ n.raws, Calm t.chars := by
    intro t ht
    rcases Node.number_or_function_of_mem_raws ht with ⟨s, rfl⟩ | ⟨f, rfl⟩
    · exact .of_isSignedNumeral (hnumbers s ht)
    · exact .of_isWord (hfunctions f ht)
  have hsettled : ∀ t ∈ settle aliasPrefix 0 ts, Calm t.chars := by
    intro t ht
    rcases mem_settle ht with ht | ⟨name, rfl⟩
    · exact allCalm_write n hraw _ ts hts t ht
    · exact calm_name name
  have hphrase : Phrase (fun _ => True) _ ts :=
    phrase_write (fun _ _ => trivial) n hts fun _ _ => trivial
  rw [render, toList_join_tokenTexts]
  exact (hphrase.settle.calm hsettled).no_comment

/-- Signs, a division and a star in a row, and two signs in quotes. -/
theorem no_comment_text_signs :
    let negated : Node := .apply .negate [.literal (.exact "-1.5e-3")]
    let n : Node := .apply (.function "MEDIAN")
      [.apply .minus [.name ["a--b"], negated], .apply .divide [.apply .negate [negated], .star]]
    let s : String := "MEDIAN(\"a--b\" - - -1.5e-3, -(- -1.5e-3) / *)"
    (∀ t, .number t ∈ n.raws → isSignedNumeral t.toList = true) ∧
      (∀ f, .function f ∈ n.raws → IsWord f.toList) ∧ ansi.text "t" n = .ok s ∧
      ¬"--".toList <:+: unquoted s.toList ∧ ¬"/*".toList <:+: unquoted s.toList := by
  intro negated n s
  have hraws : n.raws =
      [.function "MEDIAN", .number "-1.5e-3", .number "-1.5e-3"] := rfl
  have hnumbers : ∀ t, .number t ∈ n.raws → isSignedNumeral t.toList = true := by
    intro t ht
    obtain rfl : t = "-1.5e-3" := by simpa [hraws] using ht
    decide
  have hfunctions : ∀ f, .function f ∈ n.raws → IsWord f.toList := by
    intro f hf
    obtain rfl : f = "MEDIAN" := by simpa [hraws] using hf
    decide
  have htext : ansi.text "t" n = .ok s := by decide +kernel
  exact ⟨hnumbers, hfunctions, htext,
    no_comment_text ansi "t" n hnumbers hfunctions s htext⟩

end Dialect

end StorePlan.Sql
