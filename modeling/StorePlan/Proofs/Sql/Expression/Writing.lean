import StorePlan.Proofs.Sql.Expression.OfNode

/-
What is written of a tree that is a formula are the lexemes of what the formula
is spelled as, with brackets where the place demands them of the formula.
-/

namespace StorePlan.Sql

open Lexeme Expression

/-! ## Tokens that show lexemes -/

/-- The tokens have these lexemes, and no name among them is made up. -/
structure Shows (ts : List Token) (ls : List Lexeme) : Prop where
  lexemes : lexemesOf ts = ls
  settled : .madeUpName ∉ ts

namespace Shows

variable {ts us : List Token} {ls ms : List Lexeme}

theorem nil : Shows [] [] := ⟨rfl, by simp⟩

theorem append (ht : Shows ts ls) (hu : Shows us ms) : Shows (ts ++ us) (ls ++ ms) :=
  ⟨by rw [lexemesOf_append, ht.lexemes, hu.lexemes], by simp [ht.settled, hu.settled]⟩

theorem single {t : Token} (h : t ≠ .madeUpName) : Shows [t] t.lexemes :=
  ⟨by simp, by simpa using h.symm⟩

theorem word (w : String) : Shows [.word w] (ofChars w.toList) := single (by simp)

theorem parameter (i : Nat) : Shows [.parameter i] [.sign "?"] := by
  have := single (t := .parameter i) (by simp)
  rwa [Token.lexemes_parameter] at this

theorem blank (hu : Shows us ms) : Shows (.blank :: us) ms :=
  (single (t := .blank) (by simp)).append hu

theorem spaced (w : String) : Shows (spaced w) (ofChars w.toList) := by
  have hblank : Shows [.blank] [] := single (by simp)
  simpa [Sql.spaced] using hblank.append ((word w).append hblank)

/-- A keyword with blanks around it. -/
theorem keyword {w : String} (h : ofChars w.toList = [.word w]) : Shows (Sql.spaced w) [.word w] :=
  h ▸ spaced w

theorem leading {w : String} (h : ofChars w.toList = [.word w]) (hu : Shows us ms) :
    Shows (.word w :: us) (.word w :: ms) := by
  have := (word w).append hu
  rwa [h] at this

theorem bracketed (ht : Shows ts ls) : Shows (bracketed ts) (inBrackets ls) :=
  ⟨by simp [ht.lexemes, inBrackets], by simp [Sql.bracketed, ht.settled]⟩

theorem commaSeparated : ∀ {tss : List (List Token)} {lss : List (List Lexeme)},
    List.Forall₂ Shows tss lss → Shows (commaSeparated tss) (listed lss)
  | _, _, .nil => nil
  | _, _, .cons h .nil => h
  | _, _, .cons h (.cons hnext hrest) => by
    have hcomma : Shows [.word ",", .blank] [.sign ","] := ⟨rfl, by simp⟩
    have := (h.append hcomma).append (commaSeparated (.cons hnext hrest))
    simpa [Sql.commaSeparated, listed] using this

end Shows

/-! ## Leaves and operators -/

theorem lexemes_namePart (part : String) : (Dialect.namePart part).lexemes = [partLexeme part] := by
  unfold Dialect.namePart partLexeme
  split_ifs <;> simp

theorem shows_nameTokens (parts : List String) :
    Shows (Dialect.nameTokens parts) (nameLexemes parts) := by
  refine ⟨?_, madeUpName_not_mem_nameTokens parts⟩
  match parts with
  | [] => rfl
  | [part] => simp [Dialect.nameTokens, nameLexemes, lexemes_namePart]
  | part :: next :: rest =>
    have := (shows_nameTokens (next :: rest)).lexemes
    simp [Dialect.nameTokens, nameLexemes, lexemes_namePart, this]

theorem shows_literalTokens {l : Literal} {leaf : Leaf} (h : l.leaf? = some leaf) :
    Shows (Dialect.literalTokens l) leaf.lexemes := by
  have dated {w : String} (t : String) :
      Shows [.word w, .blank, .string t] (ofChars w.toList ++ [.quoted stringQuote t]) := by
    have := (Shows.word w).append (Shows.single (t := .string t) (by simp)).blank
    simpa using this
  cases l with
  | exact t | approximate t =>
    simp only [Literal.leaf?] at h
    split_ifs at h
    cases h
    exact .single (by simp)
  | null =>
    cases h
    exact .word "NULL"
  | boolean b =>
    cases h
    cases b
    · exact .word "FALSE"
    · exact .word "TRUE"
  | string s =>
    cases h
    have := Shows.single (t := .string s) (by simp)
    rwa [Token.lexemes_string] at this
  | date t | time t | timestamp t =>
    cases h
    exact dated t
  | interval t q =>
    cases h
    exact (dated (w := "INTERVAL") t).append (Shows.word q.text).blank
  | unit u => cases h

/-- An operator with its operands. -/
theorem shows_operatorTokens {op : Op} {distinct : Bool} {operands : List Node}
    {written : List (List Token)} {lss : List (List Lexeme)}
    (htakes : (Frame.operator op).takes written.length = true)
    (hquery : operands.any Node.isQuery = false) (h : List.Forall₂ Shows written lss) :
    Shows (Dialect.operatorTokens op distinct operands written) (op.around lss) := by
  simp only [Frame.takes, Bool.and_eq_true, bne_iff_ne] at htakes
  obtain ⟨⟨hbinary, hfunction⟩, htakes⟩ := htakes
  cases Op.arranged_of_takes htakes with
  | binary hlayout => exact absurd hlayout hbinary
  | function hlayout => exact absurd hlayout hfunction
  | @leading _ ts hlayout =>
    obtain ⟨ls, _, hts, hnil, rfl⟩ := List.forall₂_cons_left_iff.1 h
    cases hnil
    have hgap : Shows (Dialect.leadingGap op ts ++ ts) ls := by
      unfold Dialect.leadingGap
      split_ifs
      · exact hts.blank
      · exact hts
    have := (Shows.word op.name).append hgap
    cases op <;> first | exact this | cases hlayout
  | trailing hlayout =>
    obtain ⟨ls, _, hts, hnil, rfl⟩ := List.forall₂_cons_left_iff.1 h
    cases hnil
    have := hts.append (Shows.word op.name).blank
    cases op <;> first | exact this | cases hlayout
  | isIn _ =>
    obtain ⟨ls, _, hts, hlist, rfl⟩ := List.forall₂_cons_left_iff.1 h
    -- No operand is a query, so the list always stands in brackets of its own.
    have hdrop : (operands.drop 1).any Node.isQuery = false := by
      rw [List.any_eq_false] at hquery ⊢
      exact fun n hn => hquery n (List.mem_of_mem_drop hn)
    rw [Dialect.operatorTokens_isIn]
    simp only [hdrop, Bool.false_and, Bool.false_eq_true, if_false]
    have := (hts.append (.keyword (w := "IN") rfl)).append (Shows.commaSeparated hlist).bracketed
    simpa [Op.around] using this
  | between =>
    obtain _ | ⟨hvalue, _ | ⟨hlow, _ | ⟨hhigh, _ | _⟩⟩⟩ := h
    rw [Dialect.operatorTokens_between]
    have := (((hvalue.append (.keyword (w := "BETWEEN") rfl)).append hlow).append
      (.keyword (w := "AND") rfl)).append hhigh
    simpa [Op.around] using this

theorem complete_functionName {name : String} (h : isFunctionName name = true) :
    Complete name.toList ∧ ofChars name.toList = [.word name] := by
  rw [isFunctionName, Bool.and_eq_true, decide_eq_true_eq] at h
  simpa using ofChars_word h.1

theorem shows_functionTokens {op : Op} {distinct : Bool} {written : List (List Token)}
    {lss : List (List Lexeme)} (hop : op ≠ .sumOrZero) (hname : isFunctionName op.name = true)
    (h : List.Forall₂ Shows written lss) :
    Shows (Dialect.functionTokens op distinct written)
      ((Frame.call op.name distinct).around lss) := by
  have hfunction : Shows [.function op.name] [.word op.name] := by
    have := Shows.single (t := .function op.name) (by simp)
    rwa [show (Token.function op.name).lexemes = [.word op.name] from
      (complete_functionName hname).2] at this
  have hdistinct : Shows (if distinct then [.word "DISTINCT", .blank] else [])
      (if distinct then [.word "DISTINCT"] else []) := by
    split_ifs
    · exact ⟨rfl, by simp⟩
    · exact .nil
  rw [Dialect.functionTokens, if_neg hop]
  exact hfunction.append (hdistinct.append (Shows.commaSeparated h)).bracketed

theorem shows_placeExpression {ts : List Token} {ls : List Lexeme} (h : Shows ts ls)
    (precedence : Nat) (place : Place) :
    Shows (Dialect.placeExpression precedence ts place)
      (Expression.enclosed precedence place.precedence ls) := by
  unfold Dialect.placeExpression Expression.enclosed
  split_ifs
  · exact h.bracketed
  · exact h

/-! ## Calls -/

section Calls

variable {d : Dialect} {op : Op} {distinct : Bool} {operands : List Node} {fs : List Formula}
  {x : Formula}

theorem ne_of_formula? (h : op.formula? distinct fs = some x) :
    op ≠ .singleValue ∧ op ≠ .sumOrZero := by
  constructor <;> rintro rfl <;> simp [Op.formula?, Op.layout] at h

/-- A call that is a formula does not round to a unit of time. -/
theorem rounding?_of_allFormulas? (h : Node.allFormulas? d operands = some fs) :
    d.rounding? op operands = .ok none := by
  have hunit : Dialect.roundingUnit? op operands = none := by
    unfold Dialect.roundingUnit?
    split
    · simp [Node.allFormulas?, Node.formula?, Literal.leaf?] at h
    · rfl
  rw [Dialect.rounding?, hunit]

theorem isQuery_eq_false {n : Node} (h : n.formula? d = some x) : n.isQuery = false := by
  cases n <;> first | rfl | cases h

theorem any_isQuery_eq_false :
    ∀ {ns : List Node} {fs : List Formula}, Node.allFormulas? d ns = some fs →
      ns.any Node.isQuery = false
  | [], _, _ => rfl
  | n :: rest, fs, h => by
    simp only [Node.allFormulas?, Option.bind_eq_bind, Option.bind_eq_some_iff] at h
    obtain ⟨x, hx, fs', hfs, -⟩ := h
    rw [List.any_cons, isQuery_eq_false hx, any_isQuery_eq_false hfs]
    rfl

/-- What is written of a call around its written operands. -/
theorem shows_call {written : List (List Token)} (hx : op.formula? distinct fs = some x)
    (hregular : x.Regular) (hquery : operands.any Node.isQuery = false)
    (h : List.Forall₂ Shows written (Formula.operandLexemes (.operator op) 0 fs)) :
    x.precedence = op.precedence ∧
      Shows (Dialect.operatorTokens op distinct operands written) x.spelled.lexemes := by
  have hlength : written.length = fs.length :=
    h.length_eq.trans (Formula.length_operandLexemes _ _ _)
  have hne := ne_of_formula? hx
  -- Between two operands, as a function, or as a frame around operands.
  unfold Op.formula? at hx
  split at hx
  · rename_i hlayout
    cases hx
    cases h with
    | cons hleft h =>
      cases h with
      | cons hright h =>
        cases h
        rw [Formula.lexemes_spelled_binary hlayout hregular.2.1 hregular.2.2]
        simp only [Dialect.operatorTokens, hlayout]
        exact ⟨rfl, (hleft.append (.spaced op.name)).append hright⟩
  · cases hx
  · rename_i hlayout
    split_ifs at hx with hcall
    cases hx
    have hzero (i : Nat) : (Frame.operator op).operandPrecedence i = 0 := by
      simp [Frame.operandPrecedence, Op.operandPrecedence, hlayout]
    rw [Formula.operandLexemes_free _ fun i _ => hzero i] at h
    have hprecedence : op.precedence = Op.leafPrecedence := by
      cases op <;> first | rfl | cases hlayout
    refine ⟨hprecedence.symm, ?_⟩
    rw [Formula.lexemes_spelled_frame hregular.2 hregular.1,
      Formula.operandLexemes_free _ fun _ _ => rfl]
    simp only [Dialect.operatorTokens, hlayout]
    exact shows_functionTokens hcall.1 hcall.2.2 h
  · split_ifs at hx with htakes
    cases hx
    rw [Formula.lexemes_spelled_frame hregular.2 hregular.1]
    exact ⟨rfl, shows_operatorTokens (hlength ▸ htakes) hquery h⟩

theorem operandPrecedence_le (op : Op) (position : Nat) :
    op.operandPrecedence position ≤ Op.leafPrecedence := by
  have hlt (h : op.layout ≠ .function) : op.precedence < Op.leafPrecedence := by
    cases op <;> first | decide | exact absurd rfl h
  unfold Op.operandPrecedence
  cases hlayout : op.layout with
  | function => exact Nat.zero_le _
  | binary | leading | trailing | special =>
    have := hlt (by simp [hlayout])
    simp only
    try split_ifs
    all_goals omega

end Calls

/-! ## Trees -/

section Trees

variable {d : Dialect}

/-- The frame of a cast around a written operand. -/
theorem shows_castTokens {ts : List Token} {ls : List Lexeme} (h : Shows ts ls)
    (target : CastTarget) :
    Shows (Dialect.castTokens ts target)
      ((Frame.cast (ofChars target.text.toList)).around [ls]) := by
  have hinner := (h.append (.keyword (w := "AS") rfl)).append (Shows.word target.text)
  have := Shows.leading (w := "CAST") rfl hinner.bracketed
  simpa [Dialect.castTokens, Frame.around, listed] using this

/-- What ends a case distinction: the default if there is one, and `END`. -/
theorem shows_caseEnd {otherwise : Option (List Token)} {lss : List (List Lexeme)}
    (h : List.Forall₂ Shows otherwise.toList lss) :
    Shows (Dialect.clause "ELSE" otherwise ++ [.blank, .word "END"]) (branchLexemes lss) := by
  have hend : Shows [.blank, .word "END"] [.word "END"] := (Shows.word "END").blank
  cases otherwise with
  | none =>
    rw [List.forall₂_nil_left_iff.1 h]
    exact hend
  | some ts =>
    obtain ⟨ls, _, hts, hnil, rfl⟩ := List.forall₂_cons_left_iff.1 h
    cases hnil
    exact ((Shows.keyword (w := "ELSE") rfl).append hts).append hend

/-- The frame of a case distinction around its written parts. -/
theorem shows_caseTokens {subject otherwise : Option (List Token)} {branches : List Token}
    {subject' branches' otherwise' : List (List Lexeme)} {ls : List Lexeme}
    (hsubject : List.Forall₂ Shows subject.toList subject') (hbranches : Shows branches ls)
    (hlexemes : ∀ more, branchLexemes (branches' ++ more) = ls ++ branchLexemes more)
    (hotherwise : List.Forall₂ Shows otherwise.toList otherwise') :
    Shows ([.word "CASE"] ++
        (match subject with | some tokens => .blank :: tokens | none => []) ++ branches ++
        Dialect.clause "ELSE" otherwise ++ [.blank, .word "END"])
      ((Frame.caseOf subject.isSome).around (subject' ++ (branches' ++ otherwise'))) := by
  have htail := hbranches.append (shows_caseEnd hotherwise)
  cases subject with
  | none =>
    rw [List.forall₂_nil_left_iff.1 hsubject]
    have := Shows.leading (w := "CASE") rfl htail
    simpa [Frame.around, hlexemes] using this
  | some ts =>
    obtain ⟨us, _, hts, hnil, rfl⟩ := List.forall₂_cons_left_iff.1 hsubject
    cases hnil
    have := Shows.leading (w := "CASE") rfl (hts.blank.append htail)
    simpa [Frame.around, hlexemes] using this

theorem ofChars_coarsest (q : IntervalQualifier) :
    ofChars q.start.name.toList = ofChars (coarsest q).text.toList := by
  cases q <;> rfl

/-- A parameter that is an interval. -/
theorem shows_parameterTokens {i : Nat} {q : IntervalQualifier} {t : IntervalText}
    {ts : List Token} (h : d.intervalText? q = some t)
    (hts : d.parameterTokens i (some (.interval q)) = .ok ts) : Shows ts t.expression.lexemes := by
  unfold Dialect.intervalText? at h
  simp only [Dialect.parameterTokens] at hts
  split at h
  · rename_i hplain
    cases h
    rw [hplain] at hts
    cases hts
    exact .parameter i
  · rename_i hcast
    obtain ⟨target, htarget, rfl⟩ := Option.map_eq_some_iff.1 h
    rw [hcast, Node.castTarget_eq_ok htarget] at hts
    cases hts
    exact shows_castTokens (.parameter i) target
  · rename_i hmultiple
    cases h
    rw [hmultiple] at hts
    cases hts
    have hunit : Shows [.word "INTERVAL", .blank, .string "1", .blank, .word q.start.name]
        (.word "INTERVAL" :: .quoted stringQuote "1" :: ofChars (coarsest q).text.toList) := by
      have hword := (Shows.word q.start.name).blank
      rw [ofChars_coarsest] at hword
      exact Shows.leading (w := "INTERVAL") rfl
        ((Shows.single (t := .string "1") (by simp)).append hword).blank
    exact ((Shows.parameter i).append (.spaced "*")).append hunit

mutual

/-- What is written of a tree are the lexemes of its formula. -/
theorem shows_write {place : Place} {ts : List Token} {x : Formula} :
    ∀ n : Node, n.formula? d = some x → place.precedence ≤ Op.leafPrecedence →
      d.write place n = .ok ts → Shows ts (x.placed place.precedence)
  | .name parts, h, hplace, hts => by
    simp only [Node.formula?] at h
    split_ifs at h
    cases h
    cases hts
    rw [Formula.placed_of_le hplace]
    exact shows_nameTokens parts
  | .star, h, hplace, hts => by
    cases h
    cases hts
    rw [Formula.placed_of_le hplace]
    exact .word "*"
  | .literal l, h, hplace, hts => by
    obtain ⟨leaf, hleaf, rfl⟩ := Option.map_eq_some_iff.1 h
    cases hts
    rw [Formula.placed_of_le hplace]
    exact shows_literalTokens hleaf
  | .parameter i type, h, hplace, hts => by
    simp only [Node.formula?] at h
    simp only [Dialect.write] at hts
    split at h
    · obtain ⟨t, ht, rfl⟩ := Option.map_eq_some_iff.1 h
      rw [Formula.placed_of_le hplace]
      exact shows_parameterTokens ht hts
    · rename_i hne
      cases h
      have htokens : d.parameterTokens i type = .ok [.parameter i] := by
        unfold Dialect.parameterTokens
        split
        · exact absurd rfl (hne _)
        · rfl
      rw [htokens] at hts
      cases hts
      rw [Formula.placed_of_le hplace]
      exact .parameter i
  | .call op operands distinct, h, hplace, hts => by
    have hregular := Node.regular_of_formula? _ h
    simp only [Node.formula?, Option.bind_eq_bind, Option.bind_eq_some_iff] at h
    obtain ⟨fs, hfs, hx⟩ := h
    cases (Dialect.write_call_eq_ok.1 hts).2 with
    | singleValue hop _ => exact absurd hop.1 (ne_of_formula? hx).1
    | rounding _ hrounding _ _ =>
      rw [rounding?_of_allFormulas? hfs] at hrounding
      cases hrounding
    | operator _ _ _ hwritten =>
      have hoperands := shows_writeOperands operands hfs hwritten
      obtain ⟨hprecedence, hshows⟩ := shows_call hx hregular (any_isQuery_eq_false hfs) hoperands
      rw [Formula.placed, hprecedence]
      exact shows_placeExpression hshows op.precedence place
  | .cast operand type, h, hplace, hts => by
    have hregular := Node.regular_of_formula? _ h
    simp only [Node.formula?, Option.bind_eq_bind, Option.bind_eq_some_iff] at h
    obtain ⟨x', hx', target, htarget, h⟩ := h
    cases h
    obtain ⟨us, hus, target', htarget', rfl⟩ := Dialect.write_cast_eq_ok.1 hts
    rw [Node.castTarget_eq_ok htarget] at htarget'
    cases htarget'
    have hoperand := shows_write operand hx' (Nat.zero_le _) hus
    rw [Formula.placed_of_le hplace, Formula.lexemes_spelled_frame hregular.2 hregular.1]
    exact shows_castTokens hoperand target
  | .caseOf subject branches otherwise, h, hplace, hts => by
    have hregular := Node.regular_of_formula? _ h
    simp only [Node.formula?] at h
    split_ifs at h
    simp only [Option.bind_eq_bind, Option.bind_eq_some_iff] at h
    obtain ⟨subject', hsubject, branches', hbranches, otherwise', hotherwise, h⟩ := h
    cases h
    obtain ⟨-, us, hus, vs, hvs, ws, hws, rfl⟩ := Dialect.write_caseOf_eq_ok.1 hts
    obtain ⟨hsome, hsubject⟩ := shows_writeOption subject hsubject hus
    obtain ⟨-, hotherwise⟩ := shows_writeOption otherwise hotherwise hws
    obtain ⟨ls, hshows, hlexemes⟩ := shows_writeBranches branches hbranches hvs
    rw [Formula.placed_of_le hplace, Formula.lexemes_spelled_frame hregular.2 hregular.1,
      Formula.operandLexemes_free _ fun _ _ => rfl, List.map_append, List.map_append, ← hsome]
    exact shows_caseTokens hsubject hshows hlexemes hotherwise
  | .array _, h, _, _ | .window .., h, _, _ | .aliased .., h, _, _ | .sortKey .., h, _, _
  | .join .., h, _, _ | .select _, h, _, _ | .setOperation .., h, _, _ | .values _, h, _, _ => by
    cases h

theorem shows_writeOperands {op : Op} {tss : List (List Token)} :
    ∀ {position : Nat} (ns : List Node) {fs : List Formula},
      Node.allFormulas? d ns = some fs → d.writeOperands op position ns = .ok tss →
        List.Forall₂ Shows tss (Formula.operandLexemes (.operator op) position fs)
  | position, [], fs, h, htss => by
    cases h
    cases htss
    exact .nil
  | position, n :: rest, fs, h, htss => by
    simp only [Node.allFormulas?, Option.bind_eq_bind, Option.bind_eq_some_iff] at h
    obtain ⟨x, hx, fs', hfs, h⟩ := h
    cases h
    obtain ⟨ts, hts, tss', htss', rfl⟩ := Dialect.writeOperands_cons_eq_ok.1 htss
    have hplace : (Place.operand (op.operandPrecedence position)).precedence ≤ Op.leafPrecedence :=
      operandPrecedence_le op position
    exact .cons (shows_write n hx hplace hts) (shows_writeOperands rest hfs htss')

theorem shows_writeOption {o : Option (List Token)} {fs : List Formula} :
    ∀ n : Option Node, Node.optionFormulas? d n = some fs → d.writeOption .free n = .ok o →
      o.isSome = n.isSome ∧ List.Forall₂ Shows o.toList (fs.map fun x => x.spelled.lexemes)
  | none, h, ho => by
    cases h
    cases ho
    exact ⟨rfl, .nil⟩
  | some n, h, ho => by
    simp only [Node.optionFormulas?, Option.bind_eq_bind, Option.bind_eq_some_iff] at h
    obtain ⟨x, hx, h⟩ := h
    cases h
    obtain ⟨ts, hts, rfl⟩ := Dialect.writeOption_some_eq_ok.1 ho
    have hshows := shows_write n hx (Nat.zero_le _) hts
    rw [Place.free, Place.precedence, Formula.placed_free] at hshows
    exact ⟨rfl, .cons hshows .nil⟩

theorem shows_writeBranches {ts : List Token} :
    ∀ (bs : List (Node × Node)) {fs : List Formula}, Node.branchFormulas? d bs = some fs →
      d.writeBranches bs = .ok ts →
        ∃ ls, Shows ts ls ∧ ∀ more,
          branchLexemes (fs.map (fun x => x.spelled.lexemes) ++ more) = ls ++ branchLexemes more
  | [], fs, h, hts => by
    cases h
    cases hts
    exact ⟨[], .nil, fun _ => rfl⟩
  | (condition, result) :: rest, fs, h, hts => by
    simp only [Node.branchFormulas?, Option.bind_eq_bind, Option.bind_eq_some_iff] at h
    obtain ⟨x, hx, x', hx', fs', hfs, h⟩ := h
    cases h
    obtain ⟨us, hus, vs, hvs, ws, hws, rfl⟩ := Dialect.writeBranches_cons_eq_ok.1 hts
    have hcondition := shows_write condition hx (Nat.zero_le _) hus
    have hresult := shows_write result hx' (Nat.zero_le _) hvs
    rw [Place.free, Place.precedence, Formula.placed_free] at hcondition hresult
    obtain ⟨ls, hshows, hlexemes⟩ := shows_writeBranches rest hfs hws
    refine ⟨_, ((((Shows.keyword (w := "WHEN") rfl).append hcondition).append
      (.keyword (w := "THEN") rfl)).append hresult).append hshows, fun more => ?_⟩
    simp [branchLexemes, hlexemes]

end

end Trees

end StorePlan.Sql
