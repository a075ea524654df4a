import StorePlan.Proofs.Sql.Rendering
import StorePlan.Proofs.Sql.Written
import StorePlan.Proofs.Text.Runs

/-
Aggregates over windows. The clause with the window is written behind whatever
the call is written as. That is a call of the aggregate itself, apart from the
sum that is zero over no rows: it is written as a sum inside of a call that adds
the default, and the window ends up behind the latter, which is no aggregate.

That no call of an aggregate stands in front of the window then is a matter of
opening brackets. The text has one more of them than the call and its window,
which leaves only two places where the call could start.
-/

namespace StorePlan.Sql

open Text

/-! ## Texts of tokens -/

/-- The text of tokens in which made-up names are numbered from `number` on. -/
def textFrom (aliasPrefix : String) (number : Nat) (ts : List Token) : String :=
  String.join (tokenTexts aliasPrefix number ts)

section TextFrom

variable {aliasPrefix : String} {number : Nat} {ts us : List Token}

theorem textFrom_append :
    textFrom aliasPrefix number (ts ++ us) =
      textFrom aliasPrefix number ts ++
        textFrom aliasPrefix (number + ts.count .madeUpName) us := by
  apply String.toList_injective
  simp only [textFrom, toList_join_tokenTexts, settle_append, spelling_append, String.toList_append]

theorem textFrom_of_not_mem (h : .madeUpName ∉ ts) :
    textFrom aliasPrefix number ts = String.ofList (spelling ts) := by
  apply String.toList_injective
  rw [textFrom, toList_join_tokenTexts, settle_of_not_mem h, String.toList_ofList]

/-- Tokens with a text of their own in front of others. -/
theorem textFrom_append_of_not_mem (h : .madeUpName ∉ ts) :
    textFrom aliasPrefix number (ts ++ us) =
      String.ofList (spelling ts) ++ textFrom aliasPrefix number us := by
  rw [textFrom_append, textFrom_of_not_mem h, List.count_eq_zero.2 h, Nat.add_zero]

end TextFrom

/-! ## What is written for a call and its window -/

namespace Dialect

variable {d : Dialect} {op : Op} {operands partitionBy orderBy : List Node} {distinct : Bool}

/-- The texts between the brackets of a call and between those of its window, in a statement that
has no made-up names before them. -/
inductive WindowTexts (d : Dialect) (aliasPrefix : String) (operands : List Node) (distinct : Bool)
    (partitionBy orderBy : List Node) : String → String → Prop where
  | written {written parts keys : List (List Token)} {arguments window : List Token} :
    d.writeAll .free operands = .ok written → argumentTokens distinct written = bracketed arguments →
    d.writeAll .free partitionBy = .ok parts → d.writeAll .free orderBy = .ok keys →
    windowTokens [] parts keys = spaced "OVER" ++ bracketed window →
      WindowTexts d aliasPrefix operands distinct partitionBy orderBy
        (textFrom aliasPrefix 0 arguments)
        (textFrom aliasPrefix (arguments.count .madeUpName) window)

theorem layout_of_isAggregate (h : op.isAggregate = true) :
    op.layout = .function ∧ op ≠ .floor ∧ op ≠ .ceil := by
  cases op <;> first | exact ⟨rfl, by decide, by decide⟩ | cases h

/-- The operands of a function need no brackets. -/
theorem writeOperands_eq_writeAll (h : op.layout = .function) (position : Nat) (ns : List Node) :
    d.writeOperands op position ns = d.writeAll .free ns := by
  induction ns generalizing position with
  | nil => rfl
  | cons n rest ih =>
    have hplace : Place.operand (op.operandPrecedence position) = .free := by
      rw [Op.operandPrecedence, h]
      rfl
    rw [writeOperands, writeAll, hplace, ih]

/-- Where there are windows, an aggregate is written as a function over all of its operands. -/
theorem write_aggregate {place : Place} {ts : List Token} (hwindows : d.features.windows = true)
    (hop : op.isAggregate = true) (h : d.write place (.call op operands distinct) = .ok ts) :
    ∃ written, d.writeAll .free operands = .ok written ∧
      ts = placeExpression op.precedence (functionTokens op distinct written) place := by
  obtain ⟨hlayout, hfloor, hceil⟩ := layout_of_isAggregate hop
  have hsingle : ¬(op = .singleValue ∧ d.countsSingleValues = true) := by
    cases d <;> simp_all [countsSingleValues, features]
  have hrounding : roundingUnit? op operands = none := by
    unfold roundingUnit?
    split <;> simp_all
  have hoperator (written : List (List Token)) :
      operatorTokens op distinct operands written = functionTokens op distinct written := by
    simp [operatorTokens, hlayout]
  cases (write_call_eq_ok.1 h).2 with
  | singleValue hcounts _ => exact absurd hcounts hsingle
  | rounding _ hunit _ _ =>
    rw [rounding?, hrounding] at hunit
    cases hunit
  | @operator written _ _ _ hwritten =>
    rw [writeOperands_eq_writeAll hlayout] at hwritten
    exact ⟨written, hwritten, by rw [hoperator]⟩

/-- An aggregate over a window is written as a function, directly before the window. -/
theorem write_window {place : Place} {ts : List Token} (hop : op.isAggregate = true)
    (h : d.write place (.window (.call op operands distinct) partitionBy orderBy) = .ok ts) :
    ∃ written parts keys, d.writeAll .free operands = .ok written ∧
      d.writeAll .free partitionBy = .ok parts ∧ d.writeAll .free orderBy = .ok keys ∧
      ts = functionTokens op distinct written ++ windowTokens [] parts keys := by
  obtain ⟨hwindows, call, hcall, parts, hparts, keys, hkeys, rfl⟩ := write_window_eq_ok.1 h
  obtain ⟨written, hwritten, rfl⟩ := write_aggregate hwindows hop hcall
  refine ⟨written, parts, keys, hwritten, hparts, hkeys, ?_⟩
  have hprecedence : op.precedence = Op.leafPrecedence := by
    cases op <;> first | rfl | cases hop
  simp [windowTokens, placeExpression, Place.precedence, hprecedence]

/-! ## Where the window stands -/

/-- What stands before the operands of a call. -/
def callFront (op : Op) : String := if op = .sumOrZero then "COALESCE(SUM(" else op.name ++ "("

/-- What stands between the operands of a call and its window. -/
def callBack (op : Op) : String := if op = .sumOrZero then "), 0) OVER (" else ") OVER ("

/-- The text of an aggregate over a window. -/
theorem text_window {aliasPrefix s : String} (hop : op.isAggregate = true)
    (h : d.text aliasPrefix (.window (.call op operands distinct) partitionBy orderBy) = .ok s) :
    ∃ arguments window,
      WindowTexts d aliasPrefix operands distinct partitionBy orderBy arguments window ∧
        s = callFront op ++ arguments ++ callBack op ++ window ++ ")" := by
  obtain ⟨ts, hts, hrender⟩ := bind_eq_ok.1 h
  obtain ⟨written, parts, keys, hwritten, hparts, hkeys, rfl⟩ := write_window hop hts
  have harguments : ∃ arguments, argumentTokens distinct written = bracketed arguments := ⟨_, rfl⟩
  have hwindow : ∃ window, windowTokens [] parts keys = spaced "OVER" ++ bracketed window :=
    ⟨_, rfl⟩
  obtain ⟨arguments, harguments⟩ := harguments
  obtain ⟨window, hwindow⟩ := hwindow
  refine ⟨_, _, .written hwritten harguments hparts hkeys hwindow, ?_⟩
  -- Either function is its operands between tokens that are no made-up names.
  have hbetween (front back : List Token) (hfront : .madeUpName ∉ front)
      (hback : .madeUpName ∉ back) :
      textFrom aliasPrefix 0 (front ++ (arguments ++ (back ++ (window ++ [.word ")"])))) =
        String.ofList (spelling front) ++ textFrom aliasPrefix 0 arguments ++
          String.ofList (spelling back) ++
            textFrom aliasPrefix (arguments.count .madeUpName) window ++ ")" := by
    rw [textFrom_append_of_not_mem hfront, textFrom_append, textFrom_append_of_not_mem hback,
      textFrom_append, textFrom_of_not_mem (by simp : Token.madeUpName ∉ [.word ")"])]
    simp [String.append_assoc, Token.chars, Token.text]
  rw [← pure_eq_ok.1 hrender, hwindow]
  unfold functionTokens callFront callBack
  rw [harguments]
  split_ifs with hsum
  · have h := hbetween [.function "COALESCE", .word "(", .function "SUM", .word "("]
      [.word ")", .word ",", .blank, .number "0", .word ")", .blank, .word "OVER", .blank,
        .word "("] (by simp) (by simp)
    simpa [render, textFrom, bracketed, spaced, spelling, Token.chars, Token.text] using h
  · have h := hbetween [.function op.name, .word "("]
      [.word ")", .blank, .word "OVER", .blank, .word "("] (by simp) (by simp)
    simpa [render, textFrom, bracketed, spaced, spelling, Token.chars, Token.text] using h

end Dialect

section Brackets

variable {op : Op}

/-- The name of an aggregate has no bracket in it, and does not end the name of the function that
adds a default. -/
theorem name_of_isAggregate (h : op.isAggregate = true) (front : List Char) :
    '(' ∉ op.name.toList ∧ front ++ op.name.toList ≠ "COALESCE".toList := by
  have hnames : '(' ∉ op.name.toList ∧ ¬op.name.toList <:+ "COALESCE".toList := by
    revert h
    cases op <;> first | decide | exact nofun
  exact ⟨hnames.1, fun hfront => hnames.2 ⟨front, hfront⟩⟩

/-- Behind a sum with a default, the window is not behind a call of an aggregate over the operands
of the sum. -/
theorem not_call_before_window (hop : op.isAggregate = true)
    (front back arguments window : List Char) :
    "COALESCE".toList ++ '(' :: ("SUM".toList ++ '(' ::
        (arguments ++ ("), 0) OVER (".toList ++ window ++ [')']))) ≠
      front ++ op.name.toList ++ '(' ::
        (arguments ++ (") OVER (".toList ++ window ++ ')' :: back)) := by
  intro h
  obtain ⟨hname, hdefault⟩ := name_of_isAggregate hop front
  have hfirst : '(' ∉ "COALESCE".toList := by decide
  have hsecond : '(' ∉ "SUM".toList := by decide
  have hcount : front.count '(' + back.count '(' = 1 := by
    have hcounts := congrArg (List.count '(') h
    simp [List.count_append, List.count_eq_zero.2 hname] at hcounts
    omega
  by_cases hfront : '(' ∈ front
  · -- The call starts behind the first bracket, so the operands start in the same place.
    obtain ⟨as, bs, rfl, has⟩ := List.eq_append_cons_of_mem hfront
    have hbs : '(' ∉ bs := by
      rw [← List.count_eq_zero]
      simp at hcount
      omega
    simp only [List.append_assoc, List.cons_append] at h
    obtain ⟨-, h⟩ := split_inj h hfirst has
    rw [← List.append_assoc bs] at h
    have hunbracketed : '(' ∉ bs ++ op.name.toList := by simp [hbs, hname]
    obtain ⟨-, h⟩ := split_inj h hsecond hunbracketed
    have hbehind := List.append_cancel_left h
    simp at hbehind
  · -- The call starts at the beginning, with another name.
    have hunbracketed : '(' ∉ front ++ op.name.toList := by simp [hfront, hname]
    exact hdefault (split_inj h hfirst hunbracketed).1.symm

end Brackets

namespace Dialect

/-- An aggregate over a window is written as a call of an aggregate over its operands, directly
before the window, unless it is the sum that is zero over no rows: that one is written as a call of
another function, which the window ends up behind. -/
theorem call_before_window_iff {d : Dialect} {aliasPrefix s : String} {op : Op}
    {operands partitionBy orderBy : List Node} {distinct : Bool} (hop : op.isAggregate = true)
    (h : d.text aliasPrefix (.window (.call op operands distinct) partitionBy orderBy) = .ok s) :
    ∃ arguments window,
      WindowTexts d aliasPrefix operands distinct partitionBy orderBy arguments window ∧
      s = (if op = .sumOrZero then "COALESCE(SUM(" ++ arguments ++ "), 0)"
        else op.name ++ "(" ++ arguments ++ ")") ++ " OVER (" ++ window ++ ")" ∧
      ((∃ (front back : String) (g : Op), g.isAggregate = true ∧
        s = front ++ g.name ++ "(" ++ arguments ++ ") OVER (" ++ window ++ ")" ++ back) ↔
          op ≠ .sumOrZero) := by
  obtain ⟨arguments, window, htexts, rfl⟩ := text_window hop h
  refine ⟨arguments, window, htexts, ?_, ?_, fun hsum => ⟨"", "", op, hop, ?_⟩⟩
  · unfold callFront callBack
    split_ifs <;> simp [← String.toList_inj]
  · rintro ⟨front, back, g, hg, hs⟩ rfl
    refine not_call_before_window hg front.toList back.toList arguments.toList window.toList ?_
    simpa [callFront, callBack, ← String.toList_inj] using hs
  · simp [callFront, callBack, hsum]

/-- The different `x` of each part are counted over a window. -/
theorem call_before_window_count :
    let called : Node := .call .count [.name ["x"]] true
    let s : String := "COUNT(DISTINCT \"x\") OVER (PARTITION BY \"g\")"
    Op.count.isAggregate = true ∧
      postgresql.text "t" (.window called [.name ["g"]] []) = .ok s ∧
      ∃ arguments window,
        WindowTexts postgresql "t" [.name ["x"]] true [.name ["g"]] [] arguments window ∧
          ∃ (front back : String) (g : Op), g.isAggregate = true ∧
            s = front ++ g.name ++ "(" ++ arguments ++ ") OVER (" ++ window ++ ")" ++ back := by
  intro called s
  have haggregate : Op.count.isAggregate = true := rfl
  have htext : postgresql.text "t" (.window called [.name ["g"]] []) = .ok s := by decide
  obtain ⟨arguments, window, htexts, -, hcall⟩ := call_before_window_iff haggregate htext
  exact ⟨haggregate, htext, arguments, window, htexts, hcall.2 (by decide)⟩

/-- A window of a sum that is zero over no rows. -/
def defaultedSum : Node := .window (.apply .sumOrZero [.name ["x"]]) [.name ["g"]] []

/-- The window is behind the function that adds the default. -/
theorem not_call_before_window_defaultedSum :
    postgresql.text "t" defaultedSum = .ok "COALESCE(SUM(\"x\"), 0) OVER (PARTITION BY \"g\")" ∧
      WindowTexts postgresql "t" [.name ["x"]] false [.name ["g"]] [] "\"x\""
        "PARTITION BY \"g\"" ∧
      ¬∃ (front back : String) (g : Op), g.isAggregate = true ∧
        "COALESCE(SUM(\"x\"), 0) OVER (PARTITION BY \"g\")" =
          front ++ g.name ++ "(" ++ "\"x\"" ++ ") OVER (" ++ "PARTITION BY \"g\"" ++ ")" ++ back := by
  refine ⟨by decide, ?_, ?_⟩
  · exact @WindowTexts.written _ _ _ _ _ _ [[.name "x"]] [[.name "g"]] [] _ _ rfl rfl rfl rfl rfl
  · rintro ⟨front, back, g, hg, hs⟩
    refine not_call_before_window hg front.toList back.toList "\"x\"".toList
      "PARTITION BY \"g\"".toList ?_
    simpa [← String.toList_inj] using hs

end Dialect

end StorePlan.Sql
