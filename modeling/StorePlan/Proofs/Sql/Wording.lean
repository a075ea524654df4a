import StorePlan.Proofs.Sql.CastTarget
import StorePlan.Proofs.Sql.Rendering
import StorePlan.Proofs.Sql.Written

/-
Whatever is written is a phrase. The words of clauses and set operations
occur outside of brackets only where a query stands without brackets, those
of joins only in a `FROM` clause.

What is written as it is are numbers and names of functions; `Node.raws`
lists those of a tree, `ownRaws` those that writing adds.
-/

namespace StorePlan.Sql

open Lexeme

/-! ## Words by place -/

/-- Words that end what stands in front of them: those of clauses behind a whole query, and those
of set operations. -/
def endingWords : List String :=
  ["ORDER", "OFFSET", "FETCH", "LIMIT", "ROWS", "UNION", "INTERSECT", "EXCEPT"]

/-- Words of query blocks and set operations. -/
def clauseWords : List String :=
  ["SELECT", "FROM", "WHERE", "GROUP", "HAVING", "VALUES"] ++ endingWords

/-- Words of joins. -/
def joinWords : List String := ["INNER", "LEFT", "RIGHT", "FULL", "CROSS", "JOIN", "ON"]

/-- Words that do not stand in an expression outside of brackets. -/
def queryWords : List String := clauseWords ++ joinWords

/-- Words that do not stand outside of brackets in what is written in a place. -/
def Place.avoided : Place → List String
  | operand _ => queryWords
  | source => clauseWords
  | setOperand | statement => []

theorem Place.avoided_subset (place : Place) : place.avoided ⊆ queryWords := by
  cases place <;> simp [avoided, queryWords]

/-! ## Raw texts -/

/-- Numbers and functions that writing adds. -/
def ownRaws : List Token :=
  [.number "0", .number "1", .function "FLOOR", .function "CEIL", .function "COUNT",
   .function "SUM", .function "MIN", .function "MAX", .function "AVG", .function "SINGLE_VALUE",
   .function "COALESCE", .function "DATE_TRUNC", .function "TRUNC"]

def Op.raws : Op → List Token
  | function name => [.function name]
  | _ => []

def Literal.raws : Literal → List Token
  | exact t | approximate t => [.number t]
  | _ => []

namespace Node

mutual

/-- The numbers of a tree and its names of functions. -/
def raws : Node → List Token
  | .literal l => l.raws
  | .call op operands _ => op.raws ++ allRaws operands
  | .cast operand _ => operand.raws
  | .caseOf subject branches otherwise =>
    optionRaws subject ++ branchRaws branches ++ optionRaws otherwise
  | .array items => allRaws items
  | .window called partitionBy orderBy => called.raws ++ allRaws partitionBy ++ allRaws orderBy
  | .aliased operand _ => operand.raws
  | .sortKey operand _ _ => operand.raws
  | .join left right _ condition => left.raws ++ right.raws ++ optionRaws condition
  | .select block => selectRaws block
  | .setOperation _ left right => left.raws ++ right.raws
  | .values rows => rowRaws rows
  | .name _ | .star | .parameter _ _ => []
termination_by structural n => n

def allRaws : List Node → List Token
  | [] => []
  | n :: rest => n.raws ++ allRaws rest
termination_by structural ns => ns

def optionRaws : Option Node → List Token
  | none => []
  | some n => n.raws
termination_by structural n => n

def branchRaws : List (Node × Node) → List Token
  | [] => []
  | (condition, result) :: rest => condition.raws ++ result.raws ++ branchRaws rest
termination_by structural bs => bs

def rowRaws : List (List Node) → List Token
  | [] => []
  | row :: rest => allRaws row ++ rowRaws rest
termination_by structural rows => rows

def selectRaws : Select Node → List Token
  | ⟨_, items, source, condition, groupBy, having, orderBy, offset, fetch⟩ =>
    allRaws items ++ optionRaws source ++ optionRaws condition ++ allRaws groupBy ++
      optionRaws having ++ allRaws orderBy ++ optionRaws offset ++ optionRaws fetch
termination_by structural block => block

end

end Node

/-! ## Keywords -/

/-- The keywords of expressions. -/
def expressionKeywords : List String :=
  ["=", "<>", "<", "<=", ">", ">=", "AND", "OR", "LIKE", "+", "-", "*", "/", "NOT", "IS NULL",
   "IS NOT NULL", "IN", "BETWEEN", "NULL", "TRUE", "FALSE", "DATE", "TIME", "TIMESTAMP",
   "INTERVAL", "CAST", "AS", "CASE", "WHEN", "THEN", "ELSE", "END", "TO", "DISTINCT", "ARRAY",
   "OVER", "DESC", "NULLS FIRST", "NULLS LAST"]

/-- The keywords that stand in brackets or in queries only. -/
def clauseKeywords : List String :=
  ["PARTITION BY", "ORDER BY", "VALUES", "UNION ALL", "UNION", "INTERSECT", "EXCEPT", "SELECT",
   "DISTINCT", "FROM", "WHERE", "GROUP BY", "HAVING", "OFFSET", "ROWS", "FETCH NEXT", "ROWS ONLY",
   "LIMIT", "*"]

/-- The keywords of a query without the clauses behind it. -/
def headKeywords : List String :=
  ["SELECT", "DISTINCT", "FROM", "WHERE", "GROUP BY", "HAVING", "VALUES", "*"]

def joinKeywords : List String :=
  ["INNER JOIN", "LEFT JOIN", "RIGHT JOIN", "FULL JOIN", "CROSS JOIN", "ON"]

section Keywords

variable {raw : Token → Prop} {w : String}

theorem Token.Fits.mono {t : Token} {words less : List String} (h : t.Fits raw words)
    (hsub : less ⊆ words) : t.Fits raw less := by
  cases t with
  | word w => exact ⟨h.1, h.2.mono hsub⟩
  | _ => exact h

theorem fits_expressionKeyword (h : w ∈ expressionKeywords) :
    (Token.word w).Fits raw queryWords := by
  have : ∀ w ∈ expressionKeywords, Complete w.toList ∧ Level queryWords (ofChars w.toList) := by
    decide +kernel
  exact this w h

theorem fits_clauseKeyword (h : w ∈ clauseKeywords) : (Token.word w).Fits raw [] := by
  have : ∀ w ∈ clauseKeywords, Complete w.toList ∧ Level [] (ofChars w.toList) := by
    decide +kernel
  exact this w h

theorem fits_headKeyword (h : w ∈ headKeywords) : (Token.word w).Fits raw endingWords := by
  have : ∀ w ∈ headKeywords, Complete w.toList ∧ Level endingWords (ofChars w.toList) := by
    decide +kernel
  exact this w h

theorem fits_joinKeyword (h : w ∈ joinKeywords) : (Token.word w).Fits raw clauseWords := by
  have : ∀ w ∈ joinKeywords, Complete w.toList ∧ Level clauseWords (ofChars w.toList) := by
    decide +kernel
  exact this w h

theorem fits_unit (u : TimeUnit) : (Token.word u.name).Fits raw queryWords := by
  cases u <;> exact ⟨by decide, by decide⟩

theorem fits_qualifier (q : IntervalQualifier) : (Token.word q.text).Fits raw queryWords := by
  cases q <;> exact ⟨by decide, by decide⟩

end Keywords

/-! ## Operands -/

namespace Op

/-- How operands stand around an operator, if it can stand with so many of them. -/
inductive Arranged {α : Type} : Op → List α → Prop where
  | binary {op : Op} {left right : α} : op.layout = .binary → Arranged op [left, right]
  | leading {op : Op} {operand : α} : op.layout = .leading → Arranged op [operand]
  | trailing {op : Op} {operand : α} : op.layout = .trailing → Arranged op [operand]
  | isIn {value : α} {list : List α} : list ≠ [] → Arranged .isIn (value :: list)
  | between {value low high : α} : Arranged .between [value, low, high]
  | function {op : Op} {operands : List α} : op.layout = .function → Arranged op operands

theorem layout_eq_special {op : Op} (h : op.layout = .special) : op = .isIn ∨ op = .between := by
  cases op with
  | isIn => exact .inl rfl
  | between => exact .inr rfl
  | _ => cases h

theorem arranged_of_takes {α : Type} {op : Op} {operands : List α}
    (h : op.takes operands.length = true) : Arranged op operands := by
  unfold takes at h
  cases hlayout : op.layout with
  | binary =>
    rw [hlayout] at h
    obtain ⟨left, right, rfl⟩ := List.length_eq_two.1 (beq_iff_eq.1 h)
    exact .binary hlayout
  | leading =>
    rw [hlayout] at h
    obtain ⟨operand, rfl⟩ := List.length_eq_one_iff.1 (beq_iff_eq.1 h)
    exact .leading hlayout
  | trailing =>
    rw [hlayout] at h
    obtain ⟨operand, rfl⟩ := List.length_eq_one_iff.1 (beq_iff_eq.1 h)
    exact .trailing hlayout
  | function => exact .function hlayout
  | special =>
    rw [hlayout] at h
    rcases layout_eq_special hlayout with rfl | rfl
    · cases operands with
      | nil => simp at h
      | cons value list =>
        have hlist : list ≠ [] := by
          rintro rfl
          simp at h
        exact .isIn hlist
    · obtain ⟨value, low, high, rfl⟩ := List.length_eq_three.1 (by simpa using h)
      exact .between

end Op

/-! ## Phrases put together -/

namespace Phrase

variable {raw : Token → Prop} {words : List String} {ts us : List Token}

theorem mono {less : List String} (h : Phrase raw words ts) (hsub : less ⊆ words) :
    Phrase raw less ts := by
  induction h with
  | nil => exact .nil
  | leaf ht => exact .leaf (ht.mono hsub)
  | name parts => exact .name parts
  | gap _ _ iht ihu => exact .gap (iht hsub) (ihu hsub)
  | comma _ _ iht ihu => exact .comma (iht hsub) (ihu hsub)
  | bracketed _ hu iht _ => exact .bracketed (iht hsub) hu
  | listed _ hu iht _ => exact .listed (iht hsub) hu
  | minus hminus _ ih => exact .minus hminus (ih hsub)

theorem inBrackets (h : Phrase raw words ts) : Phrase raw words (Sql.bracketed ts) :=
  .bracketed .nil (h.mono (by simp))

/-- A keyword between two phrases. -/
theorem spaced {w : String} (ht : Phrase raw words ts) (hw : (Token.word w).Fits raw words)
    (hu : Phrase raw words us) : Phrase raw words (ts ++ spaced w ++ us) := by
  simpa [Sql.spaced] using ht.gap ((Phrase.leaf hw).gap hu)

/-- A keyword in front of a phrase. -/
theorem leading {w : String} (hw : (Token.word w).Fits raw words) (hu : Phrase raw words us) :
    Phrase raw words ([.word w, .blank] ++ us) := by
  simpa using (Phrase.leaf hw).gap hu

/-- A keyword behind a phrase. -/
theorem trailing {w : String} (ht : Phrase raw words ts) (hw : (Token.word w).Fits raw words) :
    Phrase raw words (ts ++ [.blank, .word w]) := by
  simpa using ht.gap (Phrase.leaf hw)

theorem commaSeparated : ∀ {tss : List (List Token)}, (∀ ts ∈ tss, Phrase raw words ts) →
    Phrase raw words (commaSeparated tss)
  | [], _ => .nil
  | [ts], h => h ts (by simp)
  | ts :: us :: rest, h => by
    have hrest := Phrase.commaSeparated fun vs hv => h vs (List.mem_cons_of_mem ts hv)
    have := (h ts (by simp)).comma (Phrase.nil.gap hrest)
    simpa [Sql.commaSeparated] using this

/-- A function applied to operands. -/
theorem call {name : String} (h : raw (.function name)) (ht : Phrase raw words ts) :
    Phrase raw words (.function name :: Sql.bracketed ts) := by
  have hname : Phrase raw words [.function name] := .leaf h
  simpa using hname.bracketed (ht.mono (by simp))

theorem keyword {w : String} (h : w ∈ expressionKeywords) : Phrase raw queryWords [.word w] :=
  .leaf (fits_expressionKeyword h)

end Phrase

namespace Dialect

variable {raw : Token → Prop} {words : List String} {ts us : List Token}

theorem phrase_clause {w : String} (hw : (Token.word w).Fits raw words)
    {content : Option (List Token)} (ht : Phrase raw words ts)
    (hc : ∀ us ∈ content, Phrase raw words us) : Phrase raw words (ts ++ clause w content) := by
  cases content with
  | none => simpa [clause] using ht
  | some us => simpa [clause] using ht.spaced hw (hc us rfl)

theorem phrase_literalTokens {l : Literal} (h : ∀ t ∈ l.raws, raw t) :
    Phrase raw queryWords (literalTokens l) := by
  have quoted (s : String) : Phrase raw queryWords [.string s] := .leaf trivial
  cases l with
  | null => exact .keyword (by decide)
  | boolean b => cases b <;> exact .keyword (by decide)
  | exact t => exact .leaf (h (.number t) (by simp [Literal.raws]))
  | approximate t => exact .leaf (h (.number t) (by simp [Literal.raws]))
  | string s => exact quoted s
  | date t => exact (Phrase.keyword (by decide)).gap (quoted t)
  | time t => exact (Phrase.keyword (by decide)).gap (quoted t)
  | timestamp t => exact (Phrase.keyword (by decide)).gap (quoted t)
  | interval t q =>
    have hq : Phrase raw queryWords [.word q.text] := .leaf (fits_qualifier q)
    exact (Phrase.keyword (by decide)).gap ((quoted t).gap hq)
  | unit u => exact .leaf (fits_unit u)

theorem phrase_castTokens {d : Dialect} {t : DataType} {target : CastTarget}
    (h : d.castTarget t = .ok target) (ht : Phrase raw queryWords ts) :
    Phrase raw queryWords (castTokens ts target) := by
  have hsound := sound_castTarget h
  have htarget : Phrase raw [] [.word target.text] := .leaf ⟨hsound.complete, hsound.level⟩
  have has : (Token.word "AS").Fits raw [] :=
    (fits_expressionKeyword (by decide)).mono (by simp)
  have hinner := (ht.mono (by simp)).spaced has htarget
  have hcast : Phrase raw queryWords [.word "CAST"] := .keyword (by decide)
  simpa [castTokens] using hcast.bracketed hinner

theorem phrase_parameterTokens {d : Dialect} {i : Nat} {type : Option DataType}
    (h : d.parameterTokens i type = .ok ts) : Phrase raw queryWords ts := by
  have hparameter : Phrase raw queryWords [.parameter i] := .leaf trivial
  unfold parameterTokens at h
  split at h
  · rename_i q
    split at h
    · cases h
      exact hparameter
    · obtain ⟨target, htarget, h⟩ := bind_eq_ok.1 h
      cases h
      exact phrase_castTokens htarget hparameter
    · cases h
      have hunit : Phrase raw queryWords [.word q.start.name] := .leaf (fits_unit _)
      have hone : Phrase raw queryWords [.string "1"] := .leaf trivial
      have hinterval : Phrase raw queryWords [.word "INTERVAL"] := .keyword (by decide)
      exact hparameter.spaced (fits_expressionKeyword (by decide))
        (hinterval.gap (hone.gap hunit))
  · cases h
    exact hparameter

theorem phrase_aliasTokens {t : Token} (ht : Phrase raw words ts) (hsub : words ⊆ queryWords)
    (h : t.Fits raw words) : Phrase raw words (ts ++ aliasTokens t) := by
  have has : (Token.word "AS").Fits raw words := (fits_expressionKeyword (by decide)).mono hsub
  simpa [aliasTokens] using ht.spaced has (.leaf h)

/-! ## Calls -/

/-- The raw token of a function that is written under its own name. -/
theorem raw_function {op : Op} (hown : ∀ t ∈ ownRaws, raw t) (hop : ∀ t ∈ op.raws, raw t)
    (hlayout : op.layout = .function) (hsum : op ≠ .sumOrZero) : raw (.function op.name) := by
  cases op with
  | function name => exact hop _ (by simp [Op.raws, Op.name])
  | sumOrZero => contradiction
  | floor | ceil | count | sum | min | max | avg | singleValue =>
    exact hown _ (by simp [ownRaws, Op.name])
  | _ => cases hlayout

theorem phrase_argumentTokens (distinct : Bool) {written : List (List Token)}
    (h : ∀ ts ∈ written, Phrase raw queryWords ts) :
    ∃ us, argumentTokens distinct written = bracketed us ∧ Phrase raw queryWords us := by
  refine ⟨_, rfl, ?_⟩
  cases distinct with
  | false => simpa using Phrase.commaSeparated h
  | true =>
    simpa using Phrase.leading (fits_expressionKeyword (w := "DISTINCT") (by decide))
      (Phrase.commaSeparated h)

theorem phrase_functionTokens {op : Op} {distinct : Bool} {written : List (List Token)}
    (hown : ∀ t ∈ ownRaws, raw t) (hop : ∀ t ∈ op.raws, raw t) (hlayout : op.layout = .function)
    (h : ∀ ts ∈ written, Phrase raw queryWords ts) :
    Phrase raw queryWords (functionTokens op distinct written) := by
  obtain ⟨us, hus, hphrase⟩ := phrase_argumentTokens distinct h
  unfold functionTokens
  rw [hus]
  split_ifs with hsum
  · have hzero : Phrase raw queryWords [.number "0"] := .leaf (hown (.number "0") (by simp [ownRaws]))
    have hcall := Phrase.call (hown (.function "SUM") (by simp [ownRaws])) hphrase
    have hboth := hcall.comma (Phrase.nil.gap hzero)
    exact .call (hown _ (by simp [ownRaws])) (by simpa using hboth)
  · exact .call (raw_function hown hop hlayout hsum) hphrase

theorem name_mem_expressionKeywords {op : Op} (h : op.layout ≠ .function) :
    op.name ∈ expressionKeywords := by
  cases op <;> first | exact absurd rfl h | (simp only [Op.name]; decide)

/-- Membership in a list is written in one way for any number of items. -/
theorem operatorTokens_isIn (distinct : Bool) (operands : List Node) (value : List Token)
    (list : List (List Token)) :
    operatorTokens .isIn distinct operands (value :: list) =
      value ++ spaced "IN" ++
        if (operands.drop 1).any Node.isQuery && list.length == 1 then commaSeparated list
        else bracketed (commaSeparated list) := by
  match list with
  | [] | [_] | [_, _] | _ :: _ :: _ :: _ => simp [operatorTokens, Op.layout, Op.name]

theorem operatorTokens_between (distinct : Bool) (operands : List Node)
    (value low high : List Token) :
    operatorTokens .between distinct operands [value, low, high] =
      value ++ spaced "BETWEEN" ++ low ++ spaced "AND" ++ high := rfl

theorem phrase_operatorTokens {op : Op} {distinct : Bool} {operands : List Node}
    {written : List (List Token)} (hown : ∀ t ∈ ownRaws, raw t) (hop : ∀ t ∈ op.raws, raw t)
    (htakes : op.takes written.length = true) (h : ∀ ts ∈ written, Phrase raw queryWords ts) :
    Phrase raw queryWords (operatorTokens op distinct operands written) := by
  have hname (hlayout : op.layout ≠ .function) : (Token.word op.name).Fits raw queryWords :=
    fits_expressionKeyword (name_mem_expressionKeywords hlayout)
  have hkeyword {w : String} (hw : w ∈ expressionKeywords) : (Token.word w).Fits raw queryWords :=
    fits_expressionKeyword hw
  cases Op.arranged_of_takes htakes with
  | function hlayout =>
    have : operatorTokens op distinct operands written = functionTokens op distinct written := by
      simp [operatorTokens, hlayout]
    rw [this]
    exact phrase_functionTokens hown hop hlayout h
  | @binary _ left right hlayout =>
    simp only [operatorTokens, hlayout]
    exact (h left (by simp)).spaced (hname (by simp [hlayout])) (h right (by simp))
  | @leading _ operand hlayout =>
    simp only [operatorTokens, hlayout]
    have hoperand := h operand (by simp)
    have hword : Phrase raw queryWords [.word op.name] := .leaf (hname (by simp [hlayout]))
    -- Without a gap the operator is a sign, and what it stands in front of begins with none:
    -- two of them would begin a comment.
    unfold leadingGap
    split_ifs with hgap
    · simpa using hword.gap hoperand
    · have hminus : op.name = "-" := by
        cases op with
        | negate => rfl
        | not => exact absurd (.inl rfl) hgap
        | _ => cases hlayout
      rw [hminus]
      simpa using hoperand.minus (by simpa using (not_or.1 hgap).2)
  | @trailing _ operand hlayout =>
    simp only [operatorTokens, hlayout]
    exact (h operand (by simp)).trailing (hname (by simp [hlayout]))
  | @isIn value list _ =>
    rw [operatorTokens_isIn]
    have hvalue := h value (by simp)
    have hlist := Phrase.commaSeparated fun ts hts => h ts (List.mem_cons_of_mem value hts)
    split_ifs
    · exact hvalue.spaced (hkeyword (by decide)) hlist
    · exact hvalue.spaced (hkeyword (by decide)) hlist.inBrackets
  | @between value low high =>
    rw [operatorTokens_between]
    have hlow := (h value (by simp)).spaced (hkeyword (w := "BETWEEN") (by decide))
      (h low (by simp))
    exact hlow.spaced (hkeyword (by decide)) (h high (by simp))

theorem eq_floor_or_ceil {op : Op} {operands : List Node} {u : TimeUnit}
    (h : roundingUnit? op operands = some u) : op = .floor ∨ op = .ceil := by
  unfold roundingUnit? at h
  split at h
  · split_ifs at h with hop
    exact hop
  · cases h

theorem phrase_roundingTokens {d : Dialect} {op : Op} {operands : List Node} {r : Rounding}
    (h : d.rounding? op operands = .ok (some r)) (hown : ∀ t ∈ ownRaws, raw t)
    (ht : Phrase raw queryWords ts) : Phrase raw queryWords (roundingTokens op ts r) := by
  have hstring (s : String) : Phrase raw queryWords [.string s] := .leaf trivial
  have htruncation (f : String) (unitFirst : Bool) (word : String) (hf : raw (.function f)) :
      Phrase raw queryWords (roundingTokens op ts (.truncation f unitFirst word)) := by
    refine .call hf (.commaSeparated ?_)
    cases unitFirst <;> simp [ht, hstring]
  have htoUnit {u : TimeUnit} (hu : roundingUnit? op operands = some u) :
      Phrase raw queryWords (roundingTokens op ts (.toUnit u)) := by
    have hop : raw (.function op.name) := by
      rcases eq_floor_or_ceil hu with rfl | rfl <;> exact hown _ (by simp [ownRaws, Op.name])
    exact .call hop (ht.spaced (fits_expressionKeyword (by decide)) (.leaf (fits_unit u)))
  unfold rounding? at h
  split at h
  · cases h
  · rename_i u hu
    split at h
    · rename_i t htrunc
      have hf : raw (.function t.function) := by
        cases d <;> cases htrunc <;> exact hown _ (by simp [ownRaws])
      split_ifs at h
      · split at h
        · cases h
          exact htruncation _ _ _ hf
        · cases h
      · cases h
        exact htoUnit hu
    · cases h
      exact htoUnit hu

theorem phrase_singleValueTokens (hown : ∀ t ∈ ownRaws, raw t) (ht : Phrase raw queryWords ts) :
    Phrase raw queryWords (singleValueTokens ts) := by
  have hkeyword {w : String} (hw : w ∈ expressionKeywords) : (Token.word w).Fits raw queryWords :=
    fits_expressionKeyword hw
  have hnumber {s : String} {words : List String} (h : .number s ∈ ownRaws) :
      Phrase raw words [.number s] := .leaf (hown _ h)
  have hzero : Phrase raw [] ([.word "VALUES", .blank] ++ bracketed [.number "0"]) :=
    .leading (fits_clauseKeyword (by decide)) (hnumber (by simp [ownRaws])).inBrackets
  have hrows := hzero.spaced (fits_clauseKeyword (w := "UNION ALL") (by decide)) hzero
  have hcount : Phrase raw queryWords (.function "COUNT" :: bracketed [.word "*"]) :=
    .call (hown _ (by simp [ownRaws])) (.keyword (by decide))
  have hmin : Phrase raw queryWords (.function "MIN" :: bracketed ts) :=
    .call (hown _ (by simp [ownRaws])) ht
  have helse : Phrase raw queryWords (bracketed _) := .bracketed .nil hrows
  have hcase := Phrase.leading (hkeyword (w := "CASE") (by decide)) hcount
  have hzeroBranch := (hcase.spaced (hkeyword (w := "WHEN") (by decide))
    (hnumber (s := "0") (by simp [ownRaws]))).spaced (hkeyword (w := "THEN") (by decide))
    (.keyword (w := "NULL") (by decide))
  have honeBranch := (hzeroBranch.spaced (hkeyword (w := "WHEN") (by decide))
    (hnumber (s := "1") (by simp [ownRaws]))).spaced (hkeyword (w := "THEN") (by decide)) hmin
  have hall := (honeBranch.spaced (hkeyword (w := "ELSE") (by decide)) helse).trailing
    (hkeyword (w := "END") (by decide))
  simpa [singleValueTokens] using hall

theorem phrase_listClause {w : String} (hw : (Token.word w).Fits raw words)
    {items : List (List Token)} (h : ∀ us ∈ items, Phrase raw words us) :
    Phrase raw words (listClause w items) := by
  unfold listClause
  split_ifs
  · exact .nil
  · exact .leading hw (.commaSeparated h)

theorem phrase_windowTokens {partitionBy orderBy : List (List Token)}
    (ht : Phrase raw queryWords ts) (hp : ∀ us ∈ partitionBy, Phrase raw queryWords us)
    (ho : ∀ us ∈ orderBy, Phrase raw queryWords us) :
    Phrase raw queryWords (windowTokens ts partitionBy orderBy) := by
  have hp : Phrase raw [] (listClause "PARTITION BY" partitionBy) :=
    phrase_listClause (fits_clauseKeyword (by decide)) fun us hus => (hp us hus).mono (by simp)
  have ho : Phrase raw [] (listClause "ORDER BY" orderBy) :=
    phrase_listClause (fits_clauseKeyword (by decide)) fun us hus => (ho us hus).mono (by simp)
  have hinner : Phrase raw [] (listClause "PARTITION BY" partitionBy ++
      (if partitionBy.isEmpty || orderBy.isEmpty then [] else [.blank]) ++
        listClause "ORDER BY" orderBy) := by
    split_ifs with hempty
    · rw [Bool.or_eq_true] at hempty
      rcases hempty with hempty | hempty
      · simpa [listClause, hempty] using ho
      · simpa [listClause, hempty] using hp
    · simpa using hp.gap ho
  have hover := (ht.spaced (fits_expressionKeyword (w := "OVER") (by decide)) .nil).bracketed hinner
  simpa [windowTokens] using hover

theorem phrase_sortKeyTokens {descending : Bool} {nullsFirst : Option Bool}
    (ht : Phrase raw queryWords ts) :
    Phrase raw queryWords (ts ++ sortKeyTokens descending nullsFirst) := by
  have hdirection : Phrase raw queryWords
      (ts ++ if descending then [.blank, .word "DESC"] else []) := by
    split_ifs
    · exact ht.trailing (fits_expressionKeyword (by decide))
    · simpa using ht
  unfold sortKeyTokens
  rw [← List.append_assoc]
  match nullsFirst with
  | none => simpa using hdirection
  | some true => exact hdirection.trailing (fits_expressionKeyword (by decide))
  | some false => exact hdirection.trailing (fits_expressionKeyword (by decide))

/-! ## Queries -/

theorem phrase_boundTokens {style : Pagination} {offset fetch : Option (List Token)}
    (ht : Phrase raw [] ts) (ho : ∀ us ∈ offset, Phrase raw [] us)
    (hf : ∀ us ∈ fetch, Phrase raw [] us) :
    Phrase raw [] (ts ++ boundTokens style offset fetch) := by
  have hkeyword {w : String} (hw : w ∈ clauseKeywords) : (Token.word w).Fits raw [] :=
    fits_clauseKeyword hw
  cases style with
  | offsetFetch =>
    simp only [boundTokens, ← List.append_assoc]
    refine phrase_clause (hkeyword (by decide)) (phrase_clause (hkeyword (by decide)) ht ?_) ?_
    · intro us hus
      obtain ⟨vs, hvs, rfl⟩ := Option.map_eq_some_iff.1 hus
      exact (ho vs hvs).trailing (hkeyword (by decide))
    · intro us hus
      obtain ⟨vs, hvs, rfl⟩ := Option.map_eq_some_iff.1 hus
      exact (hf vs hvs).trailing (hkeyword (by decide))
  | limitOffset =>
    simp only [boundTokens, ← List.append_assoc]
    exact phrase_clause (hkeyword (by decide)) (phrase_clause (hkeyword (by decide)) ht hf) ho

/-- What stands in a clause that is left out when its list is empty. -/
def listContent (items : List (List Token)) : Option (List Token) :=
  if items.isEmpty then none else some (commaSeparated items)

theorem phrase_listContent {items : List (List Token)} (h : ∀ us ∈ items, Phrase raw words us) :
    ∀ us ∈ listContent items, Phrase raw words us := by
  intro us hus
  unfold listContent at hus
  split_ifs at hus
  · cases hus
  · obtain rfl := Option.some.inj hus
    exact .commaSeparated h

/-- What a query block selects. -/
def selectedTokens (s : Select (List Token)) : List Token :=
  (if s.distinct then [.word "DISTINCT", .blank] else []) ++
    if s.items.isEmpty then [.word "*"] else commaSeparated s.items

theorem phrase_selectedTokens {s : Select (List Token)} (hsub : words ⊆ queryWords)
    (hitems : ∀ us ∈ s.items, Phrase raw words us) : Phrase raw words (selectedTokens s) := by
  have hkeyword {w : String} (hw : w ∈ expressionKeywords) : (Token.word w).Fits raw words :=
    (fits_expressionKeyword hw).mono hsub
  have hselected : Phrase raw words
      (if s.items.isEmpty then [.word "*"] else commaSeparated s.items) := by
    split_ifs
    · exact .leaf (hkeyword (by decide))
    · exact .commaSeparated hitems
  unfold selectedTokens
  by_cases hdistinct : s.distinct = true
  · rw [if_pos hdistinct]
    exact .leading (hkeyword (by decide)) hselected
  · rw [if_neg hdistinct]
    exact hselected

/-- A query block without the clauses that can stand behind any query. -/
def headTokens (s : Select (List Token)) : List Token :=
  [.word "SELECT", .blank] ++ (if s.distinct then [.word "DISTINCT", .blank] else []) ++
    (if s.items.isEmpty then [.word "*"] else commaSeparated s.items) ++
    clause "FROM" s.source ++ clause "WHERE" s.condition ++
    clause "GROUP BY" (listContent s.groupBy) ++ clause "HAVING" s.having

theorem selectTokens_eq (style : Pagination) (s : Select (List Token)) :
    selectTokens style s =
      headTokens s ++ clause "ORDER BY" (listContent s.orderBy) ++
        boundTokens style s.offset s.fetch := rfl

theorem phrase_headTokens {s : Select (List Token)} (hsub : words ⊆ endingWords)
    (hitems : ∀ us ∈ s.items, Phrase raw words us) (hsource : ∀ us ∈ s.source, Phrase raw words us)
    (hcondition : ∀ us ∈ s.condition, Phrase raw words us)
    (hgroup : ∀ us ∈ s.groupBy, Phrase raw words us)
    (hhaving : ∀ us ∈ s.having, Phrase raw words us) : Phrase raw words (headTokens s) := by
  have hkeyword {w : String} (hw : w ∈ headKeywords) : (Token.word w).Fits raw words :=
    (fits_headKeyword hw).mono hsub
  have hending : endingWords ⊆ queryWords := by decide
  have hstart : Phrase raw words ([.word "SELECT", .blank] ++ selectedTokens s) :=
    .leading (hkeyword (by decide)) (phrase_selectedTokens (List.Subset.trans hsub hending) hitems)
  rw [selectedTokens, ← List.append_assoc] at hstart
  have hfrom := phrase_clause (hkeyword (w := "FROM") (by decide)) hstart hsource
  have hwhere := phrase_clause (hkeyword (w := "WHERE") (by decide)) hfrom hcondition
  have hgroupBy := phrase_clause (hkeyword (w := "GROUP BY") (by decide)) hwhere
    (phrase_listContent hgroup)
  exact phrase_clause (hkeyword (by decide)) hgroupBy hhaving

/-- A query block of which all parts are phrases. -/
theorem phrase_selectTokens {style : Pagination} {s : Select (List Token)}
    (hitems : ∀ us ∈ s.items, Phrase raw [] us) (hsource : ∀ us ∈ s.source, Phrase raw [] us)
    (hcondition : ∀ us ∈ s.condition, Phrase raw [] us)
    (hgroup : ∀ us ∈ s.groupBy, Phrase raw [] us) (hhaving : ∀ us ∈ s.having, Phrase raw [] us)
    (horder : ∀ us ∈ s.orderBy, Phrase raw [] us) (hoffset : ∀ us ∈ s.offset, Phrase raw [] us)
    (hfetch : ∀ us ∈ s.fetch, Phrase raw [] us) : Phrase raw [] (selectTokens style s) := by
  have hhead := phrase_headTokens (by simp) hitems hsource hcondition hgroup hhaving
  have horderBy := phrase_clause (fits_clauseKeyword (w := "ORDER BY") (by decide)) hhead
    (phrase_listContent horder)
  rw [selectTokens_eq]
  exact phrase_boundTokens horderBy hoffset hfetch

theorem phrase_placeQuery {d : Dialect} {isPaged : Bool} {place : Place} (ht : Phrase raw [] ts) :
    Phrase raw place.avoided (d.placeQuery isPaged ts place) := by
  have hbracketed {words : List String} : Phrase raw words (bracketed ts) := .bracketed .nil ht
  cases place with
  | statement => exact ht
  | setOperand =>
    cases isPaged with
    | true => exact hbracketed
    | false => exact ht
  | source =>
    simp only [placeQuery]
    split_ifs
    · exact phrase_aliasTokens hbracketed Place.source.avoided_subset trivial
    · simpa using hbracketed
  | operand p => exact hbracketed

theorem phrase_placeExpression {precedence : Nat} {place : Place} (ht : Phrase raw queryWords ts) :
    Phrase raw place.avoided (placeExpression precedence ts place) := by
  unfold placeExpression
  split_ifs
  · exact (ht.mono place.avoided_subset).inBrackets
  · exact ht.mono place.avoided_subset

/-! ## Trees -/

variable {d : Dialect}

theorem phrase_caseHead {subject : Option (List Token)} :
    (∀ us ∈ subject, Phrase raw queryWords us) →
      Phrase raw queryWords ([.word "CASE"] ++
        match subject with | some tokens => .blank :: tokens | none => []) := by
  intro h
  have hcase : Phrase raw queryWords [.word "CASE"] := .keyword (by decide)
  cases subject with
  | none => simpa using hcase
  | some us => exact hcase.gap (h us rfl)

mutual

/-- Whatever is written in a place is a phrase without the words that the place excludes. -/
theorem phrase_write (hown : ∀ t ∈ ownRaws, raw t) {ts : List Token} :
    ∀ {place : Place} (n : Node), d.write place n = .ok ts → (∀ t ∈ n.raws, raw t) →
      Phrase raw place.avoided ts
  | place, .name parts, h, _ => by
    cases h
    exact .name parts
  | place, .star, h, _ => by
    cases h
    exact (Phrase.keyword (by decide)).mono place.avoided_subset
  | place, .literal l, h, hraw => by
    cases h
    exact (phrase_literalTokens (by simpa [Node.raws] using hraw)).mono place.avoided_subset
  | place, .parameter i type, h, _ =>
    (phrase_parameterTokens (by simpa [write] using h)).mono place.avoided_subset
  | place, .call op operands distinct, h, hraw => by
    rw [Node.raws, List.forall_mem_append] at hraw
    cases (write_call_eq_ok.1 h).2 with
    | singleValue _ hoperand =>
      exact (phrase_singleValueTokens hown (phrase_writeFirst hown operands hoperand hraw.2)).mono
        place.avoided_subset
    | @rounding _ written _ hrounding _ hwritten =>
      have hphrases := phrase_writeOperands hown operands hwritten hraw.2
      refine (phrase_roundingTokens hrounding hown ?_).mono place.avoided_subset
      cases written with
      | nil => exact .nil
      | cons ts rest => exact hphrases ts (by simp)
    | operator _ _ htakes hwritten =>
      have hphrases := phrase_writeOperands hown operands hwritten hraw.2
      exact phrase_placeExpression (phrase_operatorTokens hown hraw.1 htakes hphrases)
  | place, .cast operand target, h, hraw => by
    obtain ⟨us, hoperand, target, htarget, rfl⟩ := write_cast_eq_ok.1 h
    have := phrase_write hown operand hoperand (by simpa [Node.raws] using hraw)
    exact (phrase_castTokens htarget this).mono place.avoided_subset
  | place, .caseOf subject branches otherwise, h, hraw => by
    simp only [Node.raws, List.forall_mem_append] at hraw
    obtain ⟨-, subject', hsubject, branches', hbranches, otherwise', hotherwise, rfl⟩ :=
      write_caseOf_eq_ok.1 h
    have hhead := phrase_caseHead (phrase_writeOption hown subject hsubject hraw.1.1)
    have hbody := phrase_writeBranches hown branches hbranches hraw.1.2 hhead
    have helse := phrase_clause (fits_expressionKeyword (w := "ELSE") (by decide)) hbody
      (phrase_writeOption hown otherwise hotherwise hraw.2)
    have hend := helse.trailing (fits_expressionKeyword (w := "END") (by decide))
    exact hend.mono place.avoided_subset
  | place, .array items, h, hraw => by
    obtain ⟨-, items', hitems, rfl⟩ := write_array_eq_ok.1 h
    have hitems := phrase_writeAll hown items hitems (by simpa [Node.raws] using hraw)
    have harray : Phrase raw queryWords [.word "ARRAY"] := .keyword (by decide)
    have hlist := harray.listed ((Phrase.commaSeparated hitems).mono (by simp))
    exact (by simpa using hlist : Phrase raw queryWords _).mono place.avoided_subset
  | place, .window called partitionBy orderBy, h, hraw => by
    simp only [Node.raws, List.forall_mem_append] at hraw
    obtain ⟨-, called', hcalled, partitionBy', hpartition, orderBy', horder, rfl⟩ :=
      write_window_eq_ok.1 h
    exact (phrase_windowTokens (phrase_write hown called hcalled hraw.1.1)
      (phrase_writeAll hown partitionBy hpartition hraw.1.2)
      (phrase_writeAll hown orderBy horder hraw.2)).mono place.avoided_subset
  | place, .aliased operand name, h, hraw => by
    obtain ⟨us, hoperand, rfl⟩ := write_aliased_eq_ok.1 h
    have : Phrase raw queryWords us :=
      phrase_write hown operand hoperand (by simpa [Node.raws] using hraw)
    have halias : (Token.name name).Fits raw queryWords := trivial
    exact (phrase_aliasTokens this (List.Subset.refl _) halias).mono place.avoided_subset
  | place, .sortKey operand descending nullsFirst, h, hraw => by
    obtain ⟨us, hoperand, rfl⟩ := write_sortKey_eq_ok.1 h
    have := phrase_write hown operand hoperand (by simpa [Node.raws] using hraw)
    exact (phrase_sortKeyTokens this).mono place.avoided_subset
  | place, .join left right kind condition, h, hraw => by
    simp only [Node.raws, List.forall_mem_append] at hraw
    -- Words of joins may stand outside of brackets only where a join may, in a `FROM` clause.
    obtain ⟨rfl, left', hleft, right', hright, condition', hcondition, rfl⟩ :=
      write_join_eq_ok.1 h
    have hkind : (Token.word kind.name).Fits raw clauseWords := by
      cases kind <;> exact fits_joinKeyword (by decide)
    have hboth := (phrase_write hown left hleft hraw.1.1).spaced hkind
      (phrase_write hown right hright hraw.1.2)
    exact phrase_clause (fits_joinKeyword (by decide)) hboth fun us hus =>
      (phrase_writeOption hown condition hcondition hraw.2 us hus).mono
        Place.source.avoided_subset
  | place, .select block, h, hraw => by
    obtain ⟨query, hquery, rfl⟩ := write_select_eq_ok.1 h
    exact phrase_placeQuery
      (phrase_writeSelect hown block hquery (by simpa [Node.raws] using hraw))
  | place, .setOperation op left right, h, hraw => by
    simp only [Node.raws, List.forall_mem_append] at hraw
    obtain ⟨left', hleft, right', hright, rfl⟩ := write_setOperation_eq_ok.1 h
    have hop : (Token.word op.name).Fits raw [] := by
      cases op <;> exact fits_clauseKeyword (by decide)
    exact phrase_placeQuery ((phrase_write hown left hleft hraw.1).spaced hop
      (phrase_write hown right hright hraw.2))
  | place, .values rows, h, hraw => by
    obtain ⟨-, rows', hrows, rfl⟩ := write_values_eq_ok.1 h
    have hrows := phrase_writeRows hown rows hrows (by simpa [Node.raws] using hraw)
    exact phrase_placeQuery (.leading (fits_clauseKeyword (by decide))
      (.commaSeparated fun ts hts => hrows ts hts []))

theorem phrase_writeAll (hown : ∀ t ∈ ownRaws, raw t) {tss : List (List Token)} :
    ∀ {place : Place} (ns : List Node), d.writeAll place ns = .ok tss →
      (∀ t ∈ Node.allRaws ns, raw t) → ∀ ts ∈ tss, Phrase raw place.avoided ts
  | place, [], h, _ => by
    cases h
    simp
  | place, n :: rest, h, hraw => by
    rw [Node.allRaws, List.forall_mem_append] at hraw
    obtain ⟨ts, hts, rest', hrest, rfl⟩ := writeAll_cons_eq_ok.1 h
    rw [List.forall_mem_cons]
    exact ⟨phrase_write hown n hts hraw.1, phrase_writeAll hown rest hrest hraw.2⟩

theorem phrase_writeOperands (hown : ∀ t ∈ ownRaws, raw t) {op : Op} {tss : List (List Token)} :
    ∀ {position : Nat} (ns : List Node), d.writeOperands op position ns = .ok tss →
      (∀ t ∈ Node.allRaws ns, raw t) → ∀ ts ∈ tss, Phrase raw queryWords ts
  | position, [], h, _ => by
    cases h
    simp
  | position, n :: rest, h, hraw => by
    rw [Node.allRaws, List.forall_mem_append] at hraw
    obtain ⟨ts, hts, rest', hrest, rfl⟩ := writeOperands_cons_eq_ok.1 h
    rw [List.forall_mem_cons]
    exact ⟨phrase_write hown n hts hraw.1, phrase_writeOperands hown rest hrest hraw.2⟩

theorem phrase_writeFirst (hown : ∀ t ∈ ownRaws, raw t) {ts : List Token} :
    ∀ ns : List Node, d.writeFirst ns = .ok ts → (∀ t ∈ Node.allRaws ns, raw t) →
      Phrase raw queryWords ts
  | [], h, _ => by
    cases h
    exact .keyword (by decide)
  | n :: rest, h, hraw => by
    rw [Node.allRaws, List.forall_mem_append] at hraw
    exact phrase_write hown n (by simpa [writeFirst] using h) hraw.1

theorem phrase_writeOption (hown : ∀ t ∈ ownRaws, raw t) {o : Option (List Token)} :
    ∀ {place : Place} (n : Option Node), d.writeOption place n = .ok o →
      (∀ t ∈ Node.optionRaws n, raw t) → ∀ ts ∈ o, Phrase raw place.avoided ts
  | place, none, h, _ => by
    cases h
    simp
  | place, some n, h, hraw => by
    obtain ⟨ts, hts, rfl⟩ := writeOption_some_eq_ok.1 h
    intro us hus
    cases hus
    exact phrase_write hown n hts (by simpa [Node.optionRaws] using hraw)

/-- The branches of a case distinction continue a phrase. -/
theorem phrase_writeBranches (hown : ∀ t ∈ ownRaws, raw t) {us : List Token} :
    ∀ (bs : List (Node × Node)) {ts : List Token}, d.writeBranches bs = .ok us →
      (∀ t ∈ Node.branchRaws bs, raw t) → Phrase raw queryWords ts →
        Phrase raw queryWords (ts ++ us)
  | [], ts, h, _, ht => by
    cases h
    simpa using ht
  | (condition, result) :: rest, ts, h, hraw, ht => by
    simp only [Node.branchRaws, List.forall_mem_append] at hraw
    obtain ⟨condition', hcondition, result', hresult, rest', hrest, rfl⟩ :=
      writeBranches_cons_eq_ok.1 h
    have hwhen := ht.spaced (fits_expressionKeyword (w := "WHEN") (by decide))
      (phrase_write hown condition hcondition hraw.1.1)
    have hthen := hwhen.spaced (fits_expressionKeyword (w := "THEN") (by decide))
      (phrase_write hown result hresult hraw.1.2)
    simpa using phrase_writeBranches hown rest hrest hraw.2 hthen

theorem phrase_writeRows (hown : ∀ t ∈ ownRaws, raw t) {tss : List (List Token)} :
    ∀ rows : List (List Node), d.writeRows rows = .ok tss → (∀ t ∈ Node.rowRaws rows, raw t) →
      ∀ ts ∈ tss, ∀ words, Phrase raw words ts
  | [], h, _ => by
    cases h
    simp
  | row :: rest, h, hraw => by
    rw [Node.rowRaws, List.forall_mem_append] at hraw
    obtain ⟨row', hrow, rest', hrest, rfl⟩ := writeRows_cons_eq_ok.1 h
    rw [List.forall_mem_cons]
    have hrow := Phrase.commaSeparated (phrase_writeAll hown row hrow hraw.1)
    exact ⟨fun words => .bracketed .nil (hrow.mono (by simp)),
      phrase_writeRows hown rest hrest hraw.2⟩

theorem phrase_writeSelect (hown : ∀ t ∈ ownRaws, raw t) {ts : List Token} :
    ∀ block : Select Node, d.writeSelect block = .ok ts →
      (∀ t ∈ Node.selectRaws block, raw t) → Phrase raw [] ts
  | ⟨distinct, items, source, condition, groupBy, having, orderBy, offset, fetch⟩, h, hraw => by
    simp only [Node.selectRaws, List.forall_mem_append] at hraw
    obtain ⟨⟨⟨⟨⟨⟨⟨hrItems, hrSource⟩, hrCondition⟩, hrGroup⟩, hrHaving⟩, hrOrder⟩, hrOffset⟩,
      hrFetch⟩ := hraw
    obtain ⟨s, hs, rfl⟩ := writesParts_of_writeSelect h
    have free {us : List Token} (h : Phrase raw Place.free.avoided us) : Phrase raw [] us :=
      h.mono (by simp)
    exact phrase_selectTokens
      (fun us hus => free (phrase_writeAll hown items hs.items hrItems us hus))
      (fun us hus => (phrase_writeOption hown source hs.source hrSource us hus).mono (by simp))
      (fun us hus => free (phrase_writeOption hown condition hs.condition hrCondition us hus))
      (fun us hus => free (phrase_writeAll hown groupBy hs.groupBy hrGroup us hus))
      (fun us hus => free (phrase_writeOption hown having hs.having hrHaving us hus))
      (fun us hus => free (phrase_writeAll hown orderBy hs.orderBy hrOrder us hus))
      (fun us hus => free (phrase_writeOption hown offset hs.offset hrOffset us hus))
      (fun us hus => free (phrase_writeOption hown fetch hs.fetch hrFetch us hus))

end

end Dialect

end StorePlan.Sql
