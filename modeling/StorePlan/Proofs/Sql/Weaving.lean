import StorePlan.Proofs.Sql.Parameters.Order
import StorePlan.Proofs.Sql.Unquoted
import StorePlan.Proofs.Sql.Wording

/-
What writing adds to the parts of a node does not depend on the parts. Two
runs that write the same node around different parts put the same tokens of
their own between them, in the same order (`Woven`); so what holds of those
tokens and of the parts, one by one, holds of the whole.

The one look at a part is for a sign that it starts with.
-/

namespace StorePlan.Sql

open Lexeme

/-! ## Tokens -/

/-- What stands in a text for a parameter. -/
def placeholder : Lexeme := .sign "?"

namespace Token

/-- The number of the parameter that a token stands for. -/
def parameter? : Token → Option Nat
  | parameter index => some index
  | _ => none

/-- A token without a placeholder. -/
def IsQuiet (t : Token) : Prop := t.parameter? = none ∧ placeholder ∉ t.lexemes

instance (t : Token) : Decidable t.IsQuiet := inferInstanceAs (Decidable (_ ∧ _))

/-- A token that is no parameter, and has no placeholder unless it is raw. -/
def IsOther (raw : Token → Prop) (t : Token) : Prop :=
  t.parameter? = none ∧ (raw t ∨ placeholder ∉ t.lexemes)

/-- A token without a placeholder and without a comment that is the same in every text. -/
def IsPlain (t : Token) : Prop := t.IsQuiet ∧ t ≠ .madeUpName ∧ Calm t.chars

instance (t : Token) : Decidable t.IsPlain := inferInstanceAs (Decidable (_ ∧ _ ∧ _))

/-- A token that writing may add: no parameter and no made-up name, and without a placeholder and
without a comment unless it is raw. -/
def IsOwn (raw : Token → Prop) (t : Token) : Prop :=
  t.IsOther raw ∧ t ≠ .madeUpName ∧ (raw t ∨ Calm t.chars)

variable {raw : Token → Prop} {t : Token}

theorem IsQuiet.isOther (h : t.IsQuiet) : t.IsOther raw := ⟨h.1, .inr h.2⟩

theorem IsPlain.isOwn (h : t.IsPlain) : t.IsOwn raw := ⟨h.1.isOther, h.2.1, .inr h.2.2⟩

@[simp] theorem isPlain_blank : blank.IsPlain := by decide

@[simp] theorem isPlain_name (n : String) : (name n).IsPlain :=
  ⟨⟨rfl, by simp [placeholder]⟩, nofun, calm_name n⟩

@[simp] theorem isPlain_string (s : String) : (string s).IsPlain :=
  ⟨⟨rfl, by simp [placeholder]⟩, nofun, calm_string s⟩

/-- A word is plain if there is no question mark and no comment in it. -/
theorem isPlain_word {w : String} (h : '?' ∉ w.toList) (hcalm : Calm w.toList) :
    (word w).IsPlain :=
  ⟨⟨rfl, fun hmem => h (mem_of_sign_mem_ofChars hmem)⟩, nofun, hcalm⟩

@[simp] theorem isPlain_unit (u : TimeUnit) : (word u.name).IsPlain :=
  isPlain_word (by cases u <;> decide) (by cases u <;> decide)

@[simp] theorem isPlain_qualifier (q : IntervalQualifier) : (word q.text).IsPlain :=
  isPlain_word (by cases q <;> decide) (by cases q <;> decide)

theorem isPlain_opName {op : Op} (h : op.layout ≠ .function) : (word op.name).IsPlain := by
  have : ∀ w ∈ expressionKeywords, '?' ∉ w.toList ∧ Calm w.toList := by decide
  obtain ⟨hquestion, hcalm⟩ := this _ (Dialect.name_mem_expressionKeywords h)
  exact isPlain_word hquestion hcalm

end Token

/-! ## Weaving -/

/-- Two lists of tokens that are put together alike, the one from the parts `ps` and the other from
the parts `qs`, with the same tokens between them. -/
inductive Woven (raw : Token → Prop) :
    List (List Token) → List (List Token) → List Token → List Token → Prop where
  | nil : Woven raw [] [] [] []
  | own {ps qs : List (List Token)} {t : Token} {ts us : List Token} :
    t.IsOwn raw → Woven raw ps qs ts us → Woven raw ps qs (t :: ts) (t :: us)
  | part {ps qs : List (List Token)} {ts us : List Token} (p q : List Token) :
    Woven raw ps qs ts us → Woven raw (p :: ps) (q :: qs) (p ++ ts) (q ++ us)

namespace Woven

variable {raw : Token → Prop} {ps qs ps' qs' tss uss : List (List Token)} {t : Token}
  {ts us ts' us' vs : List Token}

theorem append (h : Woven raw ps qs ts us) (h' : Woven raw ps' qs' ts' us') :
    Woven raw (ps ++ ps') (qs ++ qs') (ts ++ ts') (us ++ us') := by
  induction h with
  | nil => exact h'
  | own ht _ ih => exact .own ht ih
  | part p q _ ih => simpa using Woven.part p q ih

theorem plain (h : ∀ t ∈ vs, t.IsPlain) : Woven raw [] [] vs vs := by
  induction vs with
  | nil => exact .nil
  | cons t vs ih =>
    rw [List.forall_mem_cons] at h
    exact .own h.1.isOwn (ih h.2)

theorem one (p q : List Token) : Woven raw [p] [q] p q := by simpa using Woven.part p q .nil

theorem cons (ht : t.IsPlain) (h : Woven raw ps qs ts us) : Woven raw ps qs (t :: ts) (t :: us) :=
  .own ht.isOwn h

/-- Plain tokens in front. -/
theorem after (vs : List Token) (h : Woven raw ps qs ts us) (hvs : ∀ t ∈ vs, t.IsPlain) :
    Woven raw ps qs (vs ++ ts) (vs ++ us) := (plain hvs).append h

/-- Plain tokens behind. -/
theorem behind (vs : List Token) (h : Woven raw ps qs ts us) (hvs : ∀ t ∈ vs, t.IsPlain) :
    Woven raw ps qs (ts ++ vs) (us ++ vs) := by
  simpa using h.append (plain hvs)

theorem inBrackets (h : Woven raw ps qs ts us) : Woven raw ps qs (bracketed ts) (bracketed us) :=
  .cons (by decide) (h.behind _ (by decide))

theorem spaced {w : String} (h : Woven raw ps qs ts us) (hw : (Token.word w).IsPlain)
    (h' : Woven raw ps' qs' ts' us') :
    Woven raw (ps ++ ps') (qs ++ qs') (ts ++ spaced w ++ ts') (us ++ Sql.spaced w ++ us') := by
  refine (h.behind _ ?_).append h'
  simp [Sql.spaced, hw]

theorem commaSeparated : ∀ {tss uss : List (List Token)}, tss.length = uss.length →
    Woven raw tss uss (commaSeparated tss) (commaSeparated uss)
  | [], [], _ => .nil
  | [ts], [us], _ => .one ts us
  | ts :: _ :: _, us :: _ :: _, h =>
    ((one ts us).behind _ (by decide)).append (commaSeparated (by simpa using h))

end Woven

namespace Dialect

variable {raw : Token → Prop} {tss uss tss' uss' : List (List Token)} {ts us : List Token}

/-! ## Leaves -/

theorem woven_nameTokens : ∀ parts : List String,
    Woven raw [] [] (nameTokens parts) (nameTokens parts)
  | [] => .nil
  | [part] => .cons (isPlain_namePart part) .nil
  | part :: next :: rest => by
    have hpart : ∀ t ∈ [namePart part, .word "."], t.IsPlain := by
      simpa using ⟨isPlain_namePart part, by decide⟩
    exact (woven_nameTokens (next :: rest)).after _ hpart
where
  isPlain_namePart (part : String) : (namePart part).IsPlain := by
    unfold namePart
    split_ifs
    · decide
    · exact Token.isPlain_name part

theorem woven_literalTokens {l : Literal} (h : ∀ t ∈ l.raws, raw t) :
    Woven raw [] [] (literalTokens l) (literalTokens l) := by
  have htyped {w : String} (hw : (Token.word w).IsPlain) (s : String) :
      Woven raw [] [] [.word w, .blank, .string s] [.word w, .blank, .string s] :=
    .plain (by simp [hw])
  have hnumber {s : String} (hs : .number s ∈ l.raws) :
      Woven raw [] [] [.number s] [.number s] :=
    .own ⟨⟨rfl, .inl (h _ hs)⟩, nofun, .inl (h _ hs)⟩ .nil
  cases l with
  | null => exact .plain (by decide)
  | boolean b => cases b <;> exact .plain (by decide)
  | exact t => exact hnumber (by simp [Literal.raws])
  | approximate t => exact hnumber (by simp [Literal.raws])
  | string s => exact .cons (Token.isPlain_string s) .nil
  | date t => exact htyped (by decide) t
  | time t => exact htyped (by decide) t
  | timestamp t => exact htyped (by decide) t
  | interval t q =>
    have hqualifier : ∀ t ∈ [Token.blank, .word q.text], t.IsPlain := by simp
    exact (htyped (by decide) t).behind _ hqualifier
  | unit u => exact .cons (Token.isPlain_unit u) .nil

theorem isPlain_castTarget {d : Dialect} {t : DataType} {target : CastTarget}
    (h : d.castTarget t = .ok target) : (Token.word target.text).IsPlain := by
  refine Token.isPlain_word (not_mem_castTarget h (by decide) (by decide))
    (.of_forall fun c hc hmem => ?_)
  have habsent : "'\"-/".toList.all (fun c => !isTargetCharacter c && !"[]".toList.contains c) =
      true := by
    decide
  obtain ⟨hcharacter, hbracket⟩ : isTargetCharacter c = false ∧ c ∉ "[]".toList := by
    simpa using List.all_eq_true.1 habsent c hmem
  exact not_mem_castTarget h hcharacter hbracket hc

theorem woven_castTokens {d : Dialect} {t : DataType} {target : CastTarget}
    (h : d.castTarget t = .ok target) (ts us : List Token) :
    Woven raw [ts] [us] (castTokens ts target) (castTokens us target) := by
  have hend : Woven raw [] [] [.word target.text] [.word target.text] :=
    .cons (isPlain_castTarget h) .nil
  have hinner := ((Woven.one ts us).spaced (w := "AS") (by decide) hend).inBrackets
  exact .cons (by decide) hinner

theorem woven_parameterTokens {d : Dialect} {index : Nat} {type : Option DataType}
    (h : d.parameterTokens index type = .ok ts) :
    Woven raw [[.parameter index]] [[.parameter index]] ts ts := by
  have hparameter : Woven raw [[.parameter index]] [[.parameter index]] _ _ := .one _ _
  unfold parameterTokens at h
  split at h
  · rename_i q
    split at h
    · cases h
      exact hparameter
    · obtain ⟨target, htarget, h⟩ := bind_eq_ok.1 h
      cases h
      exact woven_castTokens htarget _ _
    · cases h
      have hword : (Token.word "INTERVAL").IsPlain := by decide
      have hinterval : ∀ t ∈ [Token.word "INTERVAL", .blank, .string "1", .blank,
          .word q.start.name], t.IsPlain := by
        simp [hword]
      exact hparameter.spaced (w := "*") (by decide) (.plain hinterval)
  · cases h
    exact hparameter

/-! ## Calls -/

theorem isOwn_function {op : Op} (h : ∀ t ∈ op.raws, raw t) :
    (Token.function op.name).IsOwn raw := by
  cases op with
  | function name =>
    have hraw : raw (.function name) := h _ (by simp [Op.raws])
    exact ⟨⟨rfl, .inl hraw⟩, by simp, .inl hraw⟩
  | _ => exact Token.IsPlain.isOwn (by decide)

theorem woven_argumentTokens (distinct : Bool) (h : tss.length = uss.length) :
    Woven raw tss uss (argumentTokens distinct tss) (argumentTokens distinct uss) := by
  refine ((Woven.commaSeparated h).after _ ?_).inBrackets
  cases distinct <;> decide

theorem woven_functionTokens {op : Op} (distinct : Bool) (hop : ∀ t ∈ op.raws, raw t)
    (h : tss.length = uss.length) :
    Woven raw tss uss (functionTokens op distinct tss) (functionTokens op distinct uss) := by
  have harguments : Woven raw tss uss _ _ := woven_argumentTokens distinct h
  unfold functionTokens
  split_ifs
  · have hsum := harguments.cons (t := .function "SUM") (by decide)
    exact .cons (by decide) (hsum.behind _ (by decide)).inBrackets
  · exact .own (isOwn_function hop) harguments

theorem woven_singleValueTokens (ts us : List Token) :
    Woven raw [ts] [us] (singleValueTokens ts) (singleValueTokens us) := by
  have hmin : Woven raw [ts] [us] (.function "MIN" :: bracketed ts) _ :=
    .cons (by decide) (Woven.one ts us).inBrackets
  exact (((hmin.after _ (by decide)).behind _ (by decide)).behind _ (by decide)).behind _
    (by decide)

theorem woven_roundingTokens {d : Dialect} {op : Op} {operands : List Node} {r : Rounding}
    (h : d.rounding? op operands = .ok (some r)) (ts us : List Token) :
    Woven raw [ts] [us] (roundingTokens op ts r) (roundingTokens op us r) := by
  have htoUnit {u v : TimeUnit} (hu : roundingUnit? op operands = some v) :
      Woven raw [ts] [us] (roundingTokens op ts (.toUnit u))
        (roundingTokens op us (.toUnit u)) := by
    have hop : (Token.function op.name).IsPlain := by
      rcases eq_floor_or_ceil hu with rfl | rfl <;> decide
    have hunit : Woven raw [] [] [.word u.name] [.word u.name] := .plain (by simp)
    exact .cons hop ((Woven.one ts us).spaced (w := "TO") (by decide) hunit).inBrackets
  have htruncation {f : String} (unitFirst : Bool) (word : String)
      (hf : (Token.function f).IsPlain) :
      Woven raw [ts] [us] (roundingTokens op ts (.truncation f unitFirst word))
        (roundingTokens op us (.truncation f unitFirst word)) := by
    have hword : Woven raw [] [] [.string word] [.string word] := .plain (by simp)
    refine .cons hf (Woven.inBrackets ?_)
    cases unitFirst with
    | true => exact (hword.behind _ (by decide)).append (.one ts us)
    | false => exact ((Woven.one ts us).behind _ (by decide)).append hword
  unfold rounding? at h
  split at h
  · cases h
  · rename_i u hu
    split at h
    · rename_i t htrunc
      have hf : (Token.function t.function).IsPlain := by
        cases d <;> cases htrunc <;> decide
      split_ifs at h
      · split at h
        · cases h
          exact htruncation _ _ hf
        · cases h
      · cases h
        exact htoUnit hu
    · cases h
      exact htoUnit hu

/-- What is rounded to is a unit, which is written as a word. -/
theorem exists_operands_of_rounding? {d : Dialect} {op : Op} {operands : List Node} {r : Rounding}
    (h : d.rounding? op operands = .ok (some r))
    (hwritten : d.writeOperands op 0 operands = .ok tss) :
    ∃ (ts : List Token) (u : TimeUnit), tss = [ts, [.word u.name]] := by
  have hunit : roundingUnit? op operands ≠ none := by
    intro hnone
    simp [rounding?, hnone] at h
  unfold roundingUnit? at hunit
  split at hunit
  · rename_i n u
    obtain ⟨ts, -, _, hunits, rfl⟩ := writeOperands_cons_eq_ok.1 hwritten
    obtain ⟨us, hword, _, hnone, rfl⟩ := writeOperands_cons_eq_ok.1 hunits
    cases hword
    cases hnone
    exact ⟨ts, u, rfl⟩
  · contradiction

/-- An operator around operands of which the same ones start with a sign. -/
theorem woven_operatorTokens {op : Op} (distinct : Bool) {ns ms : List Node}
    (hop : ∀ t ∈ op.raws, raw t) (htakes : op.takes tss.length = true)
    (hqueries : (ms.drop 1).any Node.isQuery = (ns.drop 1).any Node.isQuery)
    (h : List.Forall₂ (fun ts us => startsWithMinus us = startsWithMinus ts) tss uss) :
    Woven raw tss uss (operatorTokens op distinct ns tss) (operatorTokens op distinct ms uss) := by
  have hname (hlayout : op.layout ≠ .function) := Token.isPlain_opName hlayout
  cases Op.arranged_of_takes htakes with
  | function hlayout =>
    have hfunction (operands : List Node) (written : List (List Token)) :
        operatorTokens op distinct operands written = functionTokens op distinct written := by
      simp [operatorTokens, hlayout]
    rw [hfunction, hfunction]
    exact woven_functionTokens distinct hop h.length_eq
  | binary hlayout =>
    obtain _ | ⟨_, _ | ⟨_, _ | _⟩⟩ := h
    simp only [operatorTokens, hlayout]
    exact (Woven.one _ _).spaced (hname (by simp [hlayout])) (.one _ _)
  | leading hlayout =>
    obtain _ | ⟨hsign, _ | _⟩ := h
    simp only [operatorTokens, hlayout, leadingGap, hsign]
    refine .cons (hname (by simp [hlayout])) ((Woven.one _ _).after _ ?_)
    split_ifs <;> decide
  | trailing hlayout =>
    obtain _ | ⟨_, _ | _⟩ := h
    simp only [operatorTokens, hlayout]
    exact (Woven.one _ _).behind _ (by simpa using hname (by simp [hlayout]))
  | isIn _ =>
    obtain _ | ⟨_, hlist⟩ := h
    rw [operatorTokens_isIn, operatorTokens_isIn, hqueries, hlist.length_eq]
    have hitems : Woven raw _ _ _ _ := .commaSeparated hlist.length_eq
    split_ifs
    · exact (Woven.one _ _).spaced (by decide) hitems
    · exact (Woven.one _ _).spaced (by decide) hitems.inBrackets
  | between =>
    obtain _ | ⟨_, _ | ⟨_, _ | ⟨_, _ | _⟩⟩⟩ := h
    rw [operatorTokens_between, operatorTokens_between]
    exact ((Woven.one _ _).spaced (by decide) (.one _ _)).spaced (by decide) (.one _ _)

/-! ## Windows and queries -/

theorem woven_listClause {w : String} (hw : (Token.word w).IsPlain) (h : tss.length = uss.length) :
    Woven raw tss uss (listClause w tss) (listClause w uss) := by
  unfold listClause
  match tss, uss, h with
  | [], [], _ => exact .nil
  | _ :: _, _ :: _, h => exact (Woven.commaSeparated h).after _ (by simp [hw])

theorem woven_windowTokens (ts us : List Token) (h : tss.length = uss.length)
    (h' : tss'.length = uss'.length) :
    Woven raw ([ts] ++ tss ++ tss') ([us] ++ uss ++ uss') (windowTokens ts tss tss')
      (windowTokens us uss uss') := by
  have hp : Woven raw _ _ (listClause "PARTITION BY" tss) _ := woven_listClause (by decide) h
  have ho : Woven raw _ _ (listClause "ORDER BY" tss') _ := woven_listClause (by decide) h'
  have hgap : ∀ t ∈ (if tss.isEmpty || tss'.isEmpty then [] else [.blank] : List Token),
      t.IsPlain := by
    split_ifs <;> simp
  have hempty {as bs : List (List Token)} (hab : as.length = bs.length) :
      bs.isEmpty = as.isEmpty := by
    rw [Bool.eq_iff_iff, List.isEmpty_iff_length_eq_zero, List.isEmpty_iff_length_eq_zero, hab]
  unfold windowTokens
  rw [hempty h, hempty h']
  exact ((Woven.one ts us).behind _ (by decide)).append ((hp.behind _ hgap).append ho).inBrackets

theorem woven_sortKeyTokens (descending : Bool) (nullsFirst : Option Bool) (ts us : List Token) :
    Woven raw [ts] [us] (ts ++ sortKeyTokens descending nullsFirst)
      (us ++ sortKeyTokens descending nullsFirst) := by
  refine (Woven.one ts us).behind _ ?_
  match descending, nullsFirst with
  | true, none | true, some true | true, some false | false, none | false, some true
  | false, some false => decide

theorem woven_clause {w : String} (hw : (Token.word w).IsPlain) {o o' : Option (List Token)}
    (h : o.toList.length = o'.toList.length) :
    Woven raw o.toList o'.toList (clause w o) (clause w o') := by
  match o, o', h with
  | none, none, _ => exact .nil
  | some ts, some us, _ => exact (Woven.one ts us).after _ (by simp [spaced, hw])

/-- A clause for a list that is left out when the list is empty. -/
theorem woven_clause_listContent {w : String} (hw : (Token.word w).IsPlain)
    (h : tss.length = uss.length) :
    Woven raw tss uss (clause w (listContent tss)) (clause w (listContent uss)) := by
  match tss, uss, h with
  | [], [], _ => exact .nil
  | _ :: _, _ :: _, h => exact (Woven.commaSeparated h).after _ (by simp [spaced, hw])

theorem woven_boundTokens (style : Pagination) {o o' f f' : Option (List Token)}
    (ho : o.toList.length = o'.toList.length) (hf : f.toList.length = f'.toList.length) :
    Woven raw (style.arrange o.toList f.toList) (style.arrange o'.toList f'.toList)
      (boundTokens style o f) (boundTokens style o' f') := by
  have hbehind {w : String} (hw : (Token.word w).IsPlain) (last : List Token)
      (hlast : ∀ t ∈ last, t.IsPlain) {c c' : Option (List Token)}
      (hc : c.toList.length = c'.toList.length) :
      Woven raw c.toList c'.toList (clause w (c.map (· ++ last)))
        (clause w (c'.map (· ++ last))) := by
    match c, c', hc with
    | none, none, _ => exact .nil
    | some ts, some us, _ => exact ((Woven.one ts us).behind _ hlast).after _ (by simp [spaced, hw])
  cases style with
  | offsetFetch =>
    have hoffset := hbehind (w := "OFFSET") (by decide) [.blank, .word "ROWS"] (by decide) ho
    exact hoffset.append
      (hbehind (w := "FETCH NEXT") (by decide) [.blank, .word "ROWS ONLY"] (by decide) hf)
  | limitOffset => exact (woven_clause (by decide) hf).append (woven_clause (by decide) ho)

theorem woven_placeExpression (precedence : Nat) (place : Place) (h : Woven raw tss uss ts us) :
    Woven raw tss uss (placeExpression precedence ts place)
      (placeExpression precedence us place) := by
  unfold placeExpression
  split_ifs
  · exact h.inBrackets
  · exact h

/-- An operator around its operands as they are. -/
theorem woven_operator {op : Op} {ns : List Node} (distinct : Bool) (place : Place)
    (hop : ∀ t ∈ op.raws, raw t) (htakes : op.takes tss.length = true) :
    Woven raw tss tss (placeExpression op.precedence (operatorTokens op distinct ns tss) place)
      (placeExpression op.precedence (operatorTokens op distinct ns tss) place) := by
  have hsame : List.Forall₂ (fun ts us => startsWithMinus us = startsWithMinus ts) tss tss :=
    List.forall₂_same.2 fun _ _ => rfl
  exact woven_placeExpression _ place (woven_operatorTokens distinct hop htakes rfl hsame)

/-- A query outside of `FROM` clauses. -/
theorem woven_placeQuery (d : Dialect) (isPaged : Bool) {place : Place} (hplace : place ≠ .source)
    (ts us : List Token) :
    Woven raw [ts] [us] (d.placeQuery isPaged ts place) (d.placeQuery isPaged us place) := by
  cases place with
  | statement => exact .one ts us
  | setOperand =>
    cases isPaged with
    | true => exact (Woven.one ts us).inBrackets
    | false => exact .one ts us
  | source => contradiction
  | operand p => exact (Woven.one ts us).inBrackets

theorem woven_subject {s s' : Option (List Token)} :
    s.toList.length = s'.toList.length →
      Woven raw s.toList s'.toList (match s with | some tokens => .blank :: tokens | none => [])
        (match s' with | some tokens => .blank :: tokens | none => []) := by
  intro h
  match s, s', h with
  | none, none, _ => exact .nil
  | some ts, some us, _ => exact (Woven.one ts us).cons (by decide)

theorem woven_caseTokens {s s' o o' : Option (List Token)} (ts us : List Token) :
    s.toList.length = s'.toList.length → o.toList.length = o'.toList.length →
      Woven raw (s.toList ++ [ts] ++ o.toList) (s'.toList ++ [us] ++ o'.toList)
        ([Token.word "CASE"] ++ (match s with | some tokens => .blank :: tokens | none => []) ++
          ts ++ clause "ELSE" o ++ [Token.blank, Token.word "END"])
        ([Token.word "CASE"] ++ (match s' with | some tokens => .blank :: tokens | none => []) ++
          us ++ clause "ELSE" o' ++ [Token.blank, Token.word "END"]) := by
  intro hs ho
  have hsubject : Woven raw _ _ _ _ := (woven_subject hs).after [.word "CASE"] (by decide)
  have hbranches := hsubject.append (.one ts us)
  have hall := hbranches.append (woven_clause (w := "ELSE") (by decide) ho)
  exact hall.behind [.blank, .word "END"] (by decide)

theorem woven_branchTokens (cs cs' rs rs' ts us : List Token) :
    Woven raw [cs, rs, ts] [cs', rs', us] (spaced "WHEN" ++ cs ++ spaced "THEN" ++ rs ++ ts)
      (spaced "WHEN" ++ cs' ++ spaced "THEN" ++ rs' ++ us) := by
  have hcondition : Woven raw [cs] [cs'] _ _ := (Woven.one cs cs').after (spaced "WHEN") (by decide)
  exact (hcondition.spaced (by decide) (.one rs rs')).append (.one ts us)

theorem woven_joinTokens (kind : JoinKind) {c c' : Option (List Token)} (ts us ts' us' : List Token)
    (hc : c.toList.length = c'.toList.length) :
    Woven raw ([ts, ts'] ++ c.toList) ([us, us'] ++ c'.toList)
      (ts ++ spaced kind.name ++ ts' ++ clause "ON" c)
      (us ++ spaced kind.name ++ us' ++ clause "ON" c') := by
  have hkind : (Token.word kind.name).IsPlain := by cases kind <;> decide
  exact ((Woven.one ts us).spaced hkind (.one ts' us')).append (woven_clause (by decide) hc)

theorem woven_setTokens (op : SetOperator) (ts us ts' us' : List Token) :
    Woven raw [ts, ts'] [us, us'] (ts ++ spaced op.name ++ ts') (us ++ spaced op.name ++ us') := by
  have hop : (Token.word op.name).IsPlain := by cases op <;> decide
  exact (Woven.one ts us).spaced hop (.one ts' us')

theorem woven_arrayTokens (h : tss.length = uss.length) :
    Woven raw tss uss
      ([Token.word "ARRAY", Token.word "["] ++ commaSeparated tss ++ [Token.word "]"])
      ([Token.word "ARRAY", Token.word "["] ++ commaSeparated uss ++ [Token.word "]"]) :=
  ((Woven.commaSeparated h).after _ (by decide)).behind _ (by decide)

theorem woven_aliasTokens (given : String) (ts us : List Token) :
    Woven raw [ts] [us] (ts ++ aliasTokens (.name given)) (us ++ aliasTokens (.name given)) := by
  have has : (Token.word "AS").IsPlain := by decide
  exact (Woven.one ts us).behind _ (by simp [aliasTokens, spaced, has])

theorem woven_valuesTokens (h : tss.length = uss.length) :
    Woven raw tss uss ([Token.word "VALUES", Token.blank] ++ commaSeparated tss)
      ([Token.word "VALUES", Token.blank] ++ commaSeparated uss) :=
  (Woven.commaSeparated h).after _ (by decide)

/-- The written parts of a query block in the order of its text. -/
def writtenParts (style : Pagination) (s : Select (List Token)) : List (List Token) :=
  s.items ++ s.source.toList ++ s.condition.toList ++ s.groupBy ++ s.having.toList ++ s.orderBy ++
    style.arrange s.offset.toList s.fetch.toList

/-- Query blocks with as many parts of each kind. -/
structure SameShape (s s' : Select (List Token)) : Prop where
  distinct : s.distinct = s'.distinct
  items : s.items.length = s'.items.length
  source : s.source.toList.length = s'.source.toList.length
  condition : s.condition.toList.length = s'.condition.toList.length
  groupBy : s.groupBy.length = s'.groupBy.length
  having : s.having.toList.length = s'.having.toList.length
  orderBy : s.orderBy.length = s'.orderBy.length
  offset : s.offset.toList.length = s'.offset.toList.length
  fetch : s.fetch.toList.length = s'.fetch.toList.length

theorem SameShape.refl (s : Select (List Token)) : SameShape s s :=
  ⟨rfl, rfl, rfl, rfl, rfl, rfl, rfl, rfl, rfl⟩

/-- The items that are selected, or a star if there are none. -/
theorem woven_selected (h : tss.length = uss.length) :
    Woven raw tss uss (if tss.isEmpty then [Token.word "*"] else commaSeparated tss)
      (if uss.isEmpty then [Token.word "*"] else commaSeparated uss) := by
  match tss, uss, h with
  | [], [], _ => exact .plain (by decide)
  | _ :: _, _ :: _, h => exact .commaSeparated h

theorem woven_selectTokens (style : Pagination) {s s' : Select (List Token)} (h : SameShape s s') :
    Woven raw (writtenParts style s) (writtenParts style s') (selectTokens style s)
      (selectTokens style s') := by
  have hstart : Woven raw s.items s'.items
      ([Token.word "SELECT", Token.blank] ++
        (if s.distinct then [Token.word "DISTINCT", Token.blank] else []) ++
        if s.items.isEmpty then [Token.word "*"] else commaSeparated s.items)
      ([Token.word "SELECT", Token.blank] ++
        (if s.distinct then [Token.word "DISTINCT", Token.blank] else []) ++
        if s'.items.isEmpty then [Token.word "*"] else commaSeparated s'.items) := by
    refine (woven_selected h.items).after _ ?_
    split_ifs <;> decide
  have hfrom := hstart.append (woven_clause (w := "FROM") (by decide) h.source)
  have hwhere := hfrom.append (woven_clause (w := "WHERE") (by decide) h.condition)
  have hgroup := hwhere.append (woven_clause_listContent (w := "GROUP BY") (by decide) h.groupBy)
  have hhaving := hgroup.append (woven_clause (w := "HAVING") (by decide) h.having)
  have horder := hhaving.append (woven_clause_listContent (w := "ORDER BY") (by decide) h.orderBy)
  rw [selectTokens_eq, selectTokens_eq, headTokens, headTokens, ← h.distinct]
  exact horder.append (woven_boundTokens style h.offset h.fetch)

end Dialect

end StorePlan.Sql
