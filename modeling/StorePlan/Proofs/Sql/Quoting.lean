import StorePlan.Proofs.Sql.Alignment
import StorePlan.Proofs.Sql.Respelling
import StorePlan.Proofs.Sql.Weaving

/-
What stands in quotes stays in quotes. Whatever contents a tree's literals,
parts of names and aliases have, its text scans to the same lexemes but for
these contents, which come out exactly as they went in.

The tokens of two trees that differ in these contents only are aligned, piece
by piece (`Dialect.agree_write`); a look back at what has been written, as for
a sign in front of a sign, never sees a content.
-/

namespace StorePlan.Sql

open Lexeme (ofText?)

/-- What is put together from aligned parts is aligned, with the contents of the parts. -/
theorem Aligned.weave {cs ds : List String} {tss uss : List (List Token)} {ts us : List Token}
    (h : Woven (fun _ => True) tss uss ts us)
    (hparts : PartsAligned Token.Slot cs ds tss uss) : Aligned Token.Slot cs ds ts us := by
  induction h generalizing cs ds with
  | nil =>
    cases hparts
    exact .nil
  | own _ _ ih => exact .same _ (ih hparts)
  | part p q _ ih =>
    cases hparts with
    | cons hp hrest => exact hp.append (ih hrest)

namespace Dialect

variable {cs ds : List String} {ts us : List Token}

/-! ## Leaves -/

theorem aligned_namePart {p q : String} (h : SamePart p q) :
    Aligned Token.Slot ([p].filter (· ≠ "*")) ([q].filter (· ≠ "*")) [namePart p] [namePart q] := by
  by_cases hp : p = "*"
  · obtain rfl := h.1 hp
    obtain rfl := hp
    exact .refl _
  · have hq : q ≠ "*" := mt h.2 hp
    simpa [namePart, hp, hq] using Aligned.slot .name .nil

theorem aligned_nameTokens {ps qs : List String} (h : List.Forall₂ SamePart ps qs) :
    Aligned Token.Slot (ps.filter (· ≠ "*")) (qs.filter (· ≠ "*"))
      (nameTokens ps) (nameTokens qs) := by
  induction h with
  | nil => exact .nil
  | @cons p q ps qs h hrest ih =>
    have hpart := aligned_namePart h
    cases hrest with
    | nil => exact hpart
    | @cons p' q' ps qs _ _ =>
      have hall := (hpart.behind [.word "."]).append ih
      rw [← List.filter_append, ← List.filter_append] at hall
      exact hall

theorem aligned_literalTokens {l k : Literal} (h : l.Respells k) :
    Aligned Token.Slot l.contents k.contents (literalTokens l) (literalTokens k) := by
  have hstring (s t : String) : Aligned Token.Slot [s] [t] [.string s] [.string t] :=
    .slot .string .nil
  cases h with
  | bare hnone =>
    rw [hnone]
    exact .refl _
  | string s t => exact hstring s t
  | date s t | time s t | timestamp s t => exact (hstring s t).after [_, .blank]
  | interval s t q => exact ((hstring s t).behind [.blank, .word q.text]).after [_, .blank]

/-! ## Queries -/

theorem aligned_placeQuery (d : Dialect) (isPaged : Bool) (place : Place)
    (h : Aligned Token.Slot cs ds ts us) :
    Aligned Token.Slot cs ds (d.placeQuery isPaged ts place) (d.placeQuery isPaged us place) := by
  cases place with
  | statement => exact h
  | setOperand =>
    cases isPaged with
    | true => exact h.inBrackets
    | false => exact h
  | source => exact h.inBrackets.behind _
  | operand p => exact h.inBrackets

/-! ## Trees -/

variable (d : Dialect)

mutual

theorem agree_write : ∀ (place : Place) {n m : Node}, n.Respells m →
    Agree (Aligned Token.Slot (d.contents n) (d.contents m)) (d.write place n) (d.write place m)
  | _, .name ps, _, .name h => by
    simp only [write, contents]
    exact .ok (aligned_nameTokens h)
  | _, .star, _, .star => .ok (.refl _)
  | _, .literal l, _, .literal h => by
    simp only [write, contents]
    exact .ok (aligned_literalTokens h)
  | place, .call op ns distinct, .call _ ms _, .call h => by
    -- None of the checks and case distinctions of a call looks at a content.
    simp only [write, contents, checkNesting_eq d h, rounding?_eq d h, checkOperands_eq h]
    refine .bind_same fun _ _ => ?_
    split_ifs with hsingle
    · exact (agree_writeFirst h).bind fun ts us hfirst =>
        .ok (.weave (woven_singleValueTokens ts us) (.one hfirst))
    · refine .bind_same fun rounding hrounding => .bind_same fun _ hcount =>
        (agree_writeOperands op 0 h).bind fun tss uss hwritten => ?_
      cases rounding with
      | some r =>
        -- The unit that is rounded to is written as a word, which is no content.
        have hms : d.rounding? op ms = .ok (some r) := (rounding?_eq d h).trans hrounding
        rw [flatten_allContents_of_rounding? hrounding, flatten_allContents_of_rounding? hms]
        exact .ok (.weave (woven_roundingTokens hrounding _ _) (.one hwritten.headD))
      | none =>
        have htakes : op.takes tss.length = true := by
          rw [hwritten.length_eq, length_allContents]
          exact checkOperands_eq_ok.1 hcount
        have hqueries := Node.any_eq_of_respells (List.forall₂_drop 1 h) Node.isQuery_eq
        have hop : ∀ t ∈ op.raws, True := fun _ _ => trivial
        exact .ok (.weave (woven_placeExpression _ place (woven_operatorTokens distinct hop htakes
          hqueries hwritten.parts.startsWithMinus_eq)) hwritten.parts)
  | _, .cast n target, _, .cast h => by
    simp only [write, contents]
    exact (agree_write .free h).bind fun ts us hoperand =>
      .bind_same fun _ htarget => .ok (.weave (woven_castTokens htarget ts us) (.one hoperand))
  | _, .caseOf s bs o, .caseOf t cs p, .caseOf hs hb ho => by
    simp only [write, contents, isEmpty_eq_of_forall₂ hb]
    split_ifs
    · exact .error _
    · exact (agree_writeOption .free hs).bind fun _ _ hsubject =>
        (agree_writeBranches hb).bind fun ts us hbranches =>
          (agree_writeOption .free ho).bind fun _ _ hotherwise =>
            .ok (.weave (woven_caseTokens ts us hsubject.parts.length_eq hotherwise.parts.length_eq)
              ((hsubject.parts.append (.one hbranches)).append hotherwise.parts))
  | _, .parameter i type, _, .parameter => by
    simp only [write, contents]
    exact .same .refl _
  | _, .array ns, _, .array h => by
    simp only [write, contents, Node.any_eq_of_respells h Node.isArray_eq]
    split_ifs
    · exact .error _
    · exact (agree_writeAll .free h).bind fun _ _ hitems =>
        .ok (.weave (woven_arrayTokens hitems.parts.length_eq) hitems.parts)
  | _, .window n ps os, _, .window hn hp ho => by
    simp only [write, contents]
    split_ifs
    · exact .error _
    · refine (agree_write _ hn).bind fun ts us hcalled =>
        (agree_writeAll .free hp).bind fun _ _ hpartition =>
          (agree_writeAll .free ho).bind fun _ _ horder => .ok ?_
      rw [← List.append_assoc, ← List.append_assoc]
      exact .weave
        (woven_windowTokens ts us hpartition.parts.length_eq horder.parts.length_eq)
        (((PartsAligned.one hcalled).append hpartition.parts).append horder.parts)
  | _, .aliased n a, _, .aliased _ b h => by
    simp only [write, contents]
    refine (agree_write .free h).bind fun _ _ hoperand => .ok (hoperand.append ?_)
    exact (Aligned.slot .name .nil).after _
  | _, .sortKey n descending nullsFirst, _, .sortKey h => by
    simp only [write, contents]
    exact (agree_write .free h).bind fun ts us hoperand =>
      .ok (.weave (woven_sortKeyTokens descending nullsFirst ts us) (.one hoperand))
  | place, .join l r kind c, _, .join hl hr hc => by
    simp only [write, contents]
    split_ifs
    · exact (agree_write .source hl).bind fun ts us hleft =>
        (agree_write .source hr).bind fun ts' us' hright =>
          (agree_writeOption .free hc).bind fun _ _ hcondition =>
            .ok (.weave (woven_joinTokens kind ts us ts' us' hcondition.parts.length_eq)
              (((PartsAligned.one hleft).append (.one hright)).append hcondition.parts))
    · exact .error _
  | place, .select block, .select other, h => by
    simp only [write, contents, Node.isPaged_eq_of_respells h]
    exact (agree_writeSelect h).bind fun _ _ hquery => .ok (aligned_placeQuery d _ place hquery)
  | place, .setOperation op l r, _, .setOperation hl hr => by
    simp only [write, contents]
    exact (agree_write .setOperand hl).bind fun ts us hleft =>
      (agree_write .setOperand hr).bind fun ts' us' hright =>
        .ok (aligned_placeQuery d false place (.weave (woven_setTokens op ts us ts' us')
          ((PartsAligned.one hleft).append (.one hright))))
  | place, .values rows, _, .values h => by
    simp only [write, contents, isEmpty_eq_of_forall₂ h]
    split_ifs
    · exact .error _
    · exact (agree_writeRows h).bind fun _ _ hrows =>
        .ok (aligned_placeQuery d false place
          (.weave (woven_valuesTokens hrows.parts.length_eq) hrows.parts))
termination_by structural _ n => n

theorem agree_writeAll : ∀ (place : Place) {ns ms : List Node}, List.Forall₂ Node.Respells ns ms →
    Agree (AllAligned Token.Slot (d.allContents ns) (d.allContents ms)) (d.writeAll place ns)
      (d.writeAll place ms)
  | _, [], _, .nil => .ok .nil
  | place, n :: rest, _, .cons h hrest => by
    simp only [writeAll, allContents]
    exact (agree_write place h).bind fun _ _ hfirst =>
      (agree_writeAll place hrest).bind fun _ _ hothers => .ok (.cons hfirst hothers)
termination_by structural _ ns => ns

theorem agree_writeOperands (op : Op) : ∀ (position : Nat) {ns ms : List Node},
    List.Forall₂ Node.Respells ns ms →
      Agree (AllAligned Token.Slot (d.allContents ns) (d.allContents ms))
        (d.writeOperands op position ns) (d.writeOperands op position ms)
  | _, [], _, .nil => .ok .nil
  | position, n :: rest, _, .cons h hrest => by
    simp only [writeOperands, allContents]
    exact (agree_write _ h).bind fun _ _ hfirst =>
      (agree_writeOperands op (position + 1) hrest).bind fun _ _ hothers =>
        .ok (.cons hfirst hothers)
termination_by structural _ ns => ns

theorem agree_writeFirst : ∀ {ns ms : List Node}, List.Forall₂ Node.Respells ns ms →
    Agree (Aligned Token.Slot ((d.allContents ns).headD []) ((d.allContents ms).headD []))
      (d.writeFirst ns) (d.writeFirst ms)
  | [], _, .nil => .ok (.refl _)
  | n :: _, _, .cons h _ => by
    simp only [writeFirst, allContents, List.headD_cons]
    exact agree_write .free h
termination_by structural ns => ns

theorem agree_writeOption : ∀ (place : Place) {n m : Option Node}, Option.Rel Node.Respells n m →
    Agree (OptionAligned Token.Slot (d.optionContents n) (d.optionContents m))
      (d.writeOption place n) (d.writeOption place m)
  | _, none, _, .none => .ok .none
  | place, some n, _, .some h => by
    simp only [writeOption, optionContents]
    exact (agree_write place h).bind fun _ _ hcontent => .ok (.some hcontent)
termination_by structural _ n => n

theorem agree_writeBranches : ∀ {bs cs : List (Node × Node)},
    List.Forall₂ (Prod.RProd Node.Respells Node.Respells) bs cs →
      Agree (Aligned Token.Slot (d.branchContents bs) (d.branchContents cs)) (d.writeBranches bs)
        (d.writeBranches cs)
  | [], _, .nil => .ok .nil
  | (w, t) :: rest, _, .cons (.intro hw ht) hrest => by
    simp only [writeBranches, branchContents]
    exact (agree_write .free hw).bind fun cs cs' hcondition =>
      (agree_write .free ht).bind fun rs rs' hresult =>
        (agree_writeBranches hrest).bind fun ts us hothers =>
          .ok (.weave (woven_branchTokens cs cs' rs rs' ts us)
            (((PartsAligned.one hcondition).append (.one hresult)).append (.one hothers)))
termination_by structural bs => bs

theorem agree_writeRows : ∀ {rows rows' : List (List Node)},
    List.Forall₂ (List.Forall₂ Node.Respells) rows rows' →
      Agree (AllAligned Token.Slot (d.rowContents rows) (d.rowContents rows')) (d.writeRows rows)
        (d.writeRows rows')
  | [], _, .nil => .ok .nil
  | row :: rest, _, .cons h hrest => by
    simp only [writeRows, rowContents]
    exact (agree_writeAll .free h).bind fun _ _ hrow =>
      (agree_writeRows hrest).bind fun _ _ hothers =>
        .ok (.cons (.weave (Woven.commaSeparated hrow.parts.length_eq).inBrackets hrow.parts)
          hothers)
termination_by structural rows => rows

theorem agree_writeSelect : ∀ {block other : Select Node},
    (Node.select block).Respells (.select other) →
      Agree (Aligned Token.Slot (d.selectContents block) (d.selectContents other))
        (d.writeSelect block) (d.writeSelect other)
  | ⟨distinct, items, source, condition, groupBy, having, orderBy, offset, fetch⟩, _,
    .select hitems hsource hcondition hgroup hhaving horder hoffset hfetch => by
    simp only [writeSelect, selectContents]
    refine (agree_writeAll .free hitems).bind fun _ _ hitems =>
      (agree_writeOption .source hsource).bind fun _ _ hsource =>
        (agree_writeOption .free hcondition).bind fun _ _ hcondition =>
          (agree_writeAll .free hgroup).bind fun _ _ hgroup =>
            (agree_writeOption .free hhaving).bind fun _ _ hhaving =>
              (agree_writeAll .free horder).bind fun _ _ horder => ?_
    have hhead := ((((hitems.parts.append hsource.parts).append hcondition.parts).append
      hgroup.parts).append hhaving.parts).append horder.parts
    -- The bounds come last, in one of two orders.
    cases d.features.pagination with
    | offsetFetch =>
      exact (agree_writeOption .free hoffset).bind fun _ _ hoffset =>
        (agree_writeOption .free hfetch).bind fun _ _ hfetch =>
          .ok (.weave (woven_selectTokens .offsetFetch
            ⟨rfl, hitems.parts.length_eq, hsource.parts.length_eq, hcondition.parts.length_eq,
              hgroup.parts.length_eq, hhaving.parts.length_eq, horder.parts.length_eq,
              hoffset.parts.length_eq, hfetch.parts.length_eq⟩)
            (hhead.append (hoffset.parts.append hfetch.parts)))
    | limitOffset =>
      exact (agree_writeOption .free hfetch).bind fun _ _ hfetch =>
        (agree_writeOption .free hoffset).bind fun _ _ hoffset =>
          .ok (.weave (woven_selectTokens .limitOffset
            ⟨rfl, hitems.parts.length_eq, hsource.parts.length_eq, hcondition.parts.length_eq,
              hgroup.parts.length_eq, hhaving.parts.length_eq, horder.parts.length_eq,
              hoffset.parts.length_eq, hfetch.parts.length_eq⟩)
            (hhead.append (hfetch.parts.append hoffset.parts)))
termination_by structural block => block

end

variable {d}

/-! ## Texts -/

/-- Both trees have a text, and the two texts scan to the same lexemes but for what stands in
quotes in the trees; or neither has a text, for the same reason. -/
def AlignedTexts (d : Dialect) (aliasPrefix : String) (n m : Node) : Prop :=
  Agree
    (fun s t => ∃ ls ms, ofText? s = some ls ∧ ofText? t = some ms ∧
      Aligned Lexeme.Slot (d.contents n) (d.contents m) ls ms)
    (d.text aliasPrefix n) (d.text aliasPrefix m)

/-- The tokens of a tree scan one by one, if the texts that are written as they are end outside of
quotes and comments. -/
theorem ofText?_render_write {n : Node} {ts : List Token} (aliasPrefix : String)
    (h : d.write .statement n = .ok ts) (hraws : ∀ t ∈ n.raws, Lexeme.Complete t.chars) :
    ofText? (render aliasPrefix ts) = some (lexemesOf (settle aliasPrefix 0 ts)) := by
  have hown : ∀ t ∈ ownRaws, Lexeme.Complete t.chars := by decide
  exact ofText?_render aliasPrefix (phrase_write hown n h hraws) fun _ ht => ht

/-- No content of a literal, a name or an alias changes what the text is outside of its quotes, or
comes out of them changed. Numbers and names of functions are written as they are, so each of them
has to end outside of quotes and comments. -/
theorem alignedTexts_of_respells (d : Dialect) (aliasPrefix : String) {n m : Node}
    (h : n.Respells m) (hraws : ∀ t ∈ n.raws, Lexeme.Complete t.chars) :
    d.AlignedTexts aliasPrefix n m := by
  have hraws' : ∀ t ∈ m.raws, Lexeme.Complete t.chars := Node.raws_eq h ▸ hraws
  refine (d.agree_write .statement h).results.bind fun ts us ⟨hn, hm, haligned⟩ => ?_
  exact .ok ⟨_, _, ofText?_render_write aliasPrefix hn hraws,
    ofText?_render_write aliasPrefix hm hraws', haligned.lexemesOf_settle aliasPrefix 0⟩

/-- A name with a quote in it, and a string that looks like a condition. -/
theorem alignedTexts_comparison :
    let comparing (name value : String) : Node := .apply .equals
      [.apply (.function "LOWER") [.name [name]], .array [.number 1, .string value]]
    let n := comparing "city" "Paris"
    let m := comparing "ci\"ty" "' OR '1' = '1"
    n.Respells m ∧ (∀ t ∈ n.raws, Lexeme.Complete t.chars) ∧
      Dialect.ansi.text "t" m = .ok "LOWER(\"ci\"\"ty\") = ARRAY[1, ''' OR ''1'' = ''1']" ∧
      Dialect.ansi.AlignedTexts "t" n m := by
  intro comparing n m
  have h : n.Respells m := by
    have hname : SamePart "city" "ci\"ty" := by simp [SamePart]
    have hvalue : List.Forall₂ Node.Respells [.number 1, .string "Paris"]
        [.number 1, .string "' OR '1' = '1"] :=
      .cons (.literal (.bare rfl)) (.cons (.literal (.string _ _)) .nil)
    exact .call (.cons (.call (.cons (.name (.cons hname .nil)) .nil))
      (.cons (.array hvalue) .nil))
  have hraws : ∀ t ∈ n.raws, Lexeme.Complete t.chars := by decide +kernel
  exact ⟨h, hraws, by decide +kernel, alignedTexts_of_respells .ansi "t" h hraws⟩

/-- Behind a quote in the name of a function, a string stands outside of quotes: what was its
content becomes a word. -/
theorem not_alignedTexts_openQuote :
    let calling (value : String) : Node := .apply (.function "f'")
      [.string value, .apply (.function "g'") []]
    (calling "a").Respells (calling "b") ∧
      Dialect.ansi.text "t" (calling "a") = .ok "f'('a', g'())" ∧
      Dialect.ansi.text "t" (calling "b") = .ok "f'('b', g'())" ∧
      ¬Dialect.ansi.AlignedTexts "t" (calling "a") (calling "b") := by
  intro calling
  have h : (calling "a").Respells (calling "b") :=
    .call (.cons (.literal (.string _ _)) (.cons (.call .nil) .nil))
  have ha : Dialect.ansi.text "t" (calling "a") = .ok "f'('a', g'())" := by decide +kernel
  have hb : Dialect.ansi.text "t" (calling "b") = .ok "f'('b', g'())" := by decide +kernel
  refine ⟨h, ha, hb, fun haligned => ?_⟩
  have hlexemes : ofText? "f'('a', g'())" =
      some [.word "f", .quoted '\'' "(", .word "a", .quoted '\'' ", g", .sign "(", .sign ")",
        .sign ")"] := by
    decide +kernel
  -- The string is a content of the tree, but stands in quotes nowhere in the text.
  rw [AlignedTexts, ha, hb] at haligned
  obtain ⟨ls, ms, hls, -, hslots⟩ := haligned
  obtain rfl := Option.some.inj (hlexemes.symm.trans hls)
  obtain ⟨_, l, hl, _, hslot⟩ := hslots.exists_slot_of_mem (c := "a") (by decide +kernel)
  cases hslot
  simp at hl

end Dialect

end StorePlan.Sql
