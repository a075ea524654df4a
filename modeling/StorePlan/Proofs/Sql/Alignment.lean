import StorePlan.Proofs.Sql.Rendering

/-
Two lists that are the same except for the contents of some slots. The old
and the new contents are kept in order, so that it is known what stands in
which slot.

Aligned tokens have aligned lexemes (`Aligned.lexemesOf_settle`).
-/

namespace StorePlan.Sql

/-- Lists that differ in the contents of slots only. The first list has the contents `cs` in its
slots, in this order, the second one `ds`. -/
inductive Aligned {α : Type} (Slot : String → String → α → α → Prop) :
    List String → List String → List α → List α → Prop where
  | nil : Aligned Slot [] [] [] []
  | same {cs ds : List String} {as bs : List α} (a : α) :
    Aligned Slot cs ds as bs → Aligned Slot cs ds (a :: as) (a :: bs)
  | slot {c d : String} {a b : α} {cs ds : List String} {as bs : List α} :
    Slot c d a b → Aligned Slot cs ds as bs → Aligned Slot (c :: cs) (d :: ds) (a :: as) (b :: bs)

/-- Tokens in quotes with an old and a new content. -/
inductive Token.Slot (c d : String) : Token → Token → Prop where
  | name : Slot c d (.name c) (.name d)
  | string : Slot c d (.string c) (.string d)

/-- Lexemes in quotes with an old and a new content. -/
inductive Lexeme.Slot (c d : String) : Lexeme → Lexeme → Prop where
  | quoted (quote : Char) : Slot c d (.quoted quote c) (.quoted quote d)

/-- Lists of aligned lists, each with its own contents. -/
inductive AllAligned {α : Type} (Slot : String → String → α → α → Prop) :
    List (List String) → List (List String) → List (List α) → List (List α) → Prop where
  | nil : AllAligned Slot [] [] [] []
  | cons {cs ds : List String} {as bs : List α} {css dss : List (List String)}
    {ass bss : List (List α)} :
    Aligned Slot cs ds as bs → AllAligned Slot css dss ass bss →
      AllAligned Slot (cs :: css) (ds :: dss) (as :: ass) (bs :: bss)

/-- Lists of aligned lists, with the contents of all of them one after the other. -/
inductive PartsAligned {α : Type} (Slot : String → String → α → α → Prop) :
    List String → List String → List (List α) → List (List α) → Prop where
  | nil : PartsAligned Slot [] [] [] []
  | cons {cs ds cs' ds' : List String} {as bs : List α} {ass bss : List (List α)} :
    Aligned Slot cs ds as bs → PartsAligned Slot cs' ds' ass bss →
      PartsAligned Slot (cs ++ cs') (ds ++ ds') (as :: ass) (bs :: bss)

/-- Aligned lists, or none on either side. -/
inductive OptionAligned {α : Type} (Slot : String → String → α → α → Prop) :
    List String → List String → Option (List α) → Option (List α) → Prop where
  | none : OptionAligned Slot [] [] none none
  | some {cs ds : List String} {as bs : List α} :
    Aligned Slot cs ds as bs → OptionAligned Slot cs ds (some as) (some bs)

namespace Aligned

section Lists

variable {α : Type} {Slot : String → String → α → α → Prop} {cs ds cs' ds' : List String}
  {as bs as' bs' : List α}

theorem refl : ∀ as : List α, Aligned Slot [] [] as as
  | [] => .nil
  | a :: as => .same a (refl as)

theorem append (h : Aligned Slot cs ds as bs) (h' : Aligned Slot cs' ds' as' bs') :
    Aligned Slot (cs ++ cs') (ds ++ ds') (as ++ as') (bs ++ bs') := by
  induction h with
  | nil => exact h'
  | same a _ ih => exact .same a ih
  | slot hslot _ ih => exact .slot hslot ih

/-- The same behind both lists. -/
theorem behind (last : List α) (h : Aligned Slot cs ds as bs) :
    Aligned Slot cs ds (as ++ last) (bs ++ last) := by
  simpa using h.append (refl last)

/-- The same in front of both lists. -/
theorem after (first : List α) (h : Aligned Slot cs ds as bs) :
    Aligned Slot cs ds (first ++ as) (first ++ bs) := (refl first).append h

/-- The old contents stand in slots of the first list. -/
theorem exists_slot_of_mem {c : String} (h : Aligned Slot cs ds as bs) (hc : c ∈ cs) :
    ∃ d, ∃ a ∈ as, ∃ b, Slot c d a b := by
  induction h with
  | nil => cases hc
  | same a _ ih =>
    obtain ⟨d, a, ha, hslot⟩ := ih hc
    exact ⟨d, a, List.mem_cons_of_mem _ ha, hslot⟩
  | @slot c₀ d₀ a₀ b₀ _ _ _ _ hslot _ ih =>
    rcases List.mem_cons.1 hc with rfl | hc
    · exact ⟨d₀, a₀, List.mem_cons_self, b₀, hslot⟩
    · obtain ⟨d, a, ha, hslot⟩ := ih hc
      exact ⟨d, a, List.mem_cons_of_mem _ ha, hslot⟩

end Lists

/-! ## Tokens -/

section Tokens

variable {cs ds cs' ds' : List String} {css dss : List (List String)} {ts us ts' us' : List Token}
  {tss uss : List (List Token)}

theorem startsWithMinus_eq (h : Aligned Token.Slot cs ds ts us) :
    startsWithMinus us = startsWithMinus ts := by
  induction h with
  | nil => rfl
  | same t _ ih => cases t <;> simp [startsWithMinus, ih]
  | slot hslot _ _ => cases hslot <;> rfl

/-- A token in quotes is no made-up name, and scans to one lexeme in quotes. -/
theorem aligned_lexemes {c d : String} {t u : Token} (h : Token.Slot c d t u) :
    t ≠ .madeUpName ∧ u ≠ .madeUpName ∧ Aligned Lexeme.Slot [c] [d] t.lexemes u.lexemes := by
  cases h with
  | name =>
    rw [Token.lexemes_name, Token.lexemes_name]
    exact ⟨nofun, nofun, .slot (.quoted _) .nil⟩
  | string =>
    rw [Token.lexemes_string, Token.lexemes_string]
    exact ⟨nofun, nofun, .slot (.quoted _) .nil⟩

/-- Aligned tokens scan to aligned lexemes; made-up names have the same numbers. -/
theorem lexemesOf_settle (aliasPrefix : String) (number : Nat)
    (h : Aligned Token.Slot cs ds ts us) :
    Aligned Lexeme.Slot cs ds (lexemesOf (settle aliasPrefix number ts))
      (lexemesOf (settle aliasPrefix number us)) := by
  induction h generalizing number with
  | nil => exact .nil
  | same t _ ih =>
    by_cases hmade : t = .madeUpName
    · subst hmade
      exact (ih _).after _
    · rw [settle_cons hmade, settle_cons hmade]
      exact (ih _).after _
  | slot hslot _ ih =>
    obtain ⟨ht, hu, hlexemes⟩ := aligned_lexemes hslot
    rw [settle_cons ht, settle_cons hu, lexemesOf_cons, lexemesOf_cons]
    exact hlexemes.append (ih number)

theorem inBrackets (h : Aligned Token.Slot cs ds ts us) :
    Aligned Token.Slot cs ds (bracketed ts) (bracketed us) := (Aligned.same _ h).behind _

end Tokens

end Aligned

/-! ## Parts -/

namespace PartsAligned

section

variable {α : Type} {Slot : String → String → α → α → Prop} {cs ds cs' ds' : List String}
  {as bs : List α} {ass bss ass' bss' : List (List α)}

theorem one (h : Aligned Slot cs ds as bs) : PartsAligned Slot cs ds [as] [bs] := by
  simpa using PartsAligned.cons h .nil

theorem append (h : PartsAligned Slot cs ds ass bss) (h' : PartsAligned Slot cs' ds' ass' bss') :
    PartsAligned Slot (cs ++ cs') (ds ++ ds') (ass ++ ass') (bss ++ bss') := by
  induction h with
  | nil => exact h'
  | cons h _ ih => simpa using PartsAligned.cons h ih

theorem length_eq (h : PartsAligned Slot cs ds ass bss) : ass.length = bss.length := by
  induction h with
  | nil => rfl
  | cons _ _ ih => simp [ih]

end

/-- No content begins with a sign. -/
theorem startsWithMinus_eq {cs ds : List String} {tss uss : List (List Token)}
    (h : PartsAligned Token.Slot cs ds tss uss) :
    List.Forall₂ (fun ts us => startsWithMinus us = startsWithMinus ts) tss uss := by
  induction h with
  | nil => exact .nil
  | cons h _ ih => exact .cons h.startsWithMinus_eq ih

end PartsAligned

theorem OptionAligned.parts {α : Type} {Slot : String → String → α → α → Prop}
    {cs ds : List String} {o o' : Option (List α)} (h : OptionAligned Slot cs ds o o') :
    PartsAligned Slot cs ds o.toList o'.toList := by
  cases h with
  | none => exact .nil
  | some h => exact .one h

namespace AllAligned

variable {α : Type} {Slot : String → String → α → α → Prop} {css dss : List (List String)}
  {ass bss : List (List α)}

theorem parts (h : AllAligned Slot css dss ass bss) :
    PartsAligned Slot css.flatten dss.flatten ass bss := by
  induction h with
  | nil => exact .nil
  | cons h _ ih => exact .cons h ih

theorem length_eq (h : AllAligned Slot css dss ass bss) : ass.length = css.length := by
  induction h with
  | nil => rfl
  | cons _ _ ih => simp [ih]

theorem headD (h : AllAligned Slot css dss ass bss) :
    Aligned Slot (css.headD []) (dss.headD []) (ass.headD []) (bss.headD []) := by
  cases h with
  | nil => exact .nil
  | cons h _ => exact h

end AllAligned

end StorePlan.Sql
