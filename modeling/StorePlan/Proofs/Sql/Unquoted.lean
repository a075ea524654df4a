import Mathlib.Data.List.Chain
import StorePlan.Proofs.Sql.Rendering

/-
The characters of SQL text outside of its quoted tokens. Two of them start a
comment where they stand side by side, so a text without comments is one whose
neighbours are apart, and texts are put together at places where they are.
-/

namespace StorePlan.Sql

open Text

/-! ## Outside of quotes -/

/-- The quote that is open behind a character. A quote that is doubled closes and opens. -/
def quoteBehind (quote : Option Char) (c : Char) : Option Char :=
  match quote with
  | none => if c = nameQuote ∨ c = stringQuote then some c else none
  | some q => if c = q then none else some q

/-- The characters outside of quotes, and the quotes themselves. -/
def unquotedFrom : Option Char → List Char → List Char
  | _, [] => []
  | none, c :: cs => c :: unquotedFrom (quoteBehind none c) cs
  | some q, c :: cs => (if c = q then [c] else []) ++ unquotedFrom (quoteBehind (some q) c) cs

/-- What stands outside of the quoted tokens of a text. -/
def unquoted (cs : List Char) : List Char := unquotedFrom none cs

theorem unquotedFrom_append (quote : Option Char) (as bs : List Char) :
    unquotedFrom quote (as ++ bs) =
      unquotedFrom quote as ++ unquotedFrom (as.foldl quoteBehind quote) bs := by
  induction as generalizing quote with
  | nil => cases quote <;> cases bs <;> simp [unquotedFrom]
  | cons c as ih => cases quote <;> simp [unquotedFrom, ih]

theorem head?_unquoted (cs : List Char) : (unquoted cs).head? = cs.head? := by
  cases cs <;> rfl

theorem mem_of_mem_unquotedFrom {quote : Option Char} {cs : List Char} {c : Char}
    (h : c ∈ unquotedFrom quote cs) : c ∈ cs := by
  induction cs generalizing quote with
  | nil => cases quote <;> exact h
  | cons d cs ih =>
    cases quote with
    | none =>
      rw [unquotedFrom, List.mem_cons] at h
      exact List.mem_cons.2 (h.imp_right ih)
    | some q =>
      rw [unquotedFrom, List.mem_append] at h
      refine List.mem_cons.2 (h.imp (fun hd => ?_) ih)
      split_ifs at hd
      · exact List.mem_singleton.1 hd
      · cases hd

theorem mem_of_mem_unquoted {cs : List Char} {c : Char} (h : c ∈ unquoted cs) : c ∈ cs :=
  mem_of_mem_unquotedFrom h

/-- A text without quotes stands outside of them as it is. -/
theorem unquoted_eq_self {cs : List Char} (h : ∀ c ∈ cs, quoteBehind none c = none) :
    cs.foldl quoteBehind none = none ∧ unquoted cs = cs := by
  induction cs with
  | nil => exact ⟨rfl, rfl⟩
  | cons c cs ih =>
    rw [List.forall_mem_cons] at h
    obtain ⟨hopen, hcs⟩ := ih h.2
    refine ⟨by rw [List.foldl_cons, h.1, hopen], ?_⟩
    rw [unquoted, unquotedFrom, h.1]
    exact congrArg (c :: ·) hcs

/-- Of a text in quotes only the quotes are left over. -/
theorem unquotedFrom_doubleQuotes {q : Char} (hq : quoteBehind none q = some q) (cs : List Char) :
    (doubleQuotes q cs ++ [q]).foldl quoteBehind (some q) = none ∧
      ∀ c ∈ unquotedFrom (some q) (doubleQuotes q cs ++ [q]), c = q := by
  have hclose : quoteBehind (some q) q = none := if_pos rfl
  induction cs with
  | nil => simp [doubleQuotes, unquotedFrom, hclose]
  | cons c cs ih =>
    rw [doubleQuotes]
    split_ifs with hc
    · subst hc
      simpa [unquotedFrom, hclose, hq] using ih
    · have hstay : quoteBehind (some q) c = some q := if_neg hc
      simpa [unquotedFrom, hstay, hc] using ih

/-! ## Without comments -/

/-- Characters that start no comment side by side. -/
def StandApart (c d : Char) : Prop := ¬(c = '-' ∧ d = '-') ∧ ¬(c = '/' ∧ d = '*')

instance : DecidableRel StandApart := fun _ _ => inferInstanceAs (Decidable (_ ∧ _))

/-- A text that ends outside of quotes, and has no comment outside of them. -/
structure Calm (cs : List Char) : Prop where
  closed : cs.foldl quoteBehind none = none
  apart : (unquoted cs).IsChain StandApart

instance (cs : List Char) : Decidable (Calm cs) :=
  decidable_of_iff (cs.foldl quoteBehind none = none ∧ (unquoted cs).IsChain StandApart)
    ⟨fun h => ⟨h.1, h.2⟩, fun h => ⟨h.closed, h.apart⟩⟩

namespace Calm

variable {as bs cs : List Char}

theorem nil : Calm [] := ⟨rfl, .nil⟩

theorem append (ha : Calm as) (hb : Calm bs)
    (h : ∀ c ∈ (unquoted as).getLast?, ∀ d ∈ bs.head?, StandApart c d) : Calm (as ++ bs) := by
  refine ⟨by rw [List.foldl_append, ha.closed, hb.closed], ?_⟩
  rw [unquoted, unquotedFrom_append, ha.closed]
  exact ha.apart.append hb.apart fun c hc d hd => h c hc d (head?_unquoted bs ▸ hd)

/-- Neither of the two comments starts outside of quotes. -/
theorem no_comment (h : Calm cs) :
    ¬"--".toList <:+: unquoted cs ∧ ¬"/*".toList <:+: unquoted cs := by
  have hapart {c d : Char} (hpair : [c, d] <:+: unquoted cs) : StandApart c d := by
    have hchain := List.IsChain.infix h.apart hpair
    exact List.isChain_pair.1 hchain
  exact ⟨fun hpair => (hapart hpair).1 ⟨rfl, rfl⟩, fun hpair => (hapart hpair).2 ⟨rfl, rfl⟩⟩

theorem of_isChain (hquote : ∀ c ∈ cs, quoteBehind none c = none)
    (h : cs.IsChain StandApart) : Calm cs := by
  obtain ⟨hclosed, heq⟩ := unquoted_eq_self hquote
  exact ⟨hclosed, heq.symm ▸ h⟩

/-- Without the characters that a comment starts with, there is none. -/
theorem of_forall (h : ∀ c ∈ cs, c ∉ "'\"-/".toList) : Calm cs := by
  have hchar {c : Char} (hc : c ∈ cs) : c ≠ '\'' ∧ c ≠ '"' ∧ c ≠ '-' ∧ c ≠ '/' := by
    simpa using h c hc
  refine of_isChain (fun c hc => ?_) ?_
  · obtain ⟨hsingle, hdouble, -⟩ := hchar hc
    exact if_neg (by simp [nameQuote, stringQuote, hsingle, hdouble])
  · refine List.Pairwise.isChain (List.pairwise_iff_forall_sublist.2 fun {c d} hsub => ?_)
    obtain ⟨-, -, hminus, hslash⟩ := hchar (hsub.subset List.mem_cons_self)
    exact ⟨fun h => hminus h.1, fun h => hslash h.1⟩

theorem enclosed {quote : Char} (hquote : quote = nameQuote ∨ quote = stringQuote) (s : String) :
    Calm (enclosed quote s).toList := by
  have hopen : quoteBehind none quote = some quote := if_pos hquote
  obtain ⟨hclosed, hquotes⟩ := unquotedFrom_doubleQuotes hopen s.toList
  have hself : StandApart quote quote := by
    rcases hquote with rfl | rfl <;> decide
  rw [Sql.enclosed, String.toList_ofList, List.cons_append]
  refine ⟨by rw [List.foldl_cons, hopen, hclosed], ?_⟩
  rw [unquoted, unquotedFrom, hopen]
  refine List.Pairwise.isChain (List.pairwise_iff_forall_sublist.2 fun {c d} hsub => ?_)
  have heq {x : Char} (hx : x ∈ [c, d]) : x = quote := by
    rcases List.mem_cons.1 (hsub.subset hx) with rfl | hx
    · rfl
    · exact hquotes x hx
  rw [heq List.mem_cons_self, heq (List.mem_cons_of_mem c List.mem_cons_self)]
  exact hself

end Calm

/-! ## Phrases -/

section Phrases

variable {raw : Token → Prop} {words : List String} {t : Token} {ts us : List Token}

theorem calm_name (n : String) : Calm (Token.name n).chars := .enclosed (.inl rfl) n

theorem calm_string (s : String) : Calm (Token.string s).chars := .enclosed (.inr rfl) s

/-- A divider starts no comment with what stands on either side of it. -/
theorem Calm.divided (ht : Calm (spelling ts)) (hu : Calm (spelling us)) {d : Char}
    (hd : d ∈ " ,()[].".toList) (htoken : t.chars = [d]) : Calm (spelling (ts ++ t :: us)) := by
  have hdivider : d ≠ '-' ∧ d ≠ '/' ∧ d ≠ '*' ∧ Calm [d] ∧ unquoted [d] = [d] := by
    simp only [String.toList] at hd
    fin_cases hd <;> decide
  obtain ⟨hminus, hslash, hstar, hcalm, hself⟩ := hdivider
  rw [spelling_append, spelling_cons, htoken]
  refine ht.append (hcalm.append hu fun c hc e _ => ?_) fun c _ e he => ?_
  · rw [hself] at hc
    cases hc
    exact ⟨fun h => hminus h.1, fun h => hslash h.1⟩
  · cases he
    exact ⟨fun h => hminus h.2, fun h => hstar h.2⟩

theorem calm_nameTokens : ∀ {parts : List String},
    (∀ t ∈ Dialect.nameTokens parts, Calm t.chars) → Calm (spelling (Dialect.nameTokens parts))
  | [], _ => .nil
  | [part], h => by simpa [Dialect.nameTokens] using h
  | part :: next :: rest, h => by
    have hcons : Dialect.nameTokens (part :: next :: rest) =
        [Dialect.namePart part] ++ .word "." :: Dialect.nameTokens (next :: rest) := rfl
    rw [hcons, List.forall_mem_append, List.forall_mem_cons, List.forall_mem_cons] at h
    rw [hcons]
    have hpart : Calm (spelling [Dialect.namePart part]) := by simpa using h.1.1
    exact hpart.divided (calm_nameTokens h.2.2) (d := '.') (by decide) rfl

/-- A phrase of tokens without comments is without comments. -/
theorem Phrase.calm (h : Phrase raw words ts) (hts : ∀ t ∈ ts, Calm t.chars) :
    Calm (spelling ts) := by
  induction h with
  | nil => exact .nil
  | leaf _ => simpa using hts
  | name parts => exact calm_nameTokens hts
  | gap _ _ iht ihu =>
    rw [List.forall_mem_append, List.forall_mem_cons] at hts
    exact (iht hts.1).divided (ihu hts.2.2) (d := ' ') (by decide) rfl
  | comma _ _ iht ihu =>
    rw [List.forall_mem_append, List.forall_mem_cons] at hts
    exact (iht hts.1).divided (ihu hts.2.2) (d := ',') (by decide) rfl
  | bracketed _ _ iht ihu =>
    rw [Sql.bracketed, List.forall_mem_append, List.cons_append, List.forall_mem_cons,
      List.forall_mem_append] at hts
    have hclosing : Calm (spelling []) := .nil
    have hinner := (ihu hts.2.2.1).divided hclosing (d := ')') (t := .word ")") (by decide) rfl
    exact (iht hts.1).divided hinner (d := '(') (by decide) rfl
  | listed _ _ iht ihu =>
    rw [List.append_assoc, List.forall_mem_append, List.cons_append, List.forall_mem_cons,
      List.forall_mem_append] at hts
    have hclosing : Calm (spelling []) := .nil
    have hinner := (ihu hts.2.2.1).divided hclosing (d := ']') (t := .word "]") (by decide) rfl
    rw [List.append_assoc]
    exact (iht hts.1).divided hinner (d := '[') (by decide) rfl
  | minus hminus _ ih =>
    rw [List.forall_mem_cons] at hts
    have hsign : Calm ['-'] := by decide
    refine hsign.append (ih hts.2) fun c hc d hd => ?_
    cases hc
    exact ⟨fun h => head?_spelling_of_startsWithMinus hminus d hd h.2, fun h => by cases h.1⟩

end Phrases

end StorePlan.Sql
