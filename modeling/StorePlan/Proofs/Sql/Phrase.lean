import StorePlan.Proofs.Sql.Scanning
import StorePlan.Sql.Writing

/-
Phrases: lists of tokens built so that the texts of neighbours never run into
each other and brackets are balanced. Whatever is written is a phrase, and a
phrase scans token by token (`Phrase.scans`).

A phrase also has words that do not occur in it outside of brackets; a reader
that looks for one of those words passes over the phrase.
-/

namespace StorePlan.Sql

open Lexeme

/-! ## Brackets -/

def inBrackets (ls : List Lexeme) : List Lexeme := .sign "(" :: ls ++ [.sign ")"]

namespace Lexeme

def isOpening (l : Lexeme) : Bool := l == .sign "(" || l == .sign "["

def isClosing (l : Lexeme) : Bool := l == .sign ")" || l == .sign "]"

def isOneOf (words : List String) : Lexeme → Bool
  | word w => words.contains w
  | _ => false

/-- How many brackets are open behind lexemes, if so many are in front of them, unless a bracket
closes that was not open or one of the words stands outside of all brackets. -/
def depthBehind? (words : List String) : Nat → List Lexeme → Option Nat
  | depth, [] => some depth
  | depth, l :: ls =>
    if l.isOpening then depthBehind? words (depth + 1) ls
    else if l.isClosing then
      match depth with
      | 0 => none
      | depth + 1 => depthBehind? words depth ls
    else if depth = 0 ∧ l.isOneOf words then none
    else depthBehind? words depth ls

/-- Brackets are balanced, and none of the words stands outside of them. -/
def Level (words : List String) (ls : List Lexeme) : Prop := depthBehind? words 0 ls = some 0

instance (words : List String) (ls : List Lexeme) : Decidable (Level words ls) :=
  inferInstanceAs (Decidable (_ = _))

theorem depthBehind?_cons (words : List String) (depth : Nat) (l : Lexeme) (ls : List Lexeme) :
    depthBehind? words depth (l :: ls) =
      if l.isOpening then depthBehind? words (depth + 1) ls
      else if l.isClosing then
        match depth with
        | 0 => none
        | depth + 1 => depthBehind? words depth ls
      else if depth = 0 ∧ l.isOneOf words then none
      else depthBehind? words depth ls := rfl

theorem depthBehind?_append (words : List String) (depth : Nat) (ls ms : List Lexeme) :
    depthBehind? words depth (ls ++ ms) =
      (depthBehind? words depth ls).bind fun depth => depthBehind? words depth ms := by
  induction ls generalizing depth with
  | nil => rfl
  | cons l ls ih =>
    simp only [List.cons_append, depthBehind?_cons]
    split_ifs
    · exact ih _
    · cases depth with
      | zero => rfl
      | succ depth => exact ih depth
    · rfl
    · exact ih _

theorem isOneOf_mono {words more : List String} (hsub : words ⊆ more) {l : Lexeme}
    (h : l.isOneOf words = true) : l.isOneOf more = true := by
  cases l with
  | word w => exact List.contains_iff_mem.2 (hsub (List.contains_iff_mem.1 h))
  | _ => cases h

/-- Lexemes stay balanced inside of more brackets. Fewer words may be left out of account, or any
words where there is a bracket around all. -/
theorem depthBehind?_add {words more : List String} {depth behind k : Nat} {ls : List Lexeme}
    (hwords : k = 0 → words ⊆ more) (h : depthBehind? more depth ls = some behind) :
    depthBehind? words (depth + k) ls = some (behind + k) := by
  induction ls generalizing depth with
  | nil => simpa [depthBehind?] using h
  | cons l ls ih =>
    rw [depthBehind?_cons] at h ⊢
    by_cases hopen : l.isOpening = true
    · rw [if_pos hopen] at h ⊢
      rw [Nat.add_right_comm]
      exact ih h
    rw [if_neg hopen] at h ⊢
    by_cases hclose : l.isClosing = true
    · rw [if_pos hclose] at h ⊢
      cases depth with
      | zero => cases h
      | succ depth =>
        rw [Nat.add_right_comm]
        exact ih h
    · rw [if_neg hclose] at h ⊢
      split_ifs at h with hmore
      have hfree : ¬(depth + k = 0 ∧ l.isOneOf words = true) := by
        rintro ⟨hzero, hword⟩
        obtain ⟨rfl, rfl⟩ := Nat.add_eq_zero_iff.1 hzero
        exact hmore ⟨rfl, isOneOf_mono (hwords rfl) hword⟩
      rw [if_neg hfree]
      exact ih h

theorem Level.nil (words : List String) : Level words [] := rfl

theorem Level.append {words : List String} {ls ms : List Lexeme} (hl : Level words ls)
    (hm : Level words ms) : Level words (ls ++ ms) := by
  rw [Level, depthBehind?_append, hl]
  exact hm

theorem Level.single {words : List String} {l : Lexeme} (ho : l.isOpening = false)
    (hc : l.isClosing = false) (hw : l.isOneOf words = false) : Level words [l] := by
  simp [Level, depthBehind?, ho, hc, hw]

theorem Level.bracketed (words : List String) {less : List String} {ls : List Lexeme}
    {o c : Lexeme} (h : Level less ls) (ho : o.isOpening = true) (hc : c.isClosing = true) :
    Level words (o :: ls ++ [c]) := by
  have hno : c.isOpening = false := by
    simp only [isClosing, isOpening, Bool.or_eq_true, beq_iff_eq] at hc ⊢
    rcases hc with rfl | rfl <;> decide
  have hinner : depthBehind? words 1 ls = some 1 := depthBehind?_add (k := 1) nofun h
  rw [Level, List.cons_append, depthBehind?_cons, if_pos ho, depthBehind?_append, hinner]
  simp [depthBehind?, hno, hc]

theorem Level.mono {words more : List String} {ls : List Lexeme} (h : Level more ls)
    (hsub : words ⊆ more) : Level words ls :=
  depthBehind?_add (k := 0) (fun _ => hsub) h

end Lexeme

/-! ## Tokens -/

namespace Token

/-- The characters of a token that is no made-up name. -/
def chars (t : Token) : List Char := (t.text "" 0).toList

def lexemes (t : Token) : List Lexeme := ofChars t.chars

/-- A keyword scans by itself and is none of the words; a number or the name of a function, of
which the text is written as it is, is one of the raw tokens. -/
def Fits (raw : Token → Prop) (words : List String) (t : Token) : Prop :=
  match t with
  | word w => Complete w.toList ∧ Level words (ofChars w.toList)
  | number _ | function _ => raw t
  | _ => True

end Token

namespace Token

@[simp] theorem lexemes_blank : lexemes blank = [] := rfl

@[simp] theorem lexemes_parameter (i : Nat) : (parameter i).lexemes = [.sign "?"] :=
  show ofChars "?".toList = _ from rfl

@[simp] theorem lexemes_name (n : String) : (name n).lexemes = [.quoted nameQuote n] :=
  (ofChars_enclosed (.inl rfl) n).2

@[simp] theorem lexemes_string (s : String) : (string s).lexemes = [.quoted stringQuote s] :=
  (ofChars_enclosed (.inr rfl) s).2

@[simp] theorem lexemes_madeUpName :
    madeUpName.lexemes = [.quoted nameQuote ("" ++ Text.natText 0)] :=
  (ofChars_enclosed (.inl rfl) _).2

@[simp] theorem lexemes_comma : (word ",").lexemes = [.sign ","] := rfl

@[simp] theorem lexemes_point : (word ".").lexemes = [.sign "."] := rfl

@[simp] theorem lexemes_star : (word "*").lexemes = [.sign "*"] := rfl

@[simp] theorem lexemes_minus : (word "-").lexemes = [.sign "-"] := rfl

@[simp] theorem lexemes_opening : (word "(").lexemes = [.sign "("] := rfl

@[simp] theorem lexemes_closing : (word ")").lexemes = [.sign ")"] := rfl

@[simp] theorem lexemes_openingSquare : (word "[").lexemes = [.sign "["] := rfl

@[simp] theorem lexemes_closingSquare : (word "]").lexemes = [.sign "]"] := rfl

end Token

/-- The characters of tokens. -/
def spelling (tokens : List Token) : List Char := tokens.flatMap Token.chars

def lexemesOf (tokens : List Token) : List Lexeme := tokens.flatMap Token.lexemes

@[simp] theorem spelling_append (ts us : List Token) :
    spelling (ts ++ us) = spelling ts ++ spelling us := List.flatMap_append

@[simp] theorem lexemesOf_append (ts us : List Token) :
    lexemesOf (ts ++ us) = lexemesOf ts ++ lexemesOf us := List.flatMap_append

@[simp] theorem spelling_cons (t : Token) (ts : List Token) :
    spelling (t :: ts) = t.chars ++ spelling ts := rfl

@[simp] theorem lexemesOf_cons (t : Token) (ts : List Token) :
    lexemesOf (t :: ts) = t.lexemes ++ lexemesOf ts := rfl

@[simp] theorem spelling_nil : spelling [] = [] := rfl

@[simp] theorem lexemesOf_nil : lexemesOf [] = [] := rfl

@[simp] theorem lexemesOf_bracketed (ts : List Token) :
    lexemesOf (bracketed ts) = .sign "(" :: lexemesOf ts ++ [.sign ")"] := by
  simp [bracketed]

theorem head?_spelling_of_startsWithMinus {ts : List Token} (h : startsWithMinus ts = false) :
    ∀ c ∈ (spelling ts).head?, c ≠ '-' := by
  induction ts with
  | nil => simp
  | cons t rest ih =>
    have quoted (quote : Char) (hq : quote ≠ '-') (s : String) :
        ∀ c ∈ ((enclosed quote s).toList ++ spelling rest).head?, c ≠ '-' := by
      simpa [enclosed] using hq
    have raw (s : String)
        (h : (if s = "" then startsWithMinus rest else s.toList.head? == some '-') = false) :
        ∀ c ∈ (s.toList ++ spelling rest).head?, c ≠ '-' := by
      split_ifs at h with hs
      · subst hs
        exact ih h
      · intro c hc
        cases hlist : s.toList with
        | nil => exact absurd (String.toList_eq_nil_iff.1 hlist) hs
        | cons d ds =>
          rw [hlist] at h hc
          cases hc
          rintro rfl
          cases h
    cases t with
    | word s | number s | function s => exact raw s h
    | blank => simp [Token.chars, Token.text]
    | parameter => simp [Token.chars, Token.text]
    | name n => exact quoted nameQuote (by decide) n
    | madeUpName => exact quoted nameQuote (by decide) _
    | string s => exact quoted stringQuote (by decide) s

/-! ## Phrases -/

/-- Tokens put together so that neighbours stay apart; none of the words stands outside of
brackets. -/
inductive Phrase (raw : Token → Prop) : List String → List Token → Prop where
  | nil {words : List String} : Phrase raw words []
  | leaf {words : List String} {t : Token} : t.Fits raw words → Phrase raw words [t]
  | name {words : List String} (parts : List String) :
    Phrase raw words (Dialect.nameTokens parts)
  | gap {words : List String} {ts us : List Token} :
    Phrase raw words ts → Phrase raw words us → Phrase raw words (ts ++ .blank :: us)
  | comma {words : List String} {ts us : List Token} :
    Phrase raw words ts → Phrase raw words us → Phrase raw words (ts ++ .word "," :: us)
  | bracketed {words : List String} {ts us : List Token} :
    Phrase raw words ts → Phrase raw [] us → Phrase raw words (ts ++ bracketed us)
  | listed {words : List String} {ts us : List Token} :
    Phrase raw words ts → Phrase raw [] us →
      Phrase raw words (ts ++ .word "[" :: us ++ [.word "]"])
  | minus {words : List String} {ts : List Token} :
    startsWithMinus ts = false → Phrase raw words ts → Phrase raw words (.word "-" :: ts)

/-- Tokens scan one by one. -/
structure Scans (ts : List Token) : Prop where
  complete : Complete (spelling ts)
  lexemes : ofChars (spelling ts) = lexemesOf ts

namespace Scans

variable {t : Token} {ts us : List Token}

theorem nil : Scans [] := ⟨rfl, rfl⟩

theorem leaf (h : Complete t.chars) : Scans [t] := by
  constructor <;> simp [h, Token.lexemes]

theorem append (ht : Scans ts) (hu : Scans us) (h : StartsApart (spelling us)) :
    Scans (ts ++ us) := by
  obtain ⟨hcomplete, hlexemes⟩ := ht.complete.append hu.complete h
  constructor
  · rwa [spelling_append]
  · rw [spelling_append, hlexemes, ht.lexemes, hu.lexemes, lexemesOf_append]

theorem append_of_ended (ht : Scans ts) (hu : Scans us) (h : Ended (spelling ts)) :
    Scans (ts ++ us) := by
  obtain ⟨hcomplete, hlexemes⟩ := h.append hu.complete
  constructor
  · rwa [spelling_append]
  · rw [spelling_append, hlexemes, ht.lexemes, hu.lexemes, lexemesOf_append]

/-- The tokens that keep neighbours apart. -/
def dividers : List Token :=
  [.blank, .word ",", .word "(", .word ")", .word "[", .word "]"]

theorem apart_of_mem_dividers (h : t ∈ dividers) :
    Ended t.chars ∧ t.chars ≠ [] ∧ StartsApart t.chars := by
  simp only [dividers, List.mem_cons, List.not_mem_nil, or_false] at h
  rcases h with rfl | rfl | rfl | rfl | rfl | rfl <;>
    exact ⟨rfl, by decide, fun c hc => by cases hc; decide⟩

/-- A divider between tokens on either side. -/
theorem divided (ht : Scans ts) (hu : Scans us) (h : t ∈ dividers) : Scans (ts ++ t :: us) := by
  obtain ⟨hended, hne, hapart⟩ := apart_of_mem_dividers h
  have hrest : Scans ([t] ++ us) :=
    (leaf hended.complete).append_of_ended hu (by simpa using hended)
  refine ht.append hrest fun c hc => hapart c ?_
  cases hchars : t.chars with
  | nil => exact absurd hchars hne
  | cons d ds => simpa [hchars] using hc

theorem namePart (part : String) : Scans [Dialect.namePart part] := by
  refine leaf ?_
  unfold Dialect.namePart
  split_ifs
  · rfl
  · exact (ofChars_enclosed (.inl rfl) part).1

/-- A point behind a part of a name is a lexeme of its own. -/
theorem namePart_point (part : String) :
    Scans [Dialect.namePart part, .word "."] ∧
      Ended (spelling [Dialect.namePart part, .word "."]) := by
  unfold Dialect.namePart
  split_ifs
  · exact ⟨⟨rfl, rfl⟩, rfl⟩
  · have hrun : run .between (spelling [.name part, .word "."]) =
        ([.quoted nameQuote part, .sign "."], .between) := by
      have hpoint (read : List Char) : run (.quoteSeen nameQuote origin read) ['.'] =
          ([.quoted nameQuote (String.ofList read.reverse), .sign "."], .between) := rfl
      rw [spelling_cons, run_append, Token.chars, Token.text, quotedName, run_enclosed (.inl rfl)]
      simp [Token.chars, Token.text, hpoint]
    refine ⟨⟨?_, ?_⟩, ?_⟩
    · rw [Complete, hrun]
      rfl
    · rw [ofChars, hrun]
      simp [Mode.pending]
    · rw [Ended, hrun]

theorem name : ∀ parts : List String, Scans (Dialect.nameTokens parts)
  | [] => nil
  | [part] => namePart part
  | part :: next :: rest => by
    obtain ⟨hscans, hended⟩ := namePart_point part
    exact hscans.append_of_ended (name (next :: rest)) hended

theorem minus (hu : Scans us) (h : startsWithMinus us = false) : Scans (.word "-" :: us) := by
  obtain ⟨hcomplete, hlexemes⟩ := ofChars_minus hu.complete (head?_spelling_of_startsWithMinus h)
  refine ⟨hcomplete, hlexemes.trans ?_⟩
  rw [hu.lexemes]
  rfl

end Scans

section Phrases

variable {raw : Token → Prop} {words : List String} {ts : List Token}

theorem Token.complete_of_fits {t : Token} (h : t.Fits raw words)
    (hraw : ∀ t, raw t → Complete t.chars) : Complete t.chars := by
  cases t with
  | word w => exact h.1
  | number s => exact hraw _ h
  | function f => exact hraw _ h
  | blank => exact rfl
  | parameter i => exact (rfl : Complete "?".toList)
  | name n => exact (ofChars_enclosed (.inl rfl) n).1
  | madeUpName => exact (ofChars_enclosed (.inl rfl) _).1
  | string s => exact (ofChars_enclosed (.inr rfl) s).1

/-- A phrase scans token by token, if the texts that are written as they are do. -/
theorem Phrase.scans (h : Phrase raw words ts) (hraw : ∀ t, raw t → Complete t.chars) :
    Scans ts := by
  induction h with
  | nil => exact .nil
  | leaf ht => exact .leaf (Token.complete_of_fits ht hraw)
  | name parts => exact .name parts
  | gap _ _ iht ihu => exact iht.divided ihu (by simp [Scans.dividers])
  | comma _ _ iht ihu => exact iht.divided ihu (by simp [Scans.dividers])
  | bracketed _ _ iht ihu =>
    have hinner := ihu.divided .nil (t := .word ")") (by simp [Scans.dividers])
    simpa [Sql.bracketed] using iht.divided hinner (t := .word "(") (by simp [Scans.dividers])
  | listed _ _ iht ihu =>
    have hinner := ihu.divided .nil (t := .word "]") (by simp [Scans.dividers])
    simpa using iht.divided hinner (t := .word "[") (by simp [Scans.dividers])
  | minus h _ ih => exact ih.minus h

/-! ## Brackets in phrases -/

theorem Token.level_of_fits {t : Token} (h : t.Fits raw words)
    (hraw : ∀ t, raw t → Level words t.lexemes) : Level words t.lexemes := by
  cases t with
  | word w => exact h.2
  | number s => exact hraw _ h
  | function f => exact hraw _ h
  | blank => exact rfl
  | parameter i => simpa using Level.single rfl rfl rfl
  | name n => simpa using Level.single rfl rfl rfl
  | madeUpName => simpa using Level.single rfl rfl rfl
  | string s => simpa using Level.single rfl rfl rfl

theorem level_namePart (words : List String) (part : String) :
    Level words (Dialect.namePart part).lexemes := by
  unfold Dialect.namePart
  split_ifs
  · simpa using Level.single rfl rfl rfl
  · simpa using Level.single rfl rfl rfl

theorem level_nameTokens (words : List String) :
    ∀ parts : List String, Level words (lexemesOf (Dialect.nameTokens parts))
  | [] => rfl
  | [part] => by simpa [Dialect.nameTokens] using level_namePart words part
  | part :: next :: rest => by
    have hpoint : Level words [.sign "."] := .single rfl rfl rfl
    rw [Dialect.nameTokens, lexemesOf_append, lexemesOf_cons, lexemesOf_cons, lexemesOf_nil,
      List.append_nil, Token.lexemes_point]
    · exact ((level_namePart words part).append hpoint).append (level_nameTokens words _)
    · simp

/-- Brackets are balanced in a phrase, and none of its words stands outside of them. -/
theorem Phrase.level (h : Phrase raw words ts) (hraw : ∀ t, raw t → Level words t.lexemes) :
    Level words (lexemesOf ts) := by
  -- Inside of brackets no word is left out, so what holds of the raw texts still does there.
  induction h with
  | nil => exact rfl
  | leaf ht => simpa using Token.level_of_fits ht hraw
  | name parts => exact level_nameTokens _ parts
  | gap _ _ iht ihu => simpa using (iht hraw).append (ihu hraw)
  | comma _ _ iht ihu =>
    have hcomma := (Level.single (l := .sign ",") rfl rfl rfl).append (ihu hraw)
    simpa using (iht hraw).append hcomma
  | @bracketed words ts us _ _ iht ihu =>
    have hu := ihu fun t ht => (hraw t ht).mono (by simp)
    have hinner := Level.bracketed words hu (o := .sign "(") (c := .sign ")") rfl rfl
    simpa using (iht hraw).append hinner
  | @listed words ts us _ _ iht ihu =>
    have hu := ihu fun t ht => (hraw t ht).mono (by simp)
    have hinner := Level.bracketed words hu (o := .sign "[") (c := .sign "]") rfl rfl
    simpa using (iht hraw).append hinner
  | minus _ _ ih =>
    have hminus := (Level.single (l := .sign "-") rfl rfl rfl).append (ih hraw)
    simpa using hminus

end Phrases

end StorePlan.Sql
