/-
Regular expressions as far as a document store is sent them: anchors, single
characters and repetition. A text that uses any other character with a
meaning of its own has no reading here.

A store looks for an expression anywhere in a subject (`Regex.Finds`), so it
is up to the anchors whether all of the subject is meant. What ends a line is
left open: any character stands for all characters but those, and the end of
a subject may be in front of one.
-/

namespace StorePlan

namespace Regex

/-- What one place of an expression asks for. -/
inductive Atom where
  /-- The start of the subject. -/
  | start
  /-- Its end. -/
  | stop
  /-- Some character. -/
  | any
  /-- This character. -/
  | exactly (c : Char)
deriving DecidableEq

/-- An atom, once or any number of times. -/
structure Piece where
  atom : Atom
  repeated : Bool
deriving DecidableEq

end Regex

/-- An expression: pieces one behind the other. -/
abbrev Regex := List Regex.Piece

namespace Regex

/-! ## Reading -/

/-- Characters that stand for themselves only behind a backslash. -/
def isMeta (c : Char) : Bool :=
  ['\\', '^', '$', '.', '|', '?', '*', '+', '(', ')', '[', ']', '\x7b', '\x7d'].contains c

/-- The atom that a character is by itself. -/
def Atom.ofChar? : Char → Option Atom
  | '^' => some .start
  | '$' => some .stop
  | '.' => some .any
  | c => if isMeta c then none else some (.exactly c)

/-- The expression that a text stands for. A star repeats the atom in front of it. -/
def read? : List Char → Option Regex
  | [] => some []
  | '\\' :: c :: '*' :: rest =>
    if isMeta c then (read? rest).map (⟨.exactly c, true⟩ :: ·) else none
  | '\\' :: c :: rest =>
    if isMeta c then (read? rest).map (⟨.exactly c, false⟩ :: ·) else none
  | c :: '*' :: rest => (Atom.ofChar? c).bind fun a => (read? rest).map (⟨a, true⟩ :: ·)
  | c :: rest => (Atom.ofChar? c).bind fun a => (read? rest).map (⟨a, false⟩ :: ·)

section Reading

variable {c : Char} {rest : List Char}

theorem read?_escaped (hc : isMeta c = true) (hrest : rest.head? ≠ some '*') :
    read? ('\\' :: c :: rest) = (read? rest).map (⟨.exactly c, false⟩ :: ·) := by
  rw [read?, if_pos hc]
  rintro behind rfl
  exact hrest rfl

theorem ne_backslash_of_ofChar? {a : Atom} (ha : Atom.ofChar? c = some a) : c ≠ '\\' := by
  rintro rfl
  cases ha

theorem read?_ofChar? {a : Atom} (ha : Atom.ofChar? c = some a) (hrest : rest.head? ≠ some '*') :
    read? (c :: rest) = (read? rest).map (⟨a, false⟩ :: ·) := by
  have hbackslash := ne_backslash_of_ofChar? ha
  rw [read?, ha, Option.bind_some]
  -- No form with a backslash in front or a star behind applies.
  all_goals
    intros
    simp_all

theorem read?_repeated {a : Atom} (ha : Atom.ofChar? c = some a) :
    read? (c :: '*' :: rest) = (read? rest).map (⟨a, true⟩ :: ·) := by
  have hbackslash := ne_backslash_of_ofChar? ha
  rw [read?, ha, Option.bind_some]
  all_goals
    intros
    simp_all

/-- A character without a meaning of its own stands for itself. -/
theorem Atom.ofChar?_of_not_isMeta (h : isMeta c = false) :
    Atom.ofChar? c = some (.exactly c) := by
  unfold ofChar?
  split
  · cases h
  · cases h
  · cases h
  · rw [if_neg (by simp [h])]

end Reading

/-! ## Matching -/

section Matching

variable (isLineEnd : Char → Bool)

/-- Whether an atom stands for a part of a subject, between what is before and behind it. -/
def Atom.Matches : Atom → (before part behind : List Char) → Prop
  | start, before, part, _ => before = [] ∧ part = []
  | stop, _, part, behind => part = [] ∧ (behind = [] ∨ ∃ c, behind = [c] ∧ isLineEnd c = true)
  | any, _, part, _ => ∃ c, part = [c] ∧ isLineEnd c = false
  | exactly c, _, part, _ => part = [c]

/-- A part that an atom stands for by going over it again and again. -/
inductive Atom.Repeats (a : Atom) : (before part behind : List Char) → Prop where
  | nil {before behind : List Char} : Repeats a before [] behind
  | cons {before first rest behind : List Char} :
    a.Matches isLineEnd before first (rest ++ behind) → Repeats a (before ++ first) rest behind →
      Repeats a before (first ++ rest) behind

def Piece.Matches (p : Piece) (before part behind : List Char) : Prop :=
  if p.repeated then p.atom.Repeats isLineEnd before part behind
  else p.atom.Matches isLineEnd before part behind

/-- Whether pieces stand for a part of a subject, each for its share. -/
def Matches : Regex → (before part behind : List Char) → Prop
  | [], _, part, _ => part = []
  | p :: rest, before, part, behind => ∃ first more, part = first ++ more ∧
      p.Matches isLineEnd before first (more ++ behind) ∧
      Matches rest (before ++ first) more behind

/-- Whether an expression stands for any part of a subject. -/
def Finds (r : Regex) (subject : List Char) : Prop :=
  ∃ before part behind, subject = before ++ part ++ behind ∧
    Matches isLineEnd r before part behind

variable {isLineEnd} {before part behind : List Char}

/-- Any number of any characters are all characters up to the end of a line. -/
theorem repeats_any_iff :
    Atom.any.Repeats isLineEnd before part behind ↔ ∀ c ∈ part, isLineEnd c = false := by
  constructor
  · intro h
    induction h with
    | nil => simp
    | cons hfirst _ ih =>
      obtain ⟨c, rfl, hc⟩ := hfirst
      exact List.forall_mem_cons.2 ⟨hc, ih⟩
  · intro h
    induction part generalizing before with
    | nil => exact .nil
    | cons c rest ih =>
      rw [List.forall_mem_cons] at h
      have hfirst : Atom.any.Matches isLineEnd before [c] (rest ++ behind) := ⟨c, rfl, h.1⟩
      exact Atom.Repeats.cons hfirst (ih h.2)

/-- An expression that begins at the start is found only there. -/
theorem finds_start_iff {r : Regex} {subject : List Char} :
    Finds isLineEnd (⟨.start, false⟩ :: r) subject ↔
      ∃ part behind, subject = part ++ behind ∧ Matches isLineEnd r [] part behind := by
  constructor
  · rintro ⟨_, _, behind, hsubject, _, part, rfl, ⟨rfl, rfl⟩, h⟩
    exact ⟨part, behind, hsubject, h⟩
  · rintro ⟨part, behind, hsubject, h⟩
    exact ⟨[], part, behind, hsubject, [], part, rfl, ⟨rfl, rfl⟩, h⟩

end Matching

end Regex

end StorePlan
