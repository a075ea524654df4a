import StorePlan.Proofs.Sql.Scanning

/-
What readers of lexemes have in common. A reader answers what it has read and
the lexemes that follow.
-/

namespace StorePlan.Sql.Reading

variable {ls rest : List Lexeme}

/-- What follows an expected lexeme. -/
def expect? (expected : Lexeme) : List Lexeme → Option (Lexeme × List Lexeme)
  | [] => none
  | l :: rest => if l = expected then some (l, rest) else none

/-- Goes on behind what has been read, which is not nothing. -/
def andThen {α β : Type} (ls : List Lexeme) (read : Option (α × List Lexeme))
    (next : α → (rest : List Lexeme) → rest.length < ls.length → Option β) : Option β :=
  match read with
  | none => none
  | some (a, rest) => if h : rest.length < ls.length then next a rest h else none

theorem andThen_some {α β : Type} {a : α} {next : α → (rest : List Lexeme) → _ → Option β}
    (h : rest.length < ls.length) : andThen ls (some (a, rest)) next = next a rest h := dif_pos h

theorem andThen_eq_some {α β : Type} {b : β} {read : Option (α × List Lexeme)}
    {next : α → (rest : List Lexeme) → rest.length < ls.length → Option β}
    (h : andThen ls read next = some b) :
    ∃ a rest, read = some (a, rest) ∧ ∃ hlt : rest.length < ls.length, next a rest hlt = some b := by
  cases read with
  | none => cases h
  | some found =>
    obtain ⟨a, rest⟩ := found
    unfold andThen at h
    simp only at h
    split_ifs at h with hlt
    exact ⟨a, rest, rfl, hlt, h⟩

theorem length_lt_append (h : ls ≠ []) (rest : List Lexeme) :
    rest.length < (ls ++ rest).length := by
  have := List.length_pos_of_ne_nil h
  rw [List.length_append]
  omega

theorem expect?_self (l : Lexeme) (rest : List Lexeme) :
    expect? l (l :: rest) = some (l, rest) := if_pos rfl

theorem expect?_of_ne {l expected : Lexeme} (h : l ≠ expected) : expect? expected (l :: rest) = none :=
  if_neg h

end StorePlan.Sql.Reading
