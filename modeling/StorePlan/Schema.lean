import StorePlan.DataType.Basic

/-
Row types: the ordered, named and typed columns of an operator's output.
-/

namespace StorePlan

/-- One column. -/
structure Column where
  name : String
  type : DataType
  /-- Whether the column may hold `NULL`. -/
  nullable : Bool
deriving DecidableEq, Inhabited

/-- A row type. -/
structure Schema where
  columns : List Column
deriving DecidableEq, Inhabited

namespace Schema

def empty : Schema := ⟨[]⟩

def width (s : Schema) : Nat := s.columns.length

def column? (s : Schema) (index : Nat) : Option Column := s.columns[index]?

def names (s : Schema) : List String := s.columns.map (·.name)

/-- The columns of two row types side by side. -/
def append (s t : Schema) : Schema := ⟨s.columns ++ t.columns⟩

/-- The row type with `NULL` allowed everywhere. -/
def asNullable (s : Schema) : Schema := ⟨s.columns.map fun c => { c with nullable := true }⟩

@[simp] theorem width_append (s t : Schema) : (s.append t).width = s.width + t.width := by
  simp [width, append]

@[simp] theorem width_asNullable (s : Schema) : s.asNullable.width = s.width := by
  simp [width, asNullable]

theorem column?_eq_none_iff {s : Schema} {i : Nat} : s.column? i = none ↔ s.width ≤ i := by
  simp [column?, width]

theorem exists_column? {s : Schema} {i : Nat} (h : i < s.width) : ∃ c, s.column? i = some c :=
  ⟨_, List.getElem?_eq_getElem h⟩

end Schema

end StorePlan
