import StorePlan.Sql.Error

/-
Targets of casts. A target is a standard type name or a name of one dialect's
own, which a leading mark tells apart; the mark is not written.

Arrays of any depth become the name of their innermost type without its
parameters, with one pair of brackets for each level.
-/

namespace StorePlan.Sql

open Text

/-- A target. -/
structure CastTarget where
  /-- The name, with the mark if there is one. -/
  token : String
deriving DecidableEq

namespace CastTarget

/-- Marks a name as a dialect's own. -/
def mark : Char := '_'

def standard (name : String) : CastTarget := ⟨name⟩

/-- A name of the dialect's own. -/
def alien (name : String) : CastTarget := ⟨String.ofList (mark :: name.toList)⟩

def isAlien (t : CastTarget) : Bool := t.token.toList.head? == some mark

/-- What is written: the name without a mark. -/
def text (t : CastTarget) : String :=
  match t.token.toList with
  | c :: cs => if c = mark then String.ofList cs else t.token
  | [] => t.token

/-- The target for arrays of this many levels. -/
def arrayOf (t : CastTarget) (depth : Nat) : CastTarget :=
  ⟨t.token ++ String.join (List.replicate depth "[]")⟩

@[simp] theorem text_alien (name : String) : (alien name).text = name := by
  simp [alien, text]

@[simp] theorem isAlien_alien (name : String) : (alien name).isAlien = true := by
  simp [alien, isAlien]

end CastTarget

namespace Dialect

/-- The targets that differ from those of the standard. -/
def ownCastTarget? : Dialect → DataType → Option CastTarget
  | postgresql, .integer .bits8 => some (.alien "smallint")
  | postgresql, .float .bits64 => some (.alien "double precision")
  | postgresql, .multimedia _ => some (.alien "BYTEA")
  | postgresql, .interval _ => some (.standard "interval")
  | hsqldb, .multimedia _ => some (.alien "BLOB")
  | hsqldb, .interval _ => some (.standard "INTERVAL")
  | _, _ => none

/-- The target for an array. -/
def arrayCastTarget (d : Dialect) (t : DataType) : Except WriteError CastTarget :=
  match d.ownCastTarget? t.innermost with
  | some own => .ok (own.arrayOf t.depth)
  | none =>
    match t.innermost with
    | .null => .error (.castTarget d (.array .null))
    | .multimedia _ => .ok ((CastTarget.alien "BLOB").arrayOf t.depth)
    | item => .ok ((CastTarget.alien item.name).arrayOf t.depth)

/-- A precision or length, at most what the dialect allows for the type. -/
def clamp (d : Dialect) (t : DataType) (n : Nat) : Nat :=
  match d.maxPrecision? t with
  | some most => min n most
  | none => n

/-- The standard target for a type, its precision or length within the dialect's limit. -/
def standardCastTarget (d : Dialect) : DataType → Except WriteError CastTarget
  | .decimal (some p) scale =>
    let precision := natText (d.clamp (.decimal (some p) scale) p.toNat)
    match scale with
    | some s => .ok (.standard ("DECIMAL(" ++ precision ++ ", " ++ natText s.toNat ++ ")"))
    | none => .ok (.standard ("DECIMAL(" ++ precision ++ ")"))
  | .char (some n) => .ok (.standard ("CHAR(" ++ natText (d.clamp (.char (some n)) n.toNat) ++ ")"))
  | .string (some n) =>
    .ok (.standard ("VARCHAR(" ++ natText (d.clamp (.string (some n)) n.toNat) ++ ")"))
  | .interval q => .ok (.standard ("INTERVAL " ++ q.text))
  | .multimedia _ => .ok (.standard "BLOB")
  | .array t => d.arrayCastTarget (.array t)
  | .null => .error (.castTarget d .null)
  | t => .ok (.standard t.name)

/-- The target for a type. -/
def castTarget (d : Dialect) (t : DataType) : Except WriteError CastTarget :=
  match t with
  | .array _ => d.arrayCastTarget t
  | t =>
    match d.ownCastTarget? t with
    | some own => .ok own
    | none => d.standardCastTarget t

end Dialect

end StorePlan.Sql
