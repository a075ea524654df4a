import StorePlan.Number.Shortest
import StorePlan.Text.Numeral

/-
JSON documents and their compact text.

Fields keep the order in which they were inserted; inserting a name again
replaces its value in place. Numbers are integers or binary floating-point
numbers of either width, each width with its own layout.
-/

namespace StorePlan

open Number Text

/-- A JSON document. -/
inductive Json where
  | null
  | bool (b : Bool)
  | integer (i : Int)
  | single (x : Single)
  | double (x : Double)
  | string (s : String)
  | array (items : List Json)
  | object (fields : List (String × Json))
deriving Inhabited

namespace Json

/-- Sets a field: in its old place when the name is there, else at the end. -/
def insertField (name : String) (value : Json) : List (String × Json) → List (String × Json)
  | [] => [(name, value)]
  | (n, v) :: rest =>
    if n = name then (n, value) :: rest else (n, v) :: insertField name value rest

/-- The object built by inserting fields one after the other. -/
def ofFields (fields : List (String × Json)) : Json :=
  .object (fields.foldl (fun done field => insertField field.1 field.2 done) [])

/-- An object with one field. -/
def field (name : String) (value : Json) : Json := .object [(name, value)]

def nat (n : Nat) : Json := .integer n

def strings (ss : List String) : Json := .array (ss.map .string)

/-- `null` for an absent value. -/
def optional (f : α → Json) : Option α → Json
  | some a => f a
  | none => .null

/-- A hexadecimal digit. -/
def hexDigit (n : Nat) : Char := Nat.digitChar n

/-- A character inside a string. -/
def escapedChar (c : Char) : List Char :=
  match c with
  | '"' => ['\\', '"']
  | '\\' => ['\\', '\\']
  | '\x08' => ['\\', 'b']
  | '\x0c' => ['\\', 'f']
  | '\n' => ['\\', 'n']
  | '\r' => ['\\', 'r']
  | '\t' => ['\\', 't']
  | c =>
    if c.toNat < 32 then
      ['\\', 'u', '0', '0', hexDigit (c.toNat / 16), hexDigit (c.toNat % 16)]
    else [c]

/-- A string in quotes. -/
def stringText (s : String) : String :=
  String.ofList ('"' :: s.toList.flatMap escapedChar ++ ['"'])

/-- A number; what is no finite number is written `null`. -/
def numberText {f : BinaryFormat} (layout : FloatLayout) (x : BinaryFloat f) : String :=
  if x.isFinite then x.text layout else "null"

mutual

/-- The text without any blanks. -/
def text : Json → String
  | null => "null"
  | bool b => if b then "true" else "false"
  | integer i => intText i
  | single x => numberText .jsonSingle x
  | double x => numberText .jsonDouble x
  | string s => stringText s
  | array items => "[" ++ ",".intercalate (texts items) ++ "]"
  | object fields => "\x7b" ++ ",".intercalate (fieldTexts fields) ++ "\x7d"
termination_by structural j => j

def texts : List Json → List String
  | [] => []
  | j :: rest => j.text :: texts rest
termination_by structural js => js

def fieldTexts : List (String × Json) → List String
  | [] => []
  | (name, j) :: rest => (stringText name ++ ":" ++ j.text) :: fieldTexts rest
termination_by structural fs => fs

end

/-! ## Insertion -/

@[simp] theorem insertField_nil (name : String) (value : Json) :
    insertField name value [] = [(name, value)] := rfl

/-- A new name goes to the end. -/
theorem insertField_of_not_mem {name : String} {value : Json} {fields : List (String × Json)}
    (h : name ∉ fields.map (·.1)) : insertField name value fields = fields ++ [(name, value)] := by
  induction fields with
  | nil => rfl
  | cons field rest ih =>
    obtain ⟨n, v⟩ := field
    simp only [List.map_cons, List.mem_cons, not_or] at h
    simp [insertField, Ne.symm h.1, ih h.2]

/-- A known name keeps the names as they are. -/
theorem map_fst_insertField_of_mem {name : String} {value : Json}
    {fields : List (String × Json)} (h : name ∈ fields.map (·.1)) :
    (insertField name value fields).map (·.1) = fields.map (·.1) := by
  induction fields with
  | nil => simp at h
  | cons field rest ih =>
    obtain ⟨n, v⟩ := field
    by_cases same : n = name
    · simp [insertField, same]
    · have : name ∈ rest.map (·.1) := by
        simpa [Ne.symm same] using h
      simp [insertField, same, ih this]

end Json

end StorePlan
