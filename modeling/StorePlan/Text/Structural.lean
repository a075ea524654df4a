import StorePlan.Text.Invisible
import StorePlan.Text.Numeral

/-
Structural text: a value written as the constructor it was built with, its
arguments in parentheses or its named fields in braces, in the order of
their declaration.
-/

namespace StorePlan.Text

/-- Digits of a code point in base sixteen, small letters. -/
def hexDigits (n : Nat) : List Char := Nat.toDigits 16 n

/-- A character inside double quotes. -/
def quotedChar (c : Char) : List Char :=
  match c with
  | '"' => ['\\', '"']
  | '\\' => ['\\', '\\']
  | '\n' => ['\\', 'n']
  | '\r' => ['\\', 'r']
  | '\t' => ['\\', 't']
  | '\x00' => ['\\', '0']
  | c => if isInvisible c then ['\\', 'u', '\x7b'] ++ hexDigits c.toNat ++ ['\x7d'] else [c]

/-- A text in double quotes, with quotes, backslashes and invisible characters escaped. -/
def quoted (s : String) : String :=
  String.ofList ('"' :: s.toList.flatMap quotedChar ++ ['"'])

/-- What a value is built from. -/
inductive Structure where
  | word (text : String)
  | applied (name : String) (arguments : List Structure)
  | record (name : String) (fields : List (String × Structure))
  | list (items : List Structure)

mutual

/-- The text of a structure. -/
def Structure.text : Structure → String
  | .word t => t
  | .applied name args => name ++ "(" ++ ", ".intercalate (Structure.texts args) ++ ")"
  | .record name fields =>
    name ++ " \x7b " ++ ", ".intercalate (Structure.fieldTexts fields) ++ " \x7d"
  | .list items => "[" ++ ", ".intercalate (Structure.texts items) ++ "]"
termination_by structural s => s

def Structure.texts : List Structure → List String
  | [] => []
  | s :: rest => s.text :: Structure.texts rest
termination_by structural ss => ss

def Structure.fieldTexts : List (String × Structure) → List String
  | [] => []
  | (name, s) :: rest => (name ++ ": " ++ s.text) :: Structure.fieldTexts rest
termination_by structural ss => ss

end

/-- `Some(x)` or `None`. -/
def Structure.optional (f : α → Structure) : Option α → Structure
  | some a => .applied "Some" [f a]
  | none => .word "None"

def Structure.nat (n : Nat) : Structure := .word (natText n)

def Structure.quoted (s : String) : Structure := .word (Text.quoted s)

end StorePlan.Text
