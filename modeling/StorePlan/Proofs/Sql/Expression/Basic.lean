import StorePlan.Proofs.Sql.Numeral
import StorePlan.Text.UpperCase

/-
Expressions as their text shows them: a parameter has no number, a number no
kind, and the target of a cast is a list of lexemes.

Operators between two operands have a constructor of their own. Everything
else with operands is a frame around a list of them.
-/

namespace StorePlan.Sql

open Lexeme

/-- What stands in an expression without operands. -/
inductive Leaf where
  /-- A name of one or more parts, where a star stands for itself. -/
  | name (parts : List String)
  /-- `NULL` or a truth value. -/
  | constant (word : String)
  | number (text : String)
  | string (s : String)
  /-- A date, a time or a timestamp. -/
  | dated (word : String) (s : String)
  | interval (s : String) (qualifier : IntervalQualifier)
  | parameter
deriving DecidableEq

/-- What stands around a list of operands. -/
inductive Frame where
  /-- An operator that does not stand between two operands. -/
  | operator (op : Op)
  | cast (target : List Lexeme)
  | call (name : String) (distinct : Bool)
  /-- A case distinction. The operands are the subject if there is one, conditions and results by
  turns, and at last the default if there is one. -/
  | caseOf (hasSubject : Bool)
deriving DecidableEq

/-- An expression. -/
inductive Expression where
  | leaf (l : Leaf)
  | binary (op : Op) (left right : Expression)
  | frame (f : Frame) (operands : List Expression)

/-! ## Lexemes -/

def partLexeme (part : String) : Lexeme :=
  if part = "*" then .sign "*" else .quoted nameQuote part

/-- A name of one or more parts, separated by points. -/
def nameLexemes : List String → List Lexeme
  | [] => []
  | [part] => [partLexeme part]
  | part :: rest => partLexeme part :: .sign "." :: nameLexemes rest

def Leaf.lexemes : Leaf → List Lexeme
  | name parts => nameLexemes parts
  | constant w => [.word w]
  | number t => ofChars t.toList
  | string s => [.quoted stringQuote s]
  | dated w s => [.word w, .quoted stringQuote s]
  | interval s q => .word "INTERVAL" :: .quoted stringQuote s :: ofChars q.text.toList
  | parameter => [.sign "?"]

def Op.lexemes (op : Op) : List Lexeme := ofChars op.name.toList

/-- Lists of lexemes with a comma between them. -/
def listed : List (List Lexeme) → List Lexeme
  | [] => []
  | [ls] => ls
  | ls :: rest => ls ++ .sign "," :: listed rest

/-- Conditions and results by turns, and perhaps a default at last. -/
def branchLexemes : List (List Lexeme) → List Lexeme
  | [] => [.word "END"]
  | [ls] => .word "ELSE" :: ls ++ [.word "END"]
  | condition :: result :: rest =>
    .word "WHEN" :: condition ++ .word "THEN" :: result ++ branchLexemes rest

/-- An operator around its operands. -/
def Op.around : Op → List (List Lexeme) → List Lexeme
  | .not, [operand] => .word "NOT" :: operand
  | .negate, [operand] => .sign "-" :: operand
  | .isNull, [operand] => operand ++ [.word "IS", .word "NULL"]
  | .isNotNull, [operand] => operand ++ [.word "IS", .word "NOT", .word "NULL"]
  | .isIn, value :: list => value ++ .word "IN" :: inBrackets (listed list)
  | .between, [value, low, high] => value ++ .word "BETWEEN" :: low ++ .word "AND" :: high
  | _, _ => []

namespace Frame

/-- A frame around its operands. -/
def around : Frame → List (List Lexeme) → List Lexeme
  | operator op, operands => op.around operands
  | cast target, operands => .word "CAST" :: inBrackets (listed operands ++ .word "AS" :: target)
  | call name distinct, operands =>
    .word name :: inBrackets ((if distinct then [.word "DISTINCT"] else []) ++ listed operands)
  | caseOf true, subject :: branches => .word "CASE" :: subject ++ branchLexemes branches
  | caseOf _, branches => .word "CASE" :: branchLexemes branches

def precedence : Frame → Nat
  | operator op => op.precedence
  | _ => Op.leafPrecedence

/-- How strongly an operand has to bind to stand without brackets, by its position. -/
def operandPrecedence : Frame → Nat → Nat
  | operator op, position => op.operandPrecedence position
  | _, _ => 0

end Frame

namespace Expression

/-- How strongly an expression binds. -/
def precedence : Expression → Nat
  | leaf _ => Op.leafPrecedence
  | binary op _ _ => op.precedence
  | frame f _ => f.precedence

/-- An expression in a place, in brackets where the place demands more than it has. -/
def enclosed (precedence place : Nat) (ls : List Lexeme) : List Lexeme :=
  if precedence < place then inBrackets ls else ls

mutual

/-- The lexemes of an expression by itself. -/
def lexemes : Expression → List Lexeme
  | leaf l => l.lexemes
  | binary op left right =>
    enclosed left.precedence (op.operandPrecedence 0) left.lexemes ++ op.lexemes ++
      enclosed right.precedence (op.operandPrecedence 1) right.lexemes
  | frame f operands => f.around (operandLexemes f 0 operands)
termination_by structural e => e

/-- The lexemes of the operands of a frame from a position on. -/
def operandLexemes (f : Frame) : Nat → List Expression → List (List Lexeme)
  | _, [] => []
  | position, e :: rest =>
    enclosed e.precedence (f.operandPrecedence position) e.lexemes ::
      operandLexemes f (position + 1) rest
termination_by structural _ es => es

end

/-- The lexemes of an expression in a place. -/
def placed (place : Nat) (e : Expression) : List Lexeme :=
  enclosed e.precedence place e.lexemes

end Expression

/-! ## Regular expressions -/

/-- The constants. -/
def constants : List String := ["NULL", "TRUE", "FALSE"]

/-- The types of which a string can be a literal. -/
def datedTypes : List String := ["DATE", "TIME", "TIMESTAMP"]

/-- Words that are no names of functions, even in front of a bracket. -/
def notCalled : List String := ["NOT", "CAST", "CASE", "WHEN", "DISTINCT"]

/-- The name of a function: a word that means nothing else in front of a bracket. -/
def isFunctionName (name : String) : Bool :=
  decide (IsWord name.toList) && !notCalled.contains (Text.upperText name)

def Leaf.isRegular : Leaf → Bool
  | name parts => !parts.isEmpty
  | constant w => constants.contains w
  | number t => isNumeral t.toList
  | dated w _ => datedTypes.contains w
  | string _ | interval .. | parameter => true

/-- Whether a frame can stand around a number of operands. -/
def Frame.takes : Frame → Nat → Bool
  | operator op, n => op.layout != .binary && op.layout != .function && op.takes n
  | cast target, n => n == 1 && decide (Level [] target)
  | call name _, _ => isFunctionName name
  | caseOf hasSubject, n => if hasSubject then 3 ≤ n else 2 ≤ n

namespace Expression

mutual

/-- Every operator stands where it can, around as many operands as it takes, and names and numbers
look like such. -/
def Regular : Expression → Prop
  | leaf l => l.isRegular = true
  | binary op left right => op.layout = .binary ∧ left.Regular ∧ right.Regular
  | frame f operands => f.takes operands.length = true ∧ AllRegular operands
termination_by structural e => e

def AllRegular : List Expression → Prop
  | [] => True
  | e :: rest => e.Regular ∧ AllRegular rest
termination_by structural es => es

end

theorem operandLexemes_eq_map {f : Frame} {position : Nat} (es : List Expression)
    (h : ∀ i, position ≤ i → f.operandPrecedence i = 0) :
    operandLexemes f position es = es.map Expression.lexemes := by
  induction es generalizing position with
  | nil => rfl
  | cons e rest ih =>
    rw [operandLexemes, h position (Nat.le_refl _), ih fun i hi => h i (by omega)]
    rfl

end Expression

end StorePlan.Sql
