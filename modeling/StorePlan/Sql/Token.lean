import StorePlan.Text.Numeral

/-
Tokens of SQL text. A statement is a list of tokens, and `render` is the only
place where tokens become text: it encloses names and strings in quotes and
numbers the names that are made up for unnamed queries.
-/

namespace StorePlan.Sql

open Text

/-- A piece of SQL text. -/
inductive Token where
  | blank
  /-- A keyword, a sign, a bracket or a type name. -/
  | word (text : String)
  | number (text : String)
  /-- The name of a function. -/
  | function (name : String)
  /-- A name in quotes. -/
  | name (name : String)
  /-- A string in quotes. -/
  | string (s : String)
  /-- The place of a parameter. -/
  | parameter (index : Nat)
  /-- A name that is made up for a query without one. -/
  | madeUpName
deriving DecidableEq

/-- Quote characters inside of quotes are written twice. -/
def doubleQuotes (quote : Char) : List Char → List Char
  | [] => []
  | c :: cs => if c = quote then c :: c :: doubleQuotes quote cs else c :: doubleQuotes quote cs

/-- A text in quotes. -/
def enclosed (quote : Char) (s : String) : String :=
  String.ofList (quote :: doubleQuotes quote s.toList ++ [quote])

def nameQuote : Char := '"'

def stringQuote : Char := '\''

/-- A name in quotes. -/
def quotedName (name : String) : String := enclosed nameQuote name

/-- The text of a token, where made-up names have this number. -/
def Token.text (aliasPrefix : String) (number : Nat) : Token → String
  | blank => " "
  | word t => t
  | .number t => t
  | function n => n
  | name n => quotedName n
  | string s => enclosed stringQuote s
  | parameter _ => "?"
  | madeUpName => quotedName (aliasPrefix ++ natText number)

/-- The texts of tokens; made-up names are numbered from `number` on. -/
def tokenTexts (aliasPrefix : String) (number : Nat) : List Token → List String
  | [] => []
  | t :: rest =>
    t.text aliasPrefix number ::
      tokenTexts aliasPrefix (if t = .madeUpName then number + 1 else number) rest

/-- The text of a statement. -/
def render (aliasPrefix : String) (tokens : List Token) : String :=
  String.join (tokenTexts aliasPrefix 0 tokens)

/-- Whether the text of tokens starts with a minus sign. -/
def startsWithMinus : List Token → Bool
  | [] => false
  | t :: rest =>
    match t with
    | .word s | .number s | .function s =>
      if s = "" then startsWithMinus rest else s.toList.head? == some '-'
    | _ => false

/-! ## Phrases -/

/-- A keyword or a sign with blanks around it. -/
def spaced (text : String) : List Token := [.blank, .word text, .blank]

/-- Tokens in brackets. -/
def bracketed (tokens : List Token) : List Token := .word "(" :: tokens ++ [.word ")"]

/-- Lists of tokens with a comma and a blank between them. -/
def commaSeparated : List (List Token) → List Token
  | [] => []
  | [tokens] => tokens
  | tokens :: rest => tokens ++ [.word ",", .blank] ++ commaSeparated rest

end StorePlan.Sql
