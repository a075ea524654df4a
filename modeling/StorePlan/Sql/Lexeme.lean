import StorePlan.Text.Blank
import StorePlan.Text.Numeral

/-
The lexemes of SQL text, each with the place where it starts. The text is
read character by character: a mode says what is being read, and a step
completes at most one lexeme and begins the next.
-/

namespace StorePlan.Sql

open Text

/-- A place in a text; lines and columns count from one. -/
structure Position where
  line : Nat
  column : Nat
deriving DecidableEq

/-- The place behind a character. -/
def Position.next (p : Position) (c : Char) : Position :=
  if c = '\n' then ⟨p.line + 1, 1⟩ else ⟨p.line, p.column + 1⟩

inductive Lexeme where
  | word (text : String)
  | number (text : String)
  | quoted (quote : Char) (content : String)
  /-- A sign or a bracket. -/
  | sign (text : String)
deriving DecidableEq

/-- A lexeme as it is reported, without the doubling of quotes. -/
def Lexeme.text : Lexeme → String
  | word t => t
  | number t => t
  | quoted quote content => String.singleton quote ++ content ++ String.singleton quote
  | sign t => t

/-- A lexeme and where it starts. -/
structure Located where
  lexeme : Lexeme
  position : Position
deriving DecidableEq

namespace Lexeme

/-- What is being read. Characters read so far are in reverse. -/
inductive Mode where
  | between
  | word (start : Position) (read : List Char)
  | number (start : Position) (read : List Char)
  | comparison (start : Position) (read : List Char)
  | quoted (quote : Char) (start : Position) (read : List Char)
  /-- Behind a quote that ends the text or stands for itself if another follows. -/
  | quoteSeen (quote : Char) (start : Position) (read : List Char)
  /-- Behind a minus sign, of which two start a comment. -/
  | minus (start : Position)
  /-- Behind a slash, which starts a comment together with a star. -/
  | slash (start : Position)
  | lineComment
  | blockComment (starSeen : Bool)

def isLetter (c : Char) : Bool := c.isAlpha || c == '_' || (128 ≤ c.toNat && !isBlank c)

def isWordPart (c : Char) : Bool := isLetter c || isDigit c || c == '$' || c == '#' || c == '@'

def isComparison (c : Char) : Bool := "<>=!|:&~^".toList.contains c

/-- The mode for a lexeme that starts with a character, or the lexeme that the character is. -/
def start (p : Position) (c : Char) : List Located × Mode :=
  if isBlank c then ([], .between)
  else if c = '\'' ∨ c = '"' then ([], .quoted c p [])
  else if isLetter c then ([], .word p [c])
  else if isDigit c then ([], .number p [c])
  else if isComparison c then ([], .comparison p [c])
  else if c = '-' then ([], .minus p)
  else if c = '/' then ([], .slash p)
  else ([⟨.sign (String.singleton c), p⟩], .between)

/-- A lexeme that ends in front of a character. -/
def before (done : Located) (p : Position) (c : Char) : List Located × Mode :=
  let (more, mode) := start p c
  (done :: more, mode)

def ofRead (make : String → Lexeme) (start : Position) (read : List Char) : Located :=
  ⟨make (String.ofList read.reverse), start⟩

/-- What a character at a place completes, and what is being read behind it. -/
def step (mode : Mode) (p : Position) (c : Char) : List Located × Mode :=
  match mode with
  | .between => start p c
  | .word s read =>
    if isWordPart c then ([], .word s (c :: read)) else before (ofRead .word s read) p c
  | .number s read =>
    if isWordPart c || c == '.' then ([], .number s (c :: read))
    else before (ofRead .number s read) p c
  | .comparison s read =>
    if isComparison c then ([], .comparison s (c :: read)) else before (ofRead .sign s read) p c
  | .quoted quote s read =>
    if c = quote then ([], .quoteSeen quote s read) else ([], .quoted quote s (c :: read))
  | .quoteSeen quote s read =>
    if c = quote then ([], .quoted quote s (c :: read))
    else before (ofRead (.quoted quote) s read) p c
  | .minus s => if c = '-' then ([], .lineComment) else before ⟨.sign "-", s⟩ p c
  | .slash s => if c = '*' then ([], .blockComment false) else before ⟨.sign "/", s⟩ p c
  | .lineComment => ([], if c = '\n' then .between else .lineComment)
  | .blockComment starSeen =>
    ([], if starSeen ∧ c = '/' then .between else .blockComment (c == '*'))

/-- What the end of the text completes, or the place of a quote that is never closed. -/
def finish : Mode → Except Position (List Located)
  | .between | .lineComment | .blockComment _ => .ok []
  | .word s read => .ok [ofRead .word s read]
  | .number s read => .ok [ofRead .number s read]
  | .comparison s read => .ok [ofRead .sign s read]
  | .quoted _ s _ => .error s
  | .quoteSeen quote s read => .ok [ofRead (.quoted quote) s read]
  | .minus s => .ok [⟨.sign "-", s⟩]
  | .slash s => .ok [⟨.sign "/", s⟩]

def scanFrom (mode : Mode) (p : Position) : List Char → Except Position (List Located)
  | [] => finish mode
  | c :: cs => do
    let (done, mode) := step mode p c
    return done ++ (← scanFrom mode (p.next c) cs)

/-- The lexemes of a text, or the place of a quote that is never closed. -/
def scan (s : String) : Except Position (List Located) := scanFrom .between ⟨1, 1⟩ s.toList

end Lexeme

end StorePlan.Sql
