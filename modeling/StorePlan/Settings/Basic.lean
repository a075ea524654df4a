import StorePlan.Text.Blank
import StorePlan.Text.Numeral

/-
Settings of the emitters. Every one has a default, so a blank document is
valid, and so is a section with nothing in it. A document that names an
unknown setting, sets one twice or gives it a value of another kind is
unreadable; a readable one may still be refused.

The reader of the YAML in which documents are written is not part of the
library: it is a parameter that gives the node of a document, if it has one.
-/

namespace StorePlan

open Text

/-- What the emitters can be told. -/
structure Settings where
  /-- What generated aliases of sub-queries start with. -/
  aliasPrefix : String := "t"
  /-- Whether a single-value aggregate of a document store becomes a sum. -/
  singleValueAsSum : Bool := true
  /-- Number of neighbours asked for when a plan gives no bound. -/
  knnLimit : UInt32 := 1000000
deriving DecidableEq

/-- Why there are no settings. -/
inductive SettingsError where
  | missingFile (path : String)
  | unreadableFile (path : String)
  | unreadable
  | zeroKnnLimit
  | emptyAliasPrefix
deriving DecidableEq

/-- The message of an error. -/
def SettingsError.message : SettingsError → String
  | missingFile path => "[C004] Config file not found: " ++ path
  | zeroKnnLimit =>
    "[C005] Invalid config: vector.default_knn_limit must be greater than zero"
  | emptyAliasPrefix => "[C005] Invalid config: sql.from_alias_prefix cannot be empty"
  | unreadable => "[C006] Failed to parse config"
  | unreadableFile path => "[C007] IO error on '" ++ path ++ "'"

namespace Settings

/-- A node of a document. -/
inductive Node where
  /-- A scalar, with a mark for one that was written without quotes. -/
  | scalar (isPlain : Bool) (text : String)
  | sequence (items : List Node)
  | mapping (entries : List (String × Node))
deriving Inhabited

/-- A truth value is a plain word. -/
def readTruth? : Node → Option Bool
  | .scalar true "true" | .scalar true "True" | .scalar true "TRUE" => some true
  | .scalar true "false" | .scalar true "False" | .scalar true "FALSE" => some false
  | _ => none

/-- Digits in base ten without a leading zero, or in the base that `0x`, `0o` or `0b` names. -/
def readNumeral? (cs : List Char) : Option Nat :=
  let cs := match cs with | '+' :: r => r | r => r
  match cs with
  | '0' :: 'x' :: r => readBase? 16 r
  | '0' :: 'o' :: r => readBase? 8 r
  | '0' :: 'b' :: r => readBase? 2 r
  | ['0'] => some 0
  | '0' :: _ => none
  | r => readDigits? r

/-- A bound is a plain number of at most 32 bits. -/
def readBound? : Node → Option UInt32
  | .scalar true t => ((readNumeral? t.toList).filter (· < UInt32.size)).map .ofNat
  | _ => none

/-- A text is any scalar, as it is written. -/
def readText? : Node → Option String
  | .scalar _ t => some t
  | _ => none

/-- The entries of a mapping; where nothing stands at all there are none. -/
def entries? : Node → Option (List (String × Node))
  | .mapping es => some es
  | .scalar true "" => some []
  | _ => none

/-- The document's sections and the names that each may hold, with the effect of each. -/
def assign? (s : Settings) (group name : String) (value : Node) : Option Settings :=
  match group, name with
  | "sql", "from_alias_prefix" =>
    (readText? value).map fun t => { s with aliasPrefix := t }
  | "document", "single_value_as_sum" =>
    (readTruth? value).map fun b => { s with singleValueAsSum := b }
  | "vector", "default_knn_limit" =>
    (readBound? value).map fun n => { s with knnLimit := n }
  | _, _ => none

def isGroup (name : String) : Bool := name == "sql" || name == "document" || name == "vector"

/-- The settings of a document; no name may occur twice beside itself. -/
def ofEntries? (groups : List (String × Node)) : Option Settings :=
  if (groups.map (·.1)).Nodup then
    groups.foldlM (fun s (group, section') => do
      let entries ← entries? section'
      if isGroup group ∧ (entries.map (·.1)).Nodup then
        entries.foldlM (fun s (name, value) => assign? s group name value) s
      else none) {}
  else none

/-- Refuses settings that no emitter can work with. -/
def check (s : Settings) : Except SettingsError Settings :=
  if s.knnLimit = 0 then .error .zeroKnnLimit
  else if s.aliasPrefix = "" then .error .emptyAliasPrefix
  else .ok s

/-- The settings that a document describes, by a reader of documents. -/
def read (parse : String → Option Node) (document : String) : Except SettingsError Settings :=
  if isBlankText document then .ok {}
  else
    match (parse document).bind fun root => (entries? root).bind ofEntries? with
    | some s => s.check
    | none => .error .unreadable

/-- What there is at a path. -/
inductive FileContent where
  | missing
  | unreadable
  | text (document : String)

/-- The settings that the file at a path describes. -/
def load (parse : String → Option Node) (path : String) :
    FileContent → Except SettingsError Settings
  | .missing => .error (.missingFile path)
  | .unreadable => .error (.unreadableFile path)
  | .text document => read parse document

/-! ## Usable settings -/

/-- Emitters can work with the settings. -/
structure IsUsable (s : Settings) : Prop where
  knnLimit : s.knnLimit ≠ 0
  aliasPrefix : s.aliasPrefix ≠ ""

theorem isUsable_default : IsUsable {} where
  knnLimit := by decide
  aliasPrefix := by decide

theorem check_eq_ok_iff {s t : Settings} : s.check = .ok t ↔ s.IsUsable ∧ s = t := by
  unfold check
  split
  · rename_i hlimit
    simpa using fun h : s.IsUsable => absurd hlimit h.knnLimit
  split
  · rename_i hprefix
    simpa using fun h : s.IsUsable => absurd hprefix h.aliasPrefix
  · rename_i hlimit hprefix
    simp [IsUsable.mk hlimit hprefix]

/-- Settings that are read are usable, whatever reads the document. -/
theorem isUsable_of_read {parse : String → Option Node} {document : String} {s : Settings}
    (h : read parse document = .ok s) : s.IsUsable := by
  unfold read at h
  split at h
  · cases h
    exact isUsable_default
  split at h
  · obtain ⟨husable, rfl⟩ := check_eq_ok_iff.1 h
    exact husable
  · cases h

theorem isUsable_of_load {parse : String → Option Node} {path : String} {content : FileContent}
    {s : Settings} (h : load parse path content = .ok s) : s.IsUsable := by
  cases content with
  | missing | unreadable => cases h
  | text document => exact isUsable_of_read h

end Settings

end StorePlan
