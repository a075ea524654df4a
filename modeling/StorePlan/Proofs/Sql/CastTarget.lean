import StorePlan.Proofs.Sql.Phrase
import StorePlan.Sql.CastTarget

/-
The text of a cast target scans by itself, and its brackets are balanced, so
that it ends where the cast does. It is made of few characters, so there is
neither a quote nor a placeholder in it.
-/

namespace StorePlan.Sql

open Lexeme Text

/-- A text that scans by itself with balanced brackets. -/
structure Sound (cs : List Char) : Prop where
  complete : Complete cs
  level : Level [] (ofChars cs)

instance (cs : List Char) : Decidable (Sound cs) :=
  decidable_of_iff (Complete cs ∧ Level [] (ofChars cs))
    ⟨fun h => ⟨h.1, h.2⟩, fun h => ⟨h.complete, h.level⟩⟩

namespace Sound

theorem append {as bs : List Char} (ha : Sound as) (hb : Sound bs) (h : StartsApart bs) :
    Sound (as ++ bs) := by
  obtain ⟨hcomplete, hlexemes⟩ := ha.complete.append hb.complete h
  exact ⟨hcomplete, hlexemes ▸ ha.level.append hb.level⟩

/-- A name applied to what stands in brackets behind it. -/
theorem applied {opening closing : Char} {name content : List Char} (hn : Sound name)
    (hc : Sound content) (ho : opening = '(' ∧ closing = ')' ∨ opening = '[' ∧ closing = ']') :
    Sound (name ++ opening :: content ++ [closing]) := by
  have hopening : Ended [opening] ∧ isBoundary opening = true ∧
      ∃ l, ofChars [opening] = [l] ∧ l.isOpening = true := by
    rcases ho with ⟨rfl, -⟩ | ⟨rfl, -⟩
    · exact ⟨rfl, by decide, .sign "(", rfl, rfl⟩
    · exact ⟨rfl, by decide, .sign "[", rfl, rfl⟩
  have hclosing : Complete [closing] ∧ isBoundary closing = true ∧
      ∃ l, ofChars [closing] = [l] ∧ l.isClosing = true := by
    rcases ho with ⟨-, rfl⟩ | ⟨-, rfl⟩
    · exact ⟨rfl, by decide, .sign ")", rfl, rfl⟩
    · exact ⟨rfl, by decide, .sign "]", rfl, rfl⟩
  obtain ⟨hended, hboundary, o, ho, hisOpening⟩ := hopening
  obtain ⟨hcomplete, hapart, c, hcl, hisClosing⟩ := hclosing
  obtain ⟨hc₁, hl₁⟩ := hc.complete.append hcomplete fun d hd => by cases hd; exact hapart
  obtain ⟨hc₂, hl₂⟩ := hended.append hc₁
  obtain ⟨hc₃, hl₃⟩ := hn.complete.append hc₂ fun d hd => by cases hd; exact hboundary
  rw [List.append_assoc, List.cons_append]
  refine ⟨hc₃, ?_⟩
  rw [show opening :: (content ++ [closing]) = [opening] ++ (content ++ [closing]) from rfl, hl₃,
    hl₂, hl₁, ho, hcl]
  exact hn.level.append (hc.level.bracketed [] hisOpening hisClosing)

theorem nil : Sound [] := ⟨rfl, rfl⟩

theorem digits (n : Nat) : Sound (Text.digits n) := by
  cases hd : Text.digits n with
  | nil => exact absurd hd (digits_ne_nil n)
  | cons c cs =>
    have hall : ∀ d ∈ c :: cs, isDigit d = true := fun d h => isDigit_of_mem_digits (hd ▸ h)
    have hrest : ∀ d ∈ cs, (isWordPart d || d == '.') = true := by
      intro d h
      simp [isWordPart, hall d (by simp [h])]
    obtain ⟨hcomplete, hlexemes⟩ := ofChars_number (hall c (by simp)) hrest
    refine ⟨hcomplete, ?_⟩
    rw [hlexemes]
    exact Level.single rfl rfl rfl

/-- A list of two numbers. -/
theorem pair (m n : Nat) : Sound (Text.digits m ++ ", ".toList ++ Text.digits n) := by
  have hcomma : Ended ", ".toList := rfl
  obtain ⟨hcomplete, hlexemes⟩ := hcomma.append (digits n).complete
  rw [List.append_assoc]
  refine (digits m).append ⟨hcomplete, ?_⟩ fun c hc => by cases hc; decide
  rw [hlexemes]
  exact Level.append (rfl : Level [] [.sign ","]) (digits n).level

/-- A name with pairs of brackets behind it. -/
theorem array {name : List Char} (h : Sound name) (depth : Nat) :
    Sound (name ++ (String.join (List.replicate depth "[]")).toList) := by
  induction depth generalizing name with
  | zero => simpa using h
  | succ depth ih =>
    have hone : Sound (name ++ ['[', ']']) := by
      simpa using h.applied nil (.inr ⟨rfl, rfl⟩)
    simpa [List.replicate_succ, String.join_cons] using ih hone

end Sound

namespace CastTarget

theorem text_eq_token {t : CastTarget} (h : ∀ c ∈ t.token.toList.head?, c ≠ mark) :
    t.text = t.token := by
  unfold text
  cases hlist : t.token.toList with
  | nil => rfl
  | cons c cs =>
    rw [hlist] at h
    exact if_neg (h c rfl)

theorem text_arrayOf {t : CastTarget} (h : t.token ≠ "") (depth : Nat) :
    (t.arrayOf depth).text = t.text ++ String.join (List.replicate depth "[]") := by
  have hne : t.token.toList ≠ [] := fun hnil => h (String.toList_eq_nil_iff.1 hnil)
  cases hlist : t.token.toList with
  | nil => exact absurd hlist hne
  | cons c cs =>
    simp only [text, arrayOf, String.toList_append, hlist, List.cons_append]
    split_ifs
    · rw [String.ofList_append, String.ofList_toList]
    · rfl

end CastTarget

namespace Dialect

/-- The target of a type has a name, which scans by itself. -/
structure SoundTarget (t : CastTarget) : Prop where
  named : t.token ≠ ""
  sound : Sound t.text.toList

theorem soundTarget_alien {name : String} (h : Sound name.toList) :
    SoundTarget (.alien name) := by
  refine ⟨fun hempty => ?_, by rwa [CastTarget.text_alien]⟩
  have := congrArg String.toList hempty
  simp [CastTarget.alien] at this

/-- A standard name does not begin with the mark. -/
theorem soundTarget_standard {name : String} (hname : (name.toList.head?.any isLetter) = true)
    (hmark : name.toList.head? ≠ some CastTarget.mark) (h : Sound name.toList) :
    SoundTarget (.standard name) := by
  have htext : (CastTarget.standard name).text = name :=
    CastTarget.text_eq_token fun c hc hmarked => hmark (hmarked ▸ hc)
  refine ⟨fun hempty => ?_, by rwa [htext]⟩
  have hempty : name = "" := hempty
  subst hempty
  cases hname

/-- The names of types. -/
def typeNames : List String :=
  ["BOOLEAN", "TINYINT", "SMALLINT", "INTEGER", "BIGINT", "DECIMAL", "REAL", "DOUBLE", "CHAR",
   "VARCHAR", "DATE", "TIME", "TIMESTAMP", "INTERVAL", "VARBINARY", "FILE", "IMAGE", "VIDEO",
   "SOUND", "JSON", "ARRAY", "NULL"]

theorem name_mem_typeNames (t : DataType) : t.name ∈ typeNames := by
  cases t with
  | integer w => cases w <;> simp [DataType.name, typeNames]
  | float w => cases w <;> simp [DataType.name, typeNames]
  | multimedia k => cases k <;> simp [DataType.name, typeNames]
  | _ => simp [DataType.name, typeNames]

theorem sound_name (t : DataType) : Sound t.name.toList := by
  have : ∀ name ∈ typeNames, Sound name.toList := by decide
  exact this t.name (name_mem_typeNames t)

theorem soundTarget_name (t : DataType) : SoundTarget (.standard t.name) := by
  have : ∀ name ∈ typeNames, name.toList.head?.any isLetter = true ∧
      name.toList.head? ≠ some CastTarget.mark := by decide
  obtain ⟨hletter, hmark⟩ := this t.name (name_mem_typeNames t)
  exact soundTarget_standard hletter hmark (sound_name t)

theorem soundTarget_ownCastTarget {d : Dialect} {t : DataType} {target : CastTarget}
    (h : d.ownCastTarget? t = some target) : SoundTarget target := by
  unfold ownCastTarget? at h
  split at h <;> cases h
  · exact soundTarget_alien (by decide)
  · exact soundTarget_alien (by decide)
  · exact soundTarget_alien (by decide)
  · exact soundTarget_standard (by decide) (by decide) (by decide)
  · exact soundTarget_alien (by decide)
  · exact soundTarget_standard (by decide) (by decide) (by decide)

theorem SoundTarget.arrayOf {target : CastTarget} (h : SoundTarget target) (depth : Nat) :
    SoundTarget (target.arrayOf depth) := by
  refine ⟨fun hempty => h.named ?_, ?_⟩
  · have := congrArg String.toList hempty
    simp [CastTarget.arrayOf] at this
    simp [this.1]
  · rw [CastTarget.text_arrayOf h.named, String.toList_append]
    exact h.sound.array depth

/-- The target of the innermost type of an array, without brackets. -/
def componentTarget (d : Dialect) (t : DataType) : CastTarget :=
  (d.ownCastTarget? t).getD (.alien (if t.isMultimedia then "BLOB" else t.name))

/-- Arrays of anything but `NULL` have a target. -/
theorem arrayCastTarget_eq_ok {d : Dialect} {t : DataType} {target : CastTarget} :
    d.arrayCastTarget t = .ok target ↔
      t.innermost ≠ .null ∧ (d.componentTarget t.innermost).arrayOf t.depth = target := by
  unfold arrayCastTarget componentTarget
  cases hown : d.ownCastTarget? t.innermost with
  | some own =>
    have hne : t.innermost ≠ .null := by
      intro hnull
      rw [hnull] at hown
      cases d <;> cases hown
    simp [hne]
  | none => cases t.innermost <;> simp [DataType.isMultimedia]

theorem soundTarget_componentTarget (d : Dialect) (t : DataType) :
    SoundTarget (d.componentTarget t) := by
  unfold componentTarget
  cases hown : d.ownCastTarget? t with
  | some own => exact soundTarget_ownCastTarget hown
  | none =>
    rw [Option.getD_none]
    split_ifs
    · exact soundTarget_alien (by decide)
    · exact soundTarget_alien (sound_name t)

theorem soundTarget_arrayCastTarget {d : Dialect} {t : DataType} {target : CastTarget}
    (h : d.arrayCastTarget t = .ok target) : SoundTarget target := by
  obtain ⟨-, rfl⟩ := arrayCastTarget_eq_ok.1 h
  exact (soundTarget_componentTarget d t.innermost).arrayOf t.depth

theorem sound_interval (q : IntervalQualifier) : Sound ("INTERVAL " ++ q.text).toList := by
  cases q <;> decide

/-- A standard name with numbers in brackets. -/
theorem soundTarget_applied {text : String} (c : Char) (name : List Char) {content : List Char}
    (htext : text.toList = c :: name ++ '(' :: content ++ [')']) (hletter : isLetter c = true)
    (hmark : c ≠ CastTarget.mark) (hname : Sound (c :: name)) (hcontent : Sound content) :
    SoundTarget (.standard text) := by
  refine soundTarget_standard ?_ ?_ ?_
  · simp [htext, hletter]
  · simpa [htext] using hmark
  · rw [htext]
    exact hname.applied hcontent (.inl ⟨rfl, rfl⟩)

theorem soundTarget_standardCastTarget {d : Dialect} {t : DataType} {target : CastTarget}
    (h : d.standardCastTarget t = .ok target) : SoundTarget target := by
  match t with
  | .decimal (some p) (some s) =>
    cases h
    exact soundTarget_applied 'D' "ECIMAL".toList
      (by simp [natText]; rfl) (by decide) (by decide) (by decide) (.pair _ _)
  | .decimal (some p) none =>
    cases h
    exact soundTarget_applied 'D' "ECIMAL".toList
      (by simp [natText]; rfl) (by decide) (by decide) (by decide) (.digits _)
  | .char (some n) =>
    cases h
    exact soundTarget_applied 'C' "HAR".toList
      (by simp [natText]; rfl) (by decide) (by decide) (by decide) (.digits _)
  | .string (some n) =>
    cases h
    exact soundTarget_applied 'V' "ARCHAR".toList
      (by simp [natText]; rfl) (by decide) (by decide) (by decide) (.digits _)
  | .interval q =>
    cases h
    exact soundTarget_standard (by simp; decide) (by simp; decide) (sound_interval q)
  | .multimedia kind =>
    cases h
    exact soundTarget_standard (by decide) (by decide) (by decide)
  | .array item => exact soundTarget_arrayCastTarget h
  | .null => cases h
  | .decimal none _ | .char none | .string none | .boolean | .integer _ | .float _ | .date | .time
  | .timestamp | .binary | .json =>
    cases h
    exact soundTarget_name _

/-- A type that is no array has the dialect's own target or the standard one. -/
theorem castTarget_of_depth {d : Dialect} {t : DataType} (hdepth : t.depth = 0) :
    d.castTarget t = (match d.ownCastTarget? t with
      | some own => .ok own
      | none => d.standardCastTarget t) := by
  cases t with
  | array item => cases hdepth
  | _ => rfl

/-- The text of a cast target scans by itself with balanced brackets. -/
theorem sound_castTarget {d : Dialect} {t : DataType} {target : CastTarget}
    (h : d.castTarget t = .ok target) : Sound target.text.toList := by
  unfold castTarget at h
  split at h
  · exact (soundTarget_arrayCastTarget h).sound
  · split at h
    · rename_i own hown
      cases h
      exact (soundTarget_ownCastTarget hown).sound
    · exact (soundTarget_standardCastTarget h).sound

/-! ## Characters -/

/-- Characters of the names of types, and of the numbers in brackets behind them. -/
def isTargetCharacter (c : Char) : Bool := c.isAlpha || isDigit c || "_ ,()".toList.contains c

section Characters

variable {d : Dialect} {t : DataType} {target : CastTarget} {c : Char}

theorem isTargetCharacter_of_mem_natText {n : Nat} (h : c ∈ (natText n).toList) :
    isTargetCharacter c = true := by
  have hdigit : isDigit c = true := isDigit_of_mem_digits (by simpa [natText] using h)
  simp [isTargetCharacter, hdigit]

theorem isTargetCharacter_of_mem_name (h : c ∈ t.name.toList) : isTargetCharacter c = true := by
  have : ∀ name ∈ typeNames, name.toList.all isTargetCharacter = true := by decide
  exact List.all_eq_true.1 (this t.name (name_mem_typeNames t)) c h

theorem all_isTargetCharacter_ownCastTarget (h : d.ownCastTarget? t = some target) :
    target.token.toList.all isTargetCharacter = true := by
  unfold ownCastTarget? at h
  split at h <;> cases h <;> decide

theorem all_isTargetCharacter_standardCastTarget (h : d.standardCastTarget t = .ok target)
    (hdepth : t.depth = 0) : target.token.toList.all isTargetCharacter = true := by
  have hnumber (n : Nat) : (natText n).toList.all isTargetCharacter = true :=
    List.all_eq_true.2 fun _ => isTargetCharacter_of_mem_natText
  have happlied {name content : String} (hname : name.toList.all isTargetCharacter = true)
      (hcontent : content.toList.all isTargetCharacter = true) :
      (name ++ content ++ ")").toList.all isTargetCharacter = true := by
    simp only [String.toList_append, List.all_append, hname, hcontent]
    decide
  match t with
  | .decimal (some p) (some s) =>
    cases h
    refine happlied ?_ (hnumber _)
    simp only [String.toList_append, List.all_append, hnumber]
    decide
  | .decimal (some p) none | .char (some n) | .string (some n) =>
    cases h
    exact happlied (by decide) (hnumber _)
  | .interval q =>
    cases h
    cases q <;> decide
  | .multimedia kind =>
    cases h
    decide
  | .array item => cases hdepth
  | .null => cases h
  | .decimal none _ | .char none | .string none | .boolean | .integer _ | .float _ | .date | .time
  | .timestamp | .binary | .json =>
    cases h
    exact List.all_eq_true.2 fun _ => isTargetCharacter_of_mem_name

/-- What is written is the name without its mark. -/
theorem mem_token_of_mem_text (h : c ∈ target.text.toList) : c ∈ target.token.toList := by
  unfold CastTarget.text at h
  split at h
  · rename_i m cs hcs
    split_ifs at h
    · rw [String.toList_ofList] at h
      exact hcs ▸ List.mem_cons_of_mem m h
    · exact h
  · exact h

/-- The target of a type that is no array holds no square brackets. -/
theorem isTargetCharacter_of_mem_castTarget (h : d.castTarget t = .ok target)
    (hdepth : t.depth = 0) (hc : c ∈ target.text.toList) : isTargetCharacter c = true := by
  have htoken := mem_token_of_mem_text hc
  rw [castTarget_of_depth hdepth] at h
  split at h
  · rename_i own hown
    cases h
    exact List.all_eq_true.1 (all_isTargetCharacter_ownCastTarget hown) c htoken
  · exact List.all_eq_true.1 (all_isTargetCharacter_standardCastTarget h hdepth) c htoken

theorem isTargetCharacter_of_mem_componentTarget (h : c ∈ (d.componentTarget t).token.toList) :
    isTargetCharacter c = true := by
  unfold componentTarget at h
  cases hown : d.ownCastTarget? t with
  | some own =>
    rw [hown] at h
    exact List.all_eq_true.1 (all_isTargetCharacter_ownCastTarget hown) c h
  | none =>
    rw [hown, Option.getD_none, CastTarget.alien, String.toList_ofList, List.mem_cons] at h
    rcases h with rfl | h
    · decide
    split_ifs at h
    · have hall : "BLOB".toList.all isTargetCharacter = true := by decide
      exact List.all_eq_true.1 hall c h
    · exact isTargetCharacter_of_mem_name h

/-- The target of any type holds such characters and square brackets. -/
theorem mem_characters_of_mem_castTarget (h : d.castTarget t = .ok target)
    (hc : c ∈ target.text.toList) : isTargetCharacter c = true ∨ c ∈ "[]".toList := by
  cases t with
  | array item =>
    obtain ⟨-, rfl⟩ := arrayCastTarget_eq_ok.1 h
    have htoken := mem_token_of_mem_text hc
    rw [CastTarget.arrayOf, String.toList_append, String.toList_join, List.mem_append] at htoken
    refine htoken.imp isTargetCharacter_of_mem_componentTarget fun hbrackets => ?_
    obtain ⟨pair, hpair, hc⟩ := List.mem_flatMap.1 hbrackets
    rwa [List.eq_of_mem_replicate hpair] at hc
  | _ => exact .inl (isTargetCharacter_of_mem_castTarget h rfl hc)

/-- Other characters do not occur in the target of any type. -/
theorem not_mem_castTarget (h : d.castTarget t = .ok target) (hc : isTargetCharacter c = false)
    (hbracket : c ∉ "[]".toList) : c ∉ target.text.toList := by
  intro hmem
  rcases mem_characters_of_mem_castTarget h hmem with htrue | hmem
  · rw [hc] at htrue
    cases htrue
  · exact hbracket hmem

end Characters

end Dialect

end StorePlan.Sql
