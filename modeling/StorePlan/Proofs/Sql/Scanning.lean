import Mathlib
import StorePlan.Sql.Lexeme
import StorePlan.Sql.Token

/-
How texts scan when they are put together. A text is complete if it ends
neither inside of quotes nor inside of a comment; the lexemes of two complete
texts, one behind the other, are those of the first and those of the second,
provided that the second begins with a blank, a bracket or a comma, or that
the first ends with one.

The places of lexemes do not matter for this: `run` scans as if every
character stood at the origin, and `ofText?_eq` says that the lexemes are the
same.
-/

namespace StorePlan.Sql.Lexeme

open Text

/-- The lexemes of a text without their places, unless a quote is never closed. -/
def ofText? (s : String) : Option (List Lexeme) :=
  (scan s).toOption.map (·.map (·.lexeme))

def origin : Position := ⟨1, 1⟩

namespace Mode

/-- The mode as if what is being read had started at the origin. -/
def moved : Mode → Mode
  | word _ read => word origin read
  | number _ read => number origin read
  | comparison _ read => comparison origin read
  | quoted quote _ read => quoted quote origin read
  | quoteSeen quote _ read => quoteSeen quote origin read
  | minus _ => minus origin
  | slash _ => slash origin
  | mode => mode

/-- The lexeme that the end of the text completes, if it is no fault. -/
def pending : Mode → List Lexeme
  | word _ read => [.word (String.ofList read.reverse)]
  | number _ read => [.number (String.ofList read.reverse)]
  | comparison _ read => [.sign (String.ofList read.reverse)]
  | quoteSeen quote _ read => [.quoted quote (String.ofList read.reverse)]
  | minus _ => [.sign "-"]
  | slash _ => [.sign "/"]
  | _ => []

/-- Whether neither a quote nor a comment is open. -/
def isClosed : Mode → Bool
  | quoted .. | lineComment | blockComment _ => false
  | quoteSeen quote .. => quote == nameQuote || quote == stringQuote
  | _ => true

end Mode

/-- Scanning as if every character stood at the origin. -/
def run : Mode → List Char → List Lexeme × Mode
  | mode, [] => ([], mode)
  | mode, c :: cs =>
    let (done, next) := step mode origin c
    let (more, last) := run next cs
    (done.map (·.lexeme) ++ more, last)

theorem start_moved (p : Position) (c : Char) :
    (start p c).1.map (·.lexeme) = (start origin c).1.map (·.lexeme) ∧
      (start p c).2.moved = (start origin c).2 := by
  unfold start
  split_ifs <;> simp [Mode.moved]

theorem before_moved {l l' : Located} (h : l.lexeme = l'.lexeme) (p : Position) (c : Char) :
    (before l p c).1.map (·.lexeme) = (before l' origin c).1.map (·.lexeme) ∧
      (before l p c).2.moved = (before l' origin c).2 := by
  obtain ⟨hs, hm⟩ := start_moved p c
  exact ⟨by simp [before, hs, h], by simp [before, hm]⟩

/-- A step does not depend on places. -/
theorem step_moved (m : Mode) (p : Position) (c : Char) :
    (step m p c).1.map (·.lexeme) = (step m.moved origin c).1.map (·.lexeme) ∧
      (step m p c).2.moved = (step m.moved origin c).2 := by
  cases m with
  | between => exact start_moved p c
  | lineComment => constructor <;> simp [step, Mode.moved]; split_ifs <;> rfl
  | blockComment starSeen => constructor <;> simp [step, Mode.moved]; split_ifs <;> rfl
  | quoted quote s read => simp only [step, Mode.moved]; split_ifs <;> simp
  | word | number | comparison | quoteSeen | minus | slash =>
    simp only [step, Mode.moved]
    split_ifs
    · simp
    · exact before_moved rfl p c

theorem scanFrom_eq (m : Mode) (p : Position) (cs : List Char) :
    (scanFrom m p cs).toOption.map (·.map (·.lexeme)) =
      (finish (run m.moved cs).2).toOption.map fun last =>
        (run m.moved cs).1 ++ last.map (·.lexeme) := by
  -- One step with positions is one step without them from the moved mode.
  induction cs generalizing m p with
  | nil => cases m <;> rfl
  | cons c cs ih =>
    obtain ⟨hdone, hnext⟩ := step_moved m p c
    have ih := ih (step m p c).2 (p.next c)
    rw [hnext] at ih
    rw [scanFrom, run]
    simp only
    cases hrest : scanFrom (step m p c).2 (p.next c) cs with
    | error e =>
      rw [hrest] at ih
      cases hf : finish (run (step m.moved origin c).2 cs).2 with
      | error => rfl
      | ok last => rw [hf] at ih; cases ih
    | ok rest =>
      rw [hrest] at ih
      cases hf : finish (run (step m.moved origin c).2 cs).2 with
      | error => rw [hf] at ih; cases ih
      | ok last =>
        rw [hf] at ih
        have ih : rest.map (·.lexeme) = _ := Option.some.inj ih
        simp [bind, Except.bind, pure, Except.pure, Except.toOption, hdone, ih]

/-! ## Complete texts -/

/-- The text ends neither inside of quotes nor inside of a comment. -/
def Complete (cs : List Char) : Prop := (run .between cs).2.isClosed = true

instance (cs : List Char) : Decidable (Complete cs) := inferInstanceAs (Decidable (_ = _))

/-- The lexemes of a complete text. -/
def ofChars (cs : List Char) : List Lexeme :=
  (run .between cs).1 ++ (run .between cs).2.pending

theorem finish_of_isClosed {m : Mode} (h : m.isClosed = true) :
    (finish m).toOption.map (·.map (·.lexeme)) = some m.pending := by
  cases m <;> first | rfl | cases h

theorem ofText?_eq {s : String} (h : Complete s.toList) : ofText? s = some (ofChars s.toList) := by
  have := scanFrom_eq .between origin s.toList
  have hf := finish_of_isClosed h
  rw [ofText?, scan, ← origin, this]
  cases hlast : finish (run Mode.between.moved s.toList).2 with
  | error e =>
    rw [show Mode.between.moved = .between from rfl] at hlast
    rw [hlast] at hf
    cases hf
  | ok last =>
    rw [show Mode.between.moved = .between from rfl] at hlast ⊢
    rw [hlast] at hf
    have hf : last.map (·.lexeme) = _ := Option.some.inj hf
    simp [Except.toOption, hf, ofChars]

/-! ## Texts put together -/

/-- A character that ends whatever is being read, unless that is quoted. -/
def isBoundary (c : Char) : Bool := isBlank c || "(),[]".toList.contains c

/-- What may follow a complete text: the end, or a boundary. -/
def StartsApart (cs : List Char) : Prop := ∀ c ∈ cs.head?, isBoundary c = true

theorem run_cons (m : Mode) (c : Char) (cs : List Char) :
    run m (c :: cs) =
      ((step m origin c).1.map (·.lexeme) ++ (run (step m origin c).2 cs).1,
        (run (step m origin c).2 cs).2) := rfl

theorem run_append (m : Mode) (as bs : List Char) :
    run m (as ++ bs) =
      ((run m as).1 ++ (run (run m as).2 bs).1, (run (run m as).2 bs).2) := by
  induction as generalizing m with
  | nil => rfl
  | cons a as ih => simp [run, ih]

theorem isWordPart_of_isBlank {c : Char} (h : isBlank c = true) : isWordPart c = false := by
  have hrange : c.toNat ≤ 32 ∨ 128 ≤ c.toNat := by
    simp only [isBlank, Bool.or_eq_true, Bool.and_eq_true, decide_eq_true_eq, beq_iff_eq] at h
    omega
  have hval : c.toNat = c.val.toNat := rfl
  have halpha : c.isAlpha = false := by
    simp [Char.isAlpha, Char.isUpper, Char.isLower, UInt32.le_iff_toNat_le]
    omega
  have hdigit : isDigit c = false := by
    simp [isDigit, Char.le_def, UInt32.le_iff_toNat_le]
    omega
  have hne : ∀ d : Char, isBlank d = false → (c == d) = false := by
    intro d hd
    rw [beq_eq_false_iff_ne]
    rintro rfl
    rw [h] at hd
    cases hd
  simp [isWordPart, isLetter, halpha, hdigit, h, hne '_' rfl, hne '$' rfl, hne '#' rfl, hne '@' rfl]

/-- A boundary belongs to nothing that is being read. -/
theorem apart_of_isBoundary {c : Char} (h : isBoundary c = true) :
    isWordPart c = false ∧ isComparison c = false ∧ c ∉ ['\'', '"', '.', '-', '*'] := by
  rw [isBoundary, Bool.or_eq_true] at h
  rcases h with h | h
  · have hne : ∀ d : Char, isBlank d = false → c ≠ d := by
      rintro d hd rfl
      rw [h] at hd
      cases hd
    refine ⟨isWordPart_of_isBlank h, ?_, ?_⟩
    · have hall : "<>=!|:&~^".toList.all (!isBlank ·) = true := by decide
      rw [isComparison, List.contains_eq_mem, decide_eq_false_iff_not]
      exact fun hc => hne c (by simpa using List.all_eq_true.1 hall c hc) rfl
    · have hall : ['\'', '"', '.', '-', '*'].all (!isBlank ·) = true := by decide
      exact fun hc => hne c (by simpa using List.all_eq_true.1 hall c hc) rfl
  · have hall : "(),[]".toList.all (fun d => decide (isWordPart d = false ∧
        isComparison d = false ∧ d ∉ ['\'', '"', '.', '-', '*'])) = true := by decide
    exact of_decide_eq_true (List.all_eq_true.1 hall c (List.contains_iff_mem.1 h))

/-- A boundary does not continue what is being read. -/
theorem step_of_isBoundary {m : Mode} {c : Char} (hm : m.isClosed = true)
    (hc : isBoundary c = true) :
    (step m origin c).1.map (·.lexeme) = m.pending ++ (start origin c).1.map (·.lexeme) ∧
      (step m origin c).2 = (start origin c).2 := by
  obtain ⟨hword, hcomparison, hne⟩ := apart_of_isBoundary hc
  simp only [List.mem_cons, List.not_mem_nil, or_false, not_or] at hne
  obtain ⟨hstring, hname, hpoint, hminus, hstar⟩ := hne
  cases m with
  | between => exact ⟨rfl, rfl⟩
  | quoteSeen quote s read =>
    have hquote : c ≠ quote := by
      rintro rfl
      simp only [Mode.isClosed, Bool.or_eq_true, beq_iff_eq] at hm
      exact hm.elim hname hstring
    simp [step, hquote, before, ofRead, Mode.pending]
  | quoted | lineComment | blockComment => cases hm
  | word | number | comparison | minus | slash =>
    simp [step, hword, hcomparison, hpoint, hminus, hstar, before, ofRead, Mode.pending]

theorem run_of_startsApart {m : Mode} {cs : List Char} (hm : m.isClosed = true)
    (hcs : StartsApart cs) :
    (run m cs).1 ++ (run m cs).2.pending = m.pending ++ ofChars cs ∧
      ((run m cs).2.isClosed = true ↔ Complete cs) := by
  cases cs with
  | nil => exact ⟨by simp [run, ofChars, Mode.pending], ⟨fun _ => rfl, fun _ => hm⟩⟩
  | cons c cs =>
    obtain ⟨hdone, hnext⟩ := step_of_isBoundary hm (hcs c rfl)
    have hbetween : step .between origin c = start origin c := rfl
    constructor
    · simp only [ofChars, run_cons, hdone, hnext, hbetween, List.append_assoc]
    · rw [run_cons, Complete, run_cons, hnext, hbetween]

/-- A text that starts apart adds its lexemes. -/
theorem Complete.append {as bs : List Char} (ha : Complete as) (hb : Complete bs)
    (hapart : StartsApart bs) :
    Complete (as ++ bs) ∧ ofChars (as ++ bs) = ofChars as ++ ofChars bs := by
  obtain ⟨hlexemes, hclosed⟩ := run_of_startsApart ha hapart
  refine ⟨?_, ?_⟩
  · rw [Complete, run_append]
    exact hclosed.2 hb
  · rw [ofChars, run_append]
    simp only [List.append_assoc]
    rw [hlexemes, ← List.append_assoc, ← ofChars]

/-- Nothing of the text can be continued by what follows. -/
def Ended (cs : List Char) : Prop := (run .between cs).2 = .between

theorem Ended.complete {cs : List Char} (h : Ended cs) : Complete cs := by
  rw [Complete, h]
  rfl

/-- Behind a text that is ended, any text adds its lexemes. -/
theorem Ended.append {as bs : List Char} (ha : Ended as) (hb : Complete bs) :
    Complete (as ++ bs) ∧ ofChars (as ++ bs) = ofChars as ++ ofChars bs := by
  refine ⟨?_, ?_⟩
  · rw [Complete, run_append, ha]
    exact hb
  · rw [ofChars, run_append, ofChars, ha, List.append_assoc]
    simp [Mode.pending, ofChars]

/-! ## Single lexemes -/

theorem run_doubleQuotes (quote : Char) (read cs : List Char) :
    run (.quoted quote origin read) (doubleQuotes quote cs) =
      ([], .quoted quote origin (cs.reverse ++ read)) := by
  induction cs generalizing read with
  | nil => rfl
  | cons c cs ih =>
    rw [doubleQuotes]
    split_ifs with h
    · subst h
      simp [run_cons, step, ih]
    · simp [run_cons, step, h, ih]

theorem run_enclosed {quote : Char} (h : quote = nameQuote ∨ quote = stringQuote) (s : String) :
    run .between (enclosed quote s).toList = ([], .quoteSeen quote origin s.toList.reverse) := by
  have hstart : step .between origin quote = ([], .quoted quote origin []) := by
    rcases h with rfl | rfl <;> rfl
  rw [enclosed, String.toList_ofList, List.cons_append, run_cons, hstart, run_append,
    run_doubleQuotes]
  simp [step, run]

/-- A text in quotes is one lexeme, the text as it was. -/
theorem ofChars_enclosed {quote : Char} (h : quote = nameQuote ∨ quote = stringQuote) (s : String) :
    Complete (enclosed quote s).toList ∧
      ofChars (enclosed quote s).toList = [.quoted quote s] := by
  refine ⟨?_, ?_⟩
  · rw [Complete, run_enclosed h]
    rcases h with rfl | rfl <;> rfl
  · simp [ofChars, run_enclosed h, Mode.pending]

/-- A minus sign is a lexeme of its own, unless another one follows. -/
theorem ofChars_minus {cs : List Char} (h : Complete cs) (hne : ∀ c ∈ cs.head?, c ≠ '-') :
    Complete ('-' :: cs) ∧ ofChars ('-' :: cs) = .sign "-" :: ofChars cs := by
  cases cs with
  | nil => exact ⟨rfl, rfl⟩
  | cons c cs =>
    have hstep : step (.minus origin) origin c = before ⟨.sign "-", origin⟩ origin c :=
      if_neg (hne c rfl)
    have hrun : run .between ('-' :: c :: cs) =
        (.sign "-" :: (run .between (c :: cs)).1, (run .between (c :: cs)).2) := by
      rw [run_cons, show step .between origin '-' = ([], .minus origin) from rfl, run_cons, hstep]
      rfl
    exact ⟨by rwa [Complete, hrun], by rw [ofChars, hrun]; rfl⟩

/-- A letter and what may follow it in a word. -/
def IsWord (cs : List Char) : Prop :=
  cs.head?.any isLetter = true ∧ cs.all isWordPart = true

instance (cs : List Char) : Decidable (IsWord cs) := inferInstanceAs (Decidable (_ ∧ _))

theorem run_word (read cs : List Char) (h : cs.all isWordPart = true) :
    run (.word origin read) cs = ([], .word origin (cs.reverse ++ read)) := by
  induction cs generalizing read with
  | nil => rfl
  | cons c cs ih =>
    rw [List.all_cons, Bool.and_eq_true] at h
    simp [run_cons, step, h.1, ih _ h.2]

theorem not_isBlank_of_isLetter {c : Char} (h : isLetter c = true) : isBlank c = false := by
  cases hb : isBlank c with
  | false => rfl
  | true =>
    have := isWordPart_of_isBlank hb
    simp [isWordPart, h] at this

/-- A word is one lexeme. -/
theorem ofChars_word {cs : List Char} (h : IsWord cs) :
    Complete cs ∧ ofChars cs = [.word (String.ofList cs)] := by
  obtain ⟨hletter, hall⟩ := h
  cases cs with
  | nil => cases hletter
  | cons c cs =>
    have hletter : isLetter c = true := hletter
    rw [List.all_cons, Bool.and_eq_true] at hall
    have hblank := not_isBlank_of_isLetter hletter
    have hquote : c ≠ '\'' ∧ c ≠ '"' := by
      constructor <;> rintro rfl <;> revert hletter <;> decide
    have hstart : step .between origin c = ([], .word origin [c]) := by
      simp [step, start, hblank, hquote, hletter]
    have hrun : run .between (c :: cs) = ([], .word origin (cs.reverse ++ [c])) := by
      rw [run_cons, hstart, run_word _ _ hall.2]
      rfl
    refine ⟨?_, ?_⟩
    · rw [Complete, hrun]
      rfl
    · simp [ofChars, hrun, Mode.pending]

/-- Behind a digit, whatever may stand in a number is part of it. -/
theorem run_number (read cs : List Char) (h : ∀ c ∈ cs, (isWordPart c || c == '.') = true) :
    run (.number origin read) cs = ([], .number origin (cs.reverse ++ read)) := by
  induction cs generalizing read with
  | nil => rfl
  | cons c cs ih =>
    rw [List.forall_mem_cons] at h
    have hstep : step (.number origin read) origin c = ([], .number origin (c :: read)) :=
      if_pos h.1
    rw [run_cons, hstep, ih _ h.2]
    simp

theorem start_of_isDigit {c : Char} (h : isDigit c = true) :
    start origin c = ([], .number origin [c]) := by
  -- Letters and blanks are ranges of code points, none of which meets that of the digits.
  have hrange : '0'.toNat ≤ c.toNat ∧ c.toNat ≤ '9'.toNat := by
    simpa [isDigit, Char.le_def, UInt32.le_iff_toNat_le] using h
  have hval : c.toNat = c.val.toNat := rfl
  have hzero : '0'.toNat = 48 := rfl
  have hnine : '9'.toNat = 57 := rfl
  have hblank : isBlank c = false := by
    simp only [isBlank, Bool.or_eq_false_iff, Bool.and_eq_false_iff, decide_eq_false_iff_not,
      beq_eq_false_iff_ne]
    omega
  have hline : c ≠ '_' := by
    rintro rfl
    revert h
    decide
  have hletter : isLetter c = false := by
    simp [isLetter, Char.isAlpha, Char.isUpper, Char.isLower, UInt32.le_iff_toNat_le, hline]
    omega
  have hquote : ¬(c = '\'' ∨ c = '"') := by
    rintro (rfl | rfl) <;> revert h <;> decide
  simp [start, hblank, hletter, hquote, h]

theorem run_number_of_isDigit {c : Char} {cs : List Char} (hc : isDigit c = true)
    (h : ∀ d ∈ cs, (isWordPart d || d == '.') = true) :
    run .between (c :: cs) = ([], .number origin (cs.reverse ++ [c])) := by
  rw [run_cons, show step .between origin c = start origin c from rfl, start_of_isDigit hc,
    run_number _ _ h]
  rfl

/-- Digits, and what may stand behind them in a number, are one lexeme. -/
theorem ofChars_number {c : Char} {cs : List Char} (hc : isDigit c = true)
    (h : ∀ d ∈ cs, (isWordPart d || d == '.') = true) :
    Complete (c :: cs) ∧ ofChars (c :: cs) = [.number (String.ofList (c :: cs))] := by
  have hrun := run_number_of_isDigit hc h
  exact ⟨by rw [Complete, hrun]; rfl, by simp [ofChars, hrun, Mode.pending]⟩

/-- A number ends in front of what cannot stand in it. -/
theorem ofChars_number_append {c s : Char} {cs ds : List Char} (hc : isDigit c = true)
    (h : ∀ d ∈ cs, (isWordPart d || d == '.') = true) (hs : (isWordPart s || s == '.') = false)
    (hd : Complete (s :: ds)) :
    Complete (c :: cs ++ s :: ds) ∧
      ofChars (c :: cs ++ s :: ds) = .number (String.ofList (c :: cs)) :: ofChars (s :: ds) := by
  have hstep (read : List Char) : step (.number origin read) origin s =
      before (ofRead .number origin read) origin s := if_neg (by simp [hs])
  have hrun : run .between (c :: cs ++ s :: ds) =
      (.number (String.ofList (c :: cs)) :: (run .between (s :: ds)).1,
        (run .between (s :: ds)).2) := by
    rw [run_append, run_number_of_isDigit hc h]
    simp only [run_cons, hstep, before, ofRead]
    simp [step]
  exact ⟨by rwa [Complete, hrun], by rw [ofChars, hrun]; rfl⟩

/-! ## Signs -/

/-- The characters read so far of what may become a sign. -/
def Mode.signs : Mode → List Char
  | comparison _ read => read
  | minus _ => ['-']
  | slash _ => ['/']
  | _ => []

section Signs

variable {c x : Char}

theorem sign_eq_ofRead {start : Position} {read : List Char}
    (h : sign (String.singleton c) = (ofRead .sign start read).lexeme) : c ∈ read := by
  have hread : [c] = read.reverse := by
    simpa [ofRead] using congrArg String.toList (sign.inj h)
  exact List.mem_reverse.1 (hread ▸ List.mem_singleton_self c)

theorem eq_of_start (h : sign (String.singleton c) ∈ (start origin x).1.map (·.lexeme) ∨
    c ∈ (start origin x).2.signs) : c = x := by
  unfold start at h
  split_ifs at h <;> simp_all [Mode.signs, String.ext_iff]

/-- A sign of one character is completed only behind that character. -/
theorem mem_signs_of_step (m : Mode)
    (h : sign (String.singleton c) ∈ (step m origin x).1.map (·.lexeme) ∨
      c ∈ (step m origin x).2.signs) : c ∈ m.signs ∨ c = x := by
  have hbefore {done : Located} (hdone : sign (String.singleton c) = done.lexeme → c ∈ m.signs)
      (h : sign (String.singleton c) ∈ (before done origin x).1.map (·.lexeme) ∨
        c ∈ (before done origin x).2.signs) : c ∈ m.signs ∨ c = x := by
    rw [before, List.map_cons, List.mem_cons, or_assoc] at h
    exact h.imp hdone eq_of_start
  cases m with
  | between => exact .inr (eq_of_start h)
  | comparison s read =>
    simp only [step] at h
    split_ifs at h
    · simpa [Mode.signs, or_comm] using h
    · exact hbefore sign_eq_ofRead h
  | minus s =>
    simp only [step] at h
    split_ifs at h
    · simp [Mode.signs] at h
    · exact hbefore (fun h => by simpa [Mode.signs, String.ext_iff] using h) h
  | slash s =>
    simp only [step] at h
    split_ifs at h
    · simp [Mode.signs] at h
    · exact hbefore (fun h => by simpa [Mode.signs, String.ext_iff] using h) h
  | word s read | number s read | quoteSeen quote s read =>
    simp only [step] at h
    split_ifs at h
    · simp [Mode.signs] at h
    · exact hbefore (fun h => by simp [ofRead] at h) h
  | quoted quote s read =>
    simp only [step] at h
    split_ifs at h <;> simp [Mode.signs] at h
  | lineComment =>
    simp only [step] at h
    split_ifs at h <;> simp [Mode.signs] at h
  | blockComment starSeen =>
    simp only [step] at h
    split_ifs at h <;> simp [Mode.signs] at h

theorem mem_signs_of_run {cs : List Char} (m : Mode)
    (h : sign (String.singleton c) ∈ (run m cs).1 ++ (run m cs).2.pending) :
    c ∈ m.signs ∨ c ∈ cs := by
  induction cs generalizing m with
  | nil =>
    refine .inl ?_
    cases m with
    | comparison s read =>
      have hread : sign (String.singleton c) = (ofRead .sign s read).lexeme := by
        simpa [run, Mode.pending, ofRead] using h
      exact sign_eq_ofRead hread
    | _ => simp_all [run, Mode.pending, Mode.signs, String.ext_iff]
  | cons x cs ih =>
    rw [run_cons, List.append_assoc, List.mem_append] at h
    rcases h with h | h
    · rcases mem_signs_of_step m (.inl h) with h | rfl
      · exact .inl h
      · exact .inr List.mem_cons_self
    · rcases ih _ h with h | h
      · rcases mem_signs_of_step m (.inr h) with h | rfl
        · exact .inl h
        · exact .inr List.mem_cons_self
      · exact .inr (List.mem_cons_of_mem x h)

/-- A sign of one character is a character of the text. -/
theorem mem_of_sign_mem_ofChars {cs : List Char} (h : sign (String.singleton c) ∈ ofChars cs) :
    c ∈ cs := by
  have hmem : c ∈ Mode.between.signs ∨ c ∈ cs := mem_signs_of_run .between h
  exact hmem.resolve_left (by simp [Mode.signs])

end Signs

end StorePlan.Sql.Lexeme
