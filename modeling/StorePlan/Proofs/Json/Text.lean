import StorePlan.Json.Reading
import StorePlan.Proofs.Number.Text

/-
The text of a JSON document determines the document, as far as its numbers are
integers and finite numbers of 64 bits.

What follows the text of a number has to be known to tell where it ends, so this
is proved of a text with more behind it that cannot belong to a number
(`Json.text_append_inj`). The first character tells what a document is, and the
reader takes back what is escaped in strings (`Json.readString?_escaped`).
-/

namespace StorePlan.Json

open Number Text

/-! ## Strings -/

/-- An escaped character is read back; any other is no quote and no backslash. -/
theorem escapedChar_cases (c : Char) :
    (∃ cs, escapedChar c = '\\' :: cs ∧ ∀ rest, readEscaped? (cs ++ rest) = some (c, rest)) ∨
      (escapedChar c = [c] ∧ c ≠ '"' ∧ c ≠ '\\') := by
  have hcoded : ∀ n < 32, readBase? 16 ['0', '0', hexDigit (n / 16), hexDigit (n % 16)] =
      some n := by decide
  unfold escapedChar
  split
  case h_8 hquote hslash _ _ _ _ _ =>
    split_ifs with hcontrol
    · refine .inl ⟨_, rfl, fun rest => ?_⟩
      have hsmall : ¬0xd800 ≤ c.toNat ∧ ¬0xdc00 ≤ c.toNat := by omega
      simp [readEscaped?, readCoded?, readUnit?, hcoded c.toNat hcontrol, hsmall]
    · exact .inr ⟨rfl, hquote, hslash⟩
  all_goals exact .inl ⟨_, rfl, fun _ => rfl⟩

/-- The reader takes back what is written for characters, up to the quote behind them. -/
theorem readString?_escaped (cs read rest : List Char) {fuel : Nat} (h : cs.length ≤ fuel) :
    readString? fuel read (cs.flatMap escapedChar ++ '"' :: rest) =
      some (String.ofList (read.reverse ++ cs), rest) := by
  induction cs generalizing read fuel with
  | nil => simp [readString?]
  | cons c cs ih =>
    obtain ⟨fuel, rfl⟩ : ∃ k, fuel = k + 1 := ⟨fuel - 1, by simp at h; omega⟩
    have hfuel : cs.length ≤ fuel := by simpa using h
    have hrest := ih (c :: read) hfuel
    rw [List.flatMap_cons, List.append_assoc]
    rcases escapedChar_cases c with ⟨escape, hescape, hread⟩ | ⟨hplain, hquote, hslash⟩
    · rw [hescape, List.cons_append, readString?, hread]
      · simpa using hrest
    · rw [hplain, List.singleton_append, readString?]
      · simpa using hrest
      · simpa using hquote
      · simpa using hslash

/-- A string in quotes ends where its second quote is. -/
theorem stringText_append_inj {s t : String} {as bs : List Char}
    (h : (stringText s).toList ++ as = (stringText t).toList ++ bs) : s = t ∧ as = bs := by
  simp only [stringText, String.toList_ofList, List.cons_append, List.append_assoc,
    List.cons.injEq, List.nil_append, true_and] at h
  have hs := readString?_escaped s.toList [] as (Nat.le_max_left s.toList.length t.toList.length)
  have ht := readString?_escaped t.toList [] bs (Nat.le_max_right s.toList.length t.toList.length)
  rw [h, ht] at hs
  simpa [eq_comm] using hs

/-! ## Lists -/

section Lists

variable {α : Type} {chars : α → List Char} {close : Char} {xs ys : List α} {as bs : List Char}

theorem intercalate_cons (x : α) (xs : List α) :
    [','].intercalate ((x :: xs).map chars) =
      chars x ++ xs.flatMap fun x => ',' :: chars x := by
  induction xs generalizing x with
  | nil => simp
  | cons y ys ih =>
    have hrest := ih y
    rw [List.map_cons, List.map_cons, List.intercalate_cons_cons, ← List.map_cons, hrest]
    simp

/-- The texts of two items, with what may follow them, agree for one item only. -/
def Parts (chars : α → List Char) (xs ys : List α) : Prop :=
  ∀ x ∈ xs, ∀ y ∈ ys, ∀ as bs, chars x ++ as = chars y ++ bs → Stops isNumberPart as →
    Stops isNumberPart bs → x = y ∧ as = bs

theorem stops_flatMap (hclose : isNumberPart close = false) :
    Stops isNumberPart ((xs.flatMap fun x => ',' :: chars x) ++ close :: as) := by
  cases xs with
  | nil => exact stops_cons hclose
  | cons x xs => exact stops_cons (by decide)

theorem flatMap_append_inj (hne : close ≠ ',') (hclose : isNumberPart close = false)
    (hparts : Parts chars xs ys)
    (h : (xs.flatMap fun x => ',' :: chars x) ++ close :: as =
      (ys.flatMap fun y => ',' :: chars y) ++ close :: bs) : xs = ys ∧ as = bs := by
  induction xs generalizing ys with
  | nil =>
    cases ys with
    | nil => simpa using h
    | cons y ys => exact absurd (List.cons.inj h).1 hne
  | cons x xs ih =>
    cases ys with
    | nil => exact absurd (List.cons.inj h).1.symm hne
    | cons y ys =>
      simp only [List.flatMap_cons, List.cons_append, List.append_assoc, List.cons.injEq,
        true_and] at h
      obtain ⟨rfl, hrest⟩ := hparts x List.mem_cons_self y List.mem_cons_self _ _ h
        (stops_flatMap hclose) (stops_flatMap hclose)
      obtain ⟨rfl, rfl⟩ := ih (fun x hx y hy => hparts x (List.mem_cons_of_mem _ hx) y
        (List.mem_cons_of_mem _ hy)) hrest
      exact ⟨rfl, rfl⟩

/-- A list ends at its closing bracket, with which no item starts. -/
theorem intercalate_append_inj (hne : close ≠ ',') (hclose : isNumberPart close = false)
    (hxs : ∀ x ∈ xs, ∃ c cs, chars x = c :: cs ∧ c ≠ close)
    (hys : ∀ y ∈ ys, ∃ c cs, chars y = c :: cs ∧ c ≠ close) (hparts : Parts chars xs ys)
    (h : [','].intercalate (xs.map chars) ++ close :: as =
      [','].intercalate (ys.map chars) ++ close :: bs) : xs = ys ∧ as = bs := by
  cases xs with
  | nil =>
    cases ys with
    | nil => simpa using h
    | cons y ys =>
      obtain ⟨c, cs, hy, hc⟩ := hys y List.mem_cons_self
      rw [intercalate_cons, hy] at h
      exact absurd (List.cons.inj h).1.symm hc
  | cons x xs =>
    cases ys with
    | nil =>
      obtain ⟨c, cs, hx, hc⟩ := hxs x List.mem_cons_self
      rw [intercalate_cons, hx] at h
      exact absurd (List.cons.inj h).1 hc
    | cons y ys =>
      rw [intercalate_cons, intercalate_cons, List.append_assoc, List.append_assoc] at h
      obtain ⟨rfl, hrest⟩ := hparts x List.mem_cons_self y List.mem_cons_self _ _ h
        (stops_flatMap hclose) (stops_flatMap hclose)
      obtain ⟨rfl, rfl⟩ := flatMap_append_inj hne hclose (fun x hx y hy =>
        hparts x (List.mem_cons_of_mem _ hx) y (List.mem_cons_of_mem _ hy)) hrest
      exact ⟨rfl, rfl⟩

end Lists

/-! ## Documents -/

/-- All numbers in the document are integers or finite numbers of 64 bits. -/
inductive IsExact : Json → Prop where
  | null : IsExact null
  | bool (b : Bool) : IsExact (bool b)
  | integer (i : Int) : IsExact (integer i)
  | double {x : Double} : x.isFinite = true → IsExact (double x)
  | string (s : String) : IsExact (string s)
  | array {items : List Json} : (∀ j ∈ items, IsExact j) → IsExact (array items)
  | object {fields : List (String × Json)} : (∀ field ∈ fields, IsExact field.2) →
    IsExact (object fields)

/-- What a document is at its outermost. -/
inductive Shape where
  | null
  | bool
  | number
  | string
  | array
  | object
deriving DecidableEq

def shape : Json → Shape
  | null => .null
  | bool _ => .bool
  | integer _ | single _ | double _ => .number
  | string _ => .string
  | array _ => .array
  | object _ => .object

/-- What the first character of a text tells about it. -/
def Shape.ofChar? (c : Char) : Option Shape :=
  match c with
  | 'n' => some .null
  | 't' | 'f' => some .bool
  | '"' => some .string
  | '[' => some .array
  | '\x7b' => some .object
  | c => if isDigit c || c == '-' then some .number else none

theorem Shape.ofChar?_of_isDigit {c : Char} (h : isDigit c = true) : ofChar? c = some .number := by
  unfold ofChar?
  split <;> first | exact absurd h (by decide) | simp [h]

theorem texts_eq_map (items : List Json) : texts items = items.map text := by
  induction items with
  | nil => rfl
  | cons j rest ih => rw [texts, ih, List.map_cons]

/-- The characters of a field. -/
def fieldChars (field : String × Json) : List Char :=
  (stringText field.1).toList ++ ':' :: field.2.text.toList

theorem fieldTexts_eq_map (fields : List (String × Json)) :
    (fieldTexts fields).map String.toList = fields.map fieldChars := by
  induction fields with
  | nil => rfl
  | cons field rest ih =>
    obtain ⟨name, j⟩ := field
    simp [fieldTexts, fieldChars, ih, String.toList_append]

theorem toList_text_array (items : List Json) :
    (array items).text.toList =
      '[' :: [','].intercalate (items.map fun j => j.text.toList) ++ [']'] := by
  simp [text, texts_eq_map, String.toList_append, String.toList_intercalate, Function.comp_def]

theorem toList_text_object (fields : List (String × Json)) :
    (object fields).text.toList =
      '\x7b' :: [','].intercalate (fields.map fieldChars) ++ ['\x7d'] := by
  simp [text, ← fieldTexts_eq_map, String.toList_append, String.toList_intercalate]

/-! ### Numbers -/

theorem toList_numberText (layout : FloatLayout) {x : Double} (h : x.isFinite = true) :
    ∃ negative m, x = .finite negative m ∧ (numberText layout x).toList =
      (if negative then ['-'] else []) ++ m.text layout := by
  cases x with
  | nan | infinite => cases h
  | finite negative m =>
    exact ⟨negative, m, rfl, by rw [numberText, if_pos h, BinaryFloat.text, String.toList_ofList]⟩

theorem isNumberPart_of_isDigit {c : Char} (h : isDigit c = true) : isNumberPart c = true := by
  rw [isNumberPart, h, Bool.true_or]

/-- A text of a number starts with a sign or a digit, and consists of characters of numbers. -/
structure IsNumberText (cs : List Char) : Prop where
  head : ∃ c rest, cs = c :: rest ∧ Shape.ofChar? c = some .number
  parts : ∀ c ∈ cs, isNumberPart c = true

theorem IsNumberText.signed {negative : Prop} [Decidable negative] {cs : List Char} (hne : cs ≠ [])
    (hhead : ∀ c ∈ cs.head?, isDigit c = true) (hcs : ∀ c ∈ cs, isNumberPart c = true) :
    IsNumberText ((if negative then ['-'] else []) ++ cs) := by
  obtain ⟨c, rest, rfl⟩ := List.exists_cons_of_ne_nil hne
  split_ifs
  · exact ⟨⟨'-', c :: rest, rfl, rfl⟩, List.forall_mem_cons.2 ⟨rfl, hcs⟩⟩
  · exact ⟨⟨c, rest, rfl, Shape.ofChar?_of_isDigit (hhead c rfl)⟩, hcs⟩

theorem isNumberText_text {j : Json} (hj : j.IsExact) (h : j.shape = .number) :
    IsNumberText j.text.toList := by
  cases hj with
  | integer i =>
    rw [text, toList_intText]
    exact .signed (digits_ne_nil _) (isDigit_head fun _ => isDigit_of_mem_digits)
      fun c hc => isNumberPart_of_isDigit (isDigit_of_mem_digits hc)
  | @double x hx =>
    obtain ⟨negative, m, rfl, htext⟩ := toList_numberText .jsonDouble hx
    have hlays := lays_text .jsonDouble m
    rw [text, htext]
    refine .signed hlays.ne_nil hlays.isDigit_head fun c hc => ?_
    rcases hlays.mem c hc with hdigit | hmark
    · exact isNumberPart_of_isDigit hdigit
    · simp only [List.mem_cons, List.not_mem_nil, or_false] at hmark
      rcases hmark with rfl | rfl | rfl | rfl <;> decide
  | _ => cases h

/-- Two numbers with one text are the same number; an integer has no point and no exponent. -/
theorem number_inj {j k : Json} (hj : j.IsExact) (hk : k.IsExact) (hjs : j.shape = .number)
    (hks : k.shape = .number) (h : j.text = k.text) : j = k := by
  have hmixed {i : Int} {x : Double} (hx : x.isFinite = true) :
      (integer i).text ≠ (double x).text := by
    obtain ⟨negative, m, rfl, htext⟩ := toList_numberText .jsonDouble hx
    obtain ⟨c, hc, hmark⟩ := exists_mark_mem_text .jsonDouble rfl m
    intro h
    have hmem : c ∈ (intText i).toList := by
      have hchars := congrArg String.toList h
      rw [text, text, htext] at hchars
      rw [hchars]
      exact List.mem_append_right _ hc
    rw [toList_intText, List.mem_append] at hmem
    rcases hmem with hsign | hdigit
    · split_ifs at hsign
      · obtain rfl := List.mem_singleton.1 hsign
        revert hmark
        decide
      · cases hsign
    · have := isDigit_of_mem_digits hdigit
      rcases hmark with rfl | rfl <;> revert this <;> decide
  cases hj with
  | integer i =>
    cases hk with
    | integer k => rw [intText_inj h]
    | double hy => exact absurd h (hmixed hy)
    | _ => cases hks
  | @double x hx =>
    cases hk with
    | integer k => exact absurd h.symm (hmixed hx)
    | @double y hy =>
      rw [text, text, numberText, numberText, if_pos hx, if_pos hy] at h
      rw [BinaryFloat.text_inj BinaryFormat.double_roomy (by decide) hx hy h]
    | _ => cases hks
  | _ => cases hjs

/-! ### The whole text -/

/-- The first character of a text tells what the document is. -/
theorem exists_text_eq_cons {j : Json} (hj : j.IsExact) :
    ∃ c cs, j.text.toList = c :: cs ∧ Shape.ofChar? c = some j.shape := by
  cases hj with
  | null => exact ⟨'n', _, rfl, rfl⟩
  | bool b => cases b <;> exact ⟨_, _, rfl, rfl⟩
  | integer i => exact (isNumberText_text (.integer i) rfl).head
  | double hx => exact (isNumberText_text (.double hx) rfl).head
  | string s => exact ⟨'"', _, String.toList_ofList, rfl⟩
  | array _ => exact ⟨'[', _, toList_text_array _, rfl⟩
  | object _ => exact ⟨'\x7b', _, toList_text_object _, rfl⟩

theorem shape_eq {j k : Json} (hj : j.IsExact) (hk : k.IsExact) {as bs : List Char}
    (h : j.text.toList ++ as = k.text.toList ++ bs) : j.shape = k.shape := by
  obtain ⟨c, cs, hc, hjs⟩ := exists_text_eq_cons hj
  obtain ⟨d, ds, hd, hks⟩ := exists_text_eq_cons hk
  rw [hc, hd, List.cons_append, List.cons_append] at h
  rw [(List.cons.inj h).1, hks] at hjs
  exact (Option.some.inj hjs).symm

theorem number_append_inj {j k : Json} (hj : j.IsExact) (hk : k.IsExact) (hjs : j.shape = .number)
    (hks : k.shape = .number) {as bs : List Char} (h : j.text.toList ++ as = k.text.toList ++ bs)
    (has : Stops isNumberPart as) (hbs : Stops isNumberPart bs) : j = k ∧ as = bs := by
  obtain ⟨htext, hrest⟩ := run_inj h (isNumberText_text hj hjs).parts
    (isNumberText_text hk hks).parts has hbs
  exact ⟨number_inj hj hk hjs hks (String.toList_injective htext), hrest⟩

/-- The text of a document ends where what cannot belong to a number follows. -/
theorem text_append_inj {j k : Json} (hj : j.IsExact) (hk : k.IsExact) {as bs : List Char}
    (h : j.text.toList ++ as = k.text.toList ++ bs) (has : Stops isNumberPart as)
    (hbs : Stops isNumberPart bs) : j = k ∧ as = bs := by
  induction hj generalizing k as bs with
  | null =>
    have hshape := shape_eq .null hk h
    cases hk with
    | null => exact ⟨rfl, List.append_cancel_left h⟩
    | _ => cases hshape
  | bool b =>
    have hshape := shape_eq (.bool b) hk h
    cases hk with
    | bool c =>
      cases b <;> cases c <;> first
        | exact ⟨rfl, List.append_cancel_left h⟩
        | exact absurd (List.cons.inj h).1 (by decide)
    | _ => cases hshape
  | integer i =>
    exact number_append_inj (.integer i) hk rfl (shape_eq (.integer i) hk h).symm h has hbs
  | double hx =>
    exact number_append_inj (.double hx) hk rfl (shape_eq (.double hx) hk h).symm h has hbs
  | string s =>
    have hshape := shape_eq (.string s) hk h
    cases hk with
    | string t =>
      obtain ⟨rfl, hrest⟩ := stringText_append_inj h
      exact ⟨rfl, hrest⟩
    | _ => cases hshape
  | @array items hitems ih =>
    have hshape := shape_eq (.array hitems) hk h
    cases hk with
    | @array others hothers =>
      have hhead {js : List Json} (hjs : ∀ j ∈ js, j.IsExact) :
          ∀ j ∈ js, ∃ c cs, j.text.toList = c :: cs ∧ c ≠ ']' := by
        intro j hj
        obtain ⟨c, cs, htext, hc⟩ := exists_text_eq_cons (hjs j hj)
        refine ⟨c, cs, htext, ?_⟩
        rintro rfl
        cases hc
      rw [toList_text_array, toList_text_array] at h
      simp only [List.cons_append, List.append_assoc, List.nil_append, List.cons.injEq,
        true_and] at h
      obtain ⟨rfl, hrest⟩ := intercalate_append_inj (by decide) rfl (hhead hitems) (hhead hothers)
        (fun j hj k hk as bs h has hbs => ih j hj (hothers k hk) h has hbs) h
      exact ⟨rfl, hrest⟩
    | _ => cases hshape
  | @object fields hfields ih =>
    have hshape := shape_eq (.object hfields) hk h
    cases hk with
    | @object others hothers =>
      have hhead {fields : List (String × Json)} :
          ∀ field ∈ fields, ∃ c cs, fieldChars field = c :: cs ∧ c ≠ '\x7d' :=
        fun field _ => ⟨'"', _, by rw [fieldChars, stringText, String.toList_ofList]; rfl, by decide⟩
      have hparts : Parts fieldChars fields others := by
        rintro ⟨name, j⟩ hfield ⟨name', k⟩ hother as bs h has hbs
        rw [fieldChars, fieldChars, List.append_assoc, List.append_assoc] at h
        obtain ⟨rfl, hvalue⟩ := stringText_append_inj h
        obtain ⟨rfl, rfl⟩ := ih _ hfield (hothers _ hother) (List.cons.inj hvalue).2 has hbs
        exact ⟨rfl, rfl⟩
      rw [toList_text_object, toList_text_object] at h
      simp only [List.cons_append, List.append_assoc, List.nil_append, List.cons.injEq,
        true_and] at h
      obtain ⟨rfl, hrest⟩ := intercalate_append_inj (by decide) rfl hhead hhead hparts h
      exact ⟨rfl, hrest⟩
    | _ => cases hshape

/-- The text of a document with exact numbers determines the document. -/
theorem text_inj {j k : Json} (hj : j.IsExact) (hk : k.IsExact) (h : j.text = k.text) : j = k := by
  refine (text_append_inj hj hk ?_ stops_nil stops_nil).1
  rw [h]

end StorePlan.Json
