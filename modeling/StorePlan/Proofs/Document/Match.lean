import StorePlan.Document.Filter
import StorePlan.Proofs.Document.Store
import StorePlan.Proofs.Predicate.Attributes
import StorePlan.Proofs.Predicate.Meaning
import StorePlan.Proofs.Value.Coercion

/-
The rows that a filter document selects. A store decides each leaf with yes or
no: where the leaf is unknown of a row, the store takes its comparison for
false, or for true where that finds `NULL` among the literals, and then
negates.

`Predicate.Selects` says which rows these are, and `satisfies_filter` that
they are the rows of the filter document. They are those of which the
condition is true, as long as no unknown leaf is taken for true.
-/

namespace StorePlan

/-- An equality or a membership finds a value and one of its literals both `NULL`. -/
def Comparison.FindsNull (v : Value) (ws : List Value) : Comparison → Prop
  | equal | isIn => v.isNull = true ∧ ∃ w ∈ ws, w.isNull = true
  | _ => False

/-- A leaf selects a row of which it is true. It selects one of which it is unknown if it is negated
or finds `NULL`, but not both. -/
def Atom.Selects (I : Interpretation) (env : String → Value) (a : Atom) : Prop :=
  a.truth I env = .holds ∨ a.truth I env = .unknown ∧
    (a.negated = true ↔ ¬a.comparison.FindsNull (env a.attributeName) a.values)

def Predicate.Selects (I : Interpretation) (env : String → Value) : Predicate → Prop
  | atomic a => a.Selects I env
  | compound .and l r => l.Selects I env ∧ r.Selects I env
  | compound .or l r => l.Selects I env ∨ r.Selects I env

/-- No leaf selects a row of which it is unknown. -/
def Predicate.Decides (I : Interpretation) (env : String → Value) (p : Predicate) : Prop :=
  ∀ a ∈ p.atoms, a.truth I env = .unknown → ¬a.Selects I env

namespace Predicate

variable {I : Interpretation} {env : String → Value}

/-- All rows of which a predicate is true are selected. -/
theorem selects_of_holds {p : Predicate} (h : p.truth I env = .holds) : p.Selects I env := by
  induction p with
  | atomic a => exact .inl h
  | compound c l r ihl ihr =>
    cases c with
    | and =>
      obtain ⟨hl, hr⟩ := Truth.and_eq_holds_iff.1 h
      exact ⟨ihl hl, ihr hr⟩
    | or => exact (Truth.or_eq_holds_iff.1 h).imp ihl ihr

/-- Only rows of which a predicate is true are selected, if each leaf does so. -/
theorem holds_of_selects {p : Predicate} (hdecides : p.Decides I env) (h : p.Selects I env) :
    p.truth I env = .holds := by
  induction p with
  | atomic a =>
    rcases h with htrue | hunknown
    · exact htrue
    · exact absurd (.inr hunknown) (hdecides a (by simp [atoms]) hunknown.1)
  | compound c l r ihl ihr =>
    obtain ⟨hl, hr⟩ : l.Decides I env ∧ r.Decides I env := by
      simpa only [Decides, atoms, List.forall_mem_append] using hdecides
    cases c with
    | and => exact Truth.and_eq_holds_iff.2 ⟨ihl hl h.1, ihr hr h.2⟩
    | or => exact Truth.or_eq_holds_iff.2 (h.imp (ihl hl) (ihr hr))

end Predicate

/-- Where a comparison finds `NULL`, it is unknown. -/
theorem Comparison.FindsNull.truth_eq {I : Interpretation} (hI : I.Strict) {v : Value}
    {ws : List Value} {c : Comparison} (htakes : c.Takes ws.length) (h : c.FindsNull v ws) :
    c.truth I v ws = .unknown := by
  cases c with
  | equal =>
    obtain ⟨w, rfl⟩ := List.length_eq_one_iff.1 htakes
    exact hI.equal v w (.inl h.1)
  | isIn => exact hI.isIn h.1 (List.length_pos_iff.1 htakes)
  | _ => exact h.elim

/-- What a leaf selects, by its comparison alone. -/
theorem Atom.selects_iff {I : Interpretation} {env : String → Value} (hI : I.Strict) (a : Atom)
    (htakes : a.comparison.Takes a.values.length) :
    a.Selects I env ↔ (a.negated = true ↔
      ¬(a.comparison.FindsNull (env a.attributeName) a.values ∨
        a.comparison.truth I (env a.attributeName) a.values = .holds)) := by
  have hunknown := Comparison.FindsNull.truth_eq (v := env a.attributeName) hI htakes
  unfold Selects truth Truth.negateIf
  generalize a.comparison.truth I (env a.attributeName) a.values = t at hunknown ⊢
  generalize a.comparison.FindsNull (env a.attributeName) a.values = found at hunknown ⊢
  cases t with
  | unknown => cases a.negated <;> simp [Truth.not]
  | holds | fails =>
    have hfound : ¬found := by simpa using hunknown
    cases a.negated <;> simp [Truth.not, hfound]

namespace Document

variable {S : Store} {I : Interpretation} {v : Value}

/-! ## Conditions -/

theorem meets_field {name : String} (h : name ≠ "$not") (v : Value) (operand : Json) :
    S.meets v (.field name operand) = S.meetsOperator v name operand := by
  simp [Json.field, Store.meets, Store.meetsAll, h]

theorem meets_not (v : Value) (c : Json) : S.meets v (.field "$not" c) = !S.meets v c := by
  simp [Json.field, Store.meets, Store.meetsAll]

/-- An operator that holds of no `NULL` says nothing else than a comparison that is unknown of
it. -/
theorem not_null_and_holds_iff {t : Truth} (h : v.isNull = true → t = .unknown) :
    v.isNull = false ∧ t = .holds ↔ t = .holds := by
  cases hv : v.isNull with
  | false => simp
  | true => simp [h hv]

theorem comparison_eq_ok {name : String} {a : Atom} {w : Value} {c : Json} :
    comparison name a [w] = .ok c ↔ ∃ j, encode w = .ok j ∧ .field name j = c := by
  simp only [comparison, operand, List.getElem?_cons_zero, encodeLiteral, bind_eq_ok, pure_eq_ok,
    mapError_eq_ok]

/-- A condition with one operand that holds of no `NULL`. -/
theorem meets_comparison {name : String} {a : Atom} {ws : List Value} {c : Json}
    {t : Value → Truth} (h : comparison name a ws = .ok c) (hone : ws.length = 1)
    (hname : name ≠ "$not")
    (hstore : ∀ w ∈ ws, S.ComparesWith I v w)
    (hholds : ∀ {w j}, S.Compares I v w j →
      (S.meetsOperator v name j = true ↔ v.isNull = false ∧ t w = .holds))
    (hnull : ∀ w, v.isNull = true → t w = .unknown) :
    ∃ w, ws = [w] ∧ (S.meets v c = true ↔ t w = .holds) := by
  obtain ⟨w, rfl⟩ := List.length_eq_one_iff.1 hone
  obtain ⟨j, hj, rfl⟩ := comparison_eq_ok.1 h
  refine ⟨w, rfl, ?_⟩
  rw [meets_field hname, hholds ((hstore w (by simp)).operand hj), not_null_and_holds_iff (hnull w)]

/-- A value meets the condition of an order comparison, a range or a pattern if that is true of
it. -/
theorem meets_positiveCondition {a : Atom} {ws : List Value} {c : Json} (hI : I.Strict)
    (hstore : ∀ w ∈ ws, S.ComparesWith I v w) (htakes : a.comparison.Takes ws.length)
    (h : positiveCondition a ws = .ok c) :
    S.meets v c = true ↔ a.comparison.truth I v ws = .holds := by
  unfold positiveCondition at h
  split at h
  case h_7 => cases h
  all_goals
    rename_i hc
    rw [hc] at htakes ⊢
  · obtain ⟨w, rfl, hw⟩ := meets_comparison h htakes (by decide) hstore
      Store.Compares.greater fun w hv => hI.greater (.inl hv)
    exact hw
  · obtain ⟨w, rfl, hw⟩ := meets_comparison h htakes (by decide) hstore
      Store.Compares.less fun w hv => hI.less v w (.inl hv)
    exact hw
  · obtain ⟨w, rfl, hw⟩ := meets_comparison h htakes (by decide) hstore
      Store.Compares.greaterOrEqual fun w hv => hI.greaterOrEqual (.inl hv)
    exact hw
  · obtain ⟨w, rfl, hw⟩ := meets_comparison h htakes (by decide) hstore
      Store.Compares.lessOrEqual fun w hv => hI.lessOrEqual v w (.inl hv)
    exact hw
  · obtain ⟨low, high, rfl⟩ := List.length_eq_two.1 htakes
    simp only [operand, List.getElem?_cons_zero, List.getElem?_cons_succ, encodeLiteral, bind_eq_ok,
      pure_eq_ok, mapError_eq_ok] at h
    obtain ⟨j, hj, k, hk, rfl⟩ := h
    have hlow := ((hstore low (by simp)).operand hj).greaterOrEqual
    have hhigh := ((hstore high (by simp)).operand hk).lessOrEqual
    rw [not_null_and_holds_iff fun hv => hI.greaterOrEqual (.inl hv)] at hlow
    rw [not_null_and_holds_iff fun hv => hI.lessOrEqual v high (.inl hv)] at hhigh
    simp [Store.meets, Store.meetsAll, Store.meetsOperator, hlow, hhigh, Comparison.truth,
      Interpretation.between, Truth.and_eq_holds_iff]
  · obtain ⟨w, rfl⟩ := List.length_eq_one_iff.1 htakes
    split at h
    · rename_i pattern rest hpattern
      obtain ⟨rfl, rfl⟩ := List.cons.inj hpattern
      cases h
      rw [meets_field (by decide), Store.meetsOperator, (hstore _ (by simp)).regex rfl]
      exact not_null_and_holds_iff fun hv => hI.like v _ (.inl hv)
    · cases h

/-- A value is found among encoded literals if both are `NULL` or it is one of them. -/
theorem any_equal {ws : List Value} {js : List Json}
    (hstore : ∀ w ∈ ws, S.ComparesWith I v w) (h : encodeAll ws = .ok js) :
    js.any (S.equal v) = true ↔
      (v.isNull = true ∧ ∃ w ∈ ws, w.isNull = true) ∨ I.isIn v ws = .holds := by
  induction ws generalizing js with
  | nil =>
    obtain rfl : [] = js := by simpa [encodeAll] using h
    simp [Interpretation.isIn, Truth.any]
  | cons w rest ih =>
    simp only [encodeAll, bind_eq_ok, pure_eq_ok] at h
    obtain ⟨j, hj, js, hjs, rfl⟩ := h
    rw [List.forall_mem_cons] at hstore
    have hisIn : I.isIn v (w :: rest) = .holds ↔ I.equal v w = .holds ∨ I.isIn v rest = .holds :=
      Truth.or_eq_holds_iff
    rw [List.any_cons, Bool.or_eq_true, (hstore.1.operand hj).equal, ih hstore.2 hjs, hisIn,
      List.exists_mem_cons_iff, and_or_left]
    exact or_or_or_comm

/-- An operator with a negated twin. -/
theorem meets_twin {negated : Bool} {positive negative : String} {operand : Json}
    (hpositive : positive ≠ "$not") (hnegative : negative ≠ "$not")
    (h : S.meetsOperator v negative operand = !S.meetsOperator v positive operand) :
    S.meets v (.field (if negated then negative else positive) operand) = true ↔
      (negated = true ↔ ¬S.meetsOperator v positive operand = true) := by
  cases negated with
  | false => simp [meets_field hpositive]
  | true => simp [meets_field hnegative, h]

/-- A value meets the condition of a leaf whose comparison finds `NULL` or is true of it, or of a
negated one whose comparison does neither. -/
theorem meets_condition {a : Atom} {ws : List Value} {c : Json} (hI : I.Strict)
    (hnull : S.ComparesWith I v .null) (hstore : ∀ w ∈ ws, S.ComparesWith I v w)
    (htakes : a.comparison.Takes ws.length) (h : condition a ws = .ok c) :
    S.meets v c = true ↔ (a.negated = true ↔
      ¬(a.comparison.FindsNull v ws ∨ a.comparison.truth I v ws = .holds)) := by
  have hisNull : S.meetsOperator v "$eq" .null = true ↔ v.isNull = true := by
    refine (hnull.operand rfl).equal.trans ?_
    simp [hI.equal v .null (.inr rfl), Value.isNull]
  unfold condition at h
  split at h
  · rename_i hc
    rw [hc] at htakes ⊢
    obtain ⟨w, rfl⟩ := List.length_eq_one_iff.1 htakes
    obtain ⟨j, hj, rfl⟩ := comparison_eq_ok.1 h
    rw [meets_twin (by decide) (by decide) rfl, Store.meetsOperator,
      ((hstore w (by simp)).operand hj).equal]
    simp [Comparison.FindsNull, Comparison.truth]
  · rename_i hc
    rw [hc]
    simp only [encodeLiterals, bind_eq_ok, pure_eq_ok, mapError_eq_ok] at h
    obtain ⟨js, hjs, rfl⟩ := h
    rw [meets_twin (by decide) (by decide) rfl, Store.meetsOperator, any_equal hstore hjs]
    rfl
  · rename_i hc
    rw [hc] at htakes ⊢
    obtain rfl := List.length_eq_zero_iff.1 htakes
    cases h
    rw [meets_twin (by decide) (by decide) rfl, hisNull]
    simp [Comparison.FindsNull, Comparison.truth, Truth.ofBool]
  · rename_i hc
    rw [hc] at htakes ⊢
    obtain rfl := List.length_eq_zero_iff.1 htakes
    cases h
    have hisNotNull : S.meetsOperator v "$ne" .null = true ↔ ¬v.isNull = true := by
      rw [← hisNull]
      simp [Store.meetsOperator]
    rw [meets_twin (by decide) (by decide) (Bool.not_not _).symm, hisNotNull]
    simp [Comparison.FindsNull, Comparison.truth, Truth.ofBool]
  · rename_i hequal hisIn _ _
    obtain ⟨positive, hpositive, h⟩ := bind_eq_ok.1 h
    have hfinds : ¬a.comparison.FindsNull v ws := by
      unfold Comparison.FindsNull
      split <;> simp_all
    rw [← pure_eq_ok.1 h, ← meets_positiveCondition hI hstore htakes hpositive]
    cases a.negated with
    | false => simp [hfinds]
    | true => simp [hfinds, meets_not]

/-! ## Filter documents -/

/-- Literals that are of the attribute's type stay what they are. -/
theorem atomValues_of_conformsTo {a : Atom} {vs : List Value}
    (h : ∀ w ∈ vs, w.conformsTo a.type = true) : atomValues a vs = .ok vs := by
  induction vs with
  | nil => rfl
  | cons w rest ih =>
    rw [List.forall_mem_cons] at h
    rw [atomValues, Value.coerce_of_conformsTo h.1, ih h.2]
    rfl

theorem exists_fields_of_comparison {name : String} {a : Atom} {ws : List Value} {c : Json}
    (h : comparison name a ws = .ok c) : ∃ fields, c = .object fields := by
  obtain ⟨j, -, h⟩ := bind_eq_ok.1 h
  exact ⟨[(name, j)], (pure_eq_ok.1 h).symm⟩

theorem exists_fields_of_positiveCondition {a : Atom} {ws : List Value} {c : Json}
    (h : positiveCondition a ws = .ok c) : ∃ fields, c = .object fields := by
  unfold positiveCondition at h
  split at h
  case h_5 =>
    simp only [bind_eq_ok, pure_eq_ok] at h
    obtain ⟨low, -, high, -, rfl⟩ := h
    exact ⟨_, rfl⟩
  case h_6 =>
    split at h
    · cases h
      exact ⟨_, rfl⟩
    · cases h
  case h_7 => cases h
  all_goals exact exists_fields_of_comparison h

/-- The condition of a leaf is a document and no list of documents. -/
theorem exists_fields_of_condition {a : Atom} {ws : List Value} {c : Json}
    (h : condition a ws = .ok c) : ∃ fields, c = .object fields := by
  unfold condition at h
  split at h
  · exact exists_fields_of_comparison h
  · obtain ⟨js, -, h⟩ := bind_eq_ok.1 h
    exact ⟨_, (pure_eq_ok.1 h).symm⟩
  · exact ⟨_, (Except.ok.inj h).symm⟩
  · exact ⟨_, (Except.ok.inj h).symm⟩
  · obtain ⟨positive, hpositive, h⟩ := bind_eq_ok.1 h
    rw [← pure_eq_ok.1 h]
    cases a.negated with
    | false => exact exists_fields_of_positiveCondition hpositive
    | true => exact ⟨_, rfl⟩

theorem satisfies_field (env : String → Value) (name : String) (fields : List (String × Json)) :
    S.satisfies env (.field name (.object fields)) = S.meets (env name) (.object fields) := by
  simp [Json.field, Store.satisfies, Store.satisfiesFields]

theorem satisfies_connective (env : String → Value) (c : Connective) (left right : Json) :
    S.satisfies env (.field (connectiveField c) (.array [left, right])) =
      match c with
      | .and => S.satisfies env left && S.satisfies env right
      | .or => S.satisfies env left || S.satisfies env right := by
  cases c <;>
    simp [Json.field, connectiveField, Store.satisfies, Store.satisfiesFields, Store.satisfiesAll,
      Store.satisfiesAny]

theorem satisfies_atomFilter {a : Atom} {env : String → Value} {j : Json} (hI : I.Strict)
    (hnull : S.ComparesWith I (env a.attributeName) .null)
    (hstore : ∀ w ∈ a.values, S.ComparesWith I (env a.attributeName) w)
    (htakes : a.comparison.Takes a.values.length)
    (hconforms : ∀ w ∈ a.values, w.conformsTo a.type = true) (h : atomFilter a = .ok j) :
    S.satisfies env j = true ↔ a.Selects I env := by
  simp only [atomFilter, bind_eq_ok, pure_eq_ok] at h
  obtain ⟨ws, hws, c, hc, rfl⟩ := h
  obtain rfl : a.values = ws := Except.ok.inj ((atomValues_of_conformsTo hconforms).symm.trans hws)
  obtain ⟨fields, rfl⟩ := exists_fields_of_condition hc
  rw [satisfies_field, meets_condition hI hnull hstore htakes hc, a.selects_iff hI htakes]

/-- The rows that satisfy a filter document are those that the predicate selects. -/
theorem satisfies_filter {env : String → Value} (hI : I.Strict) :
    ∀ {p : Predicate} {j : Json}, (∀ a ∈ p.atoms, a.comparison.Takes a.values.length) →
      (∀ a ∈ p.atoms, ∀ w ∈ a.values, w.conformsTo a.type = true) →
      (∀ a ∈ p.atoms, ∀ w ∈ .null :: a.values, S.ComparesWith I (env a.attributeName) w) →
      filter p = .ok j → (S.satisfies env j = true ↔ p.Selects I env)
  | .atomic a, j, htakes, hconforms, hstore, h => by
    simp only [Predicate.atoms, List.forall_mem_singleton, List.forall_mem_cons]
      at htakes hconforms hstore
    exact satisfies_atomFilter hI hstore.1 hstore.2 htakes hconforms h
  | .compound c l r, j, htakes, hconforms, hstore, h => by
    simp only [Predicate.atoms, List.forall_mem_append] at htakes hconforms hstore
    simp only [filter, bind_eq_ok, pure_eq_ok] at h
    obtain ⟨left, hleft, right, hright, rfl⟩ := h
    have hl := satisfies_filter hI htakes.1 hconforms.1 hstore.1 hleft
    have hr := satisfies_filter hI htakes.2 hconforms.2 hstore.2 hright
    rw [satisfies_connective]
    cases c with
    | and => rw [Bool.and_eq_true, hl, hr, Predicate.Selects]
    | or => rw [Bool.or_eq_true, hl, hr, Predicate.Selects]

/-- The rows that satisfy the filter document of a condition are those that its predicate selects.
All rows of which the condition is true are among them, and no others unless a leaf selects a row
of which it is unknown. A timestamp finer than a millisecond is no operand of a document, so none is
among the literals. -/
theorem satisfies_iff_selects {schema : Schema} {e : RowExpr} {p : Predicate} {j : Json}
    (hp : Predicate.ofCondition schema e = .ok p) (hj : filter p = .ok j)
    (hconforms : ∀ a ∈ p.atoms, ∀ w ∈ a.values, w.conformsTo a.type = true)
    (hwhole : ∀ a ∈ p.atoms, ∀ w ∈ a.values, w.toMilliseconds = w)
    (hI : I.Strict) (hstore : ∀ c ∈ schema.columns, S.ComparesAs I c.type)
    {env : String → Value} (hrow : ∀ c ∈ schema.columns, (env c.name).conformsTo c.type = true) :
    (S.satisfies env j = true ↔ p.Selects I env) ∧
      (e.truth I (schema.row env) = .holds → S.satisfies env j = true) ∧
      (p.Decides I env → S.satisfies env j = true → e.truth I (schema.row env) = .holds) := by
  have hcompares : ∀ a ∈ p.atoms, ∀ w ∈ .null :: a.values,
      S.ComparesWith I (env a.attributeName) w := by
    intro a ha
    obtain ⟨c, hc, hname, htype⟩ := Predicate.exists_column_of_mem_atoms hp ha
    have hvalue := hrow c hc
    rw [← hname] at hvalue
    rw [List.forall_mem_cons]
    refine ⟨(hstore c hc).comparesWith hvalue rfl rfl, fun w hw => ?_⟩
    exact (hstore c hc).comparesWith hvalue (htype ▸ hconforms a ha w hw) (hwhole a ha w hw)
  have hselects := satisfies_filter hI (Predicate.fills_ofCondition hp).takes hconforms hcompares hj
  have htruth : p.truth I env = e.truth I (schema.row env) :=
    Predicate.truth_of_reads I (schema.reads_row env _) hp
  refine ⟨hselects, fun h => ?_, fun hdecides h => ?_⟩
  · exact hselects.2 (Predicate.selects_of_holds (htruth.trans h))
  · exact htruth ▸ Predicate.holds_of_selects hdecides (hselects.1 h)

/-! ## A store of integers and strings -/

/-- Compares integers with integers and strings with strings. -/
def plainStore : Store := .ofInterpretation Predicate.plainly

theorem strict_plainly : Predicate.plainly.Strict where
  equal v w h := by cases v <;> cases w <;> simp_all [Predicate.plainly, Value.isNull]
  less v w h := by
    cases v <;> cases w <;> simp_all [Predicate.plainly, Predicate.plainly.less, Value.isNull]
  lessOrEqual v w h := by
    cases v <;> cases w <;>
      simp_all [Predicate.plainly, Predicate.plainly.lessOrEqual, Value.isNull]
  like _ _ _ := rfl

theorem plainStore_comparesAs (schema : Schema)
    (h : ∀ c ∈ schema.columns, ∀ component, c.type ≠ .array component) :
    ∀ c ∈ schema.columns, plainStore.ComparesAs Predicate.plainly c.type :=
  fun c hc => Store.comparesAs_ofInterpretation strict_plainly (h c hc)

/-- Not more than five units, or neither of the two articles. -/
def scarcePredicate : Predicate :=
  .compound .or (.atomic ⟨"units", .integer .bits64, .greater, true, [.bigInt 5]⟩)
    (.atomic ⟨"sku", .string none, .isIn, true, [.string "A1", .string "B2"]⟩)

def scarceFilter : Json :=
  .field "$or" (.array
    [.field "units" (.field "$not" (.field "$gt" (.integer 5))),
      .field "sku" (.field "$nin" (.array [.string "A1", .string "B2"]))])

/-- An article that is neither of the two is selected, whatever the number of its units. -/
theorem satisfies_scarce :
    Predicate.ofCondition Predicate.stock Predicate.scarce = .ok scarcePredicate ∧
      filter scarcePredicate = .ok scarceFilter ∧
      (plainStore.satisfies Predicate.uncounted scarceFilter = true ↔
        scarcePredicate.Selects Predicate.plainly Predicate.uncounted) ∧
      plainStore.satisfies Predicate.uncounted scarceFilter = true := by
  have hlowered : Predicate.ofCondition Predicate.stock Predicate.scarce = .ok scarcePredicate :=
    rfl
  have hfilter : filter scarcePredicate = .ok scarceFilter := rfl
  have hwhole : ∀ a ∈ scarcePredicate.atoms, ∀ w ∈ a.values, w.toMilliseconds = w := by
    simp [scarcePredicate, Predicate.atoms, Value.toMilliseconds]
  have hstore := plainStore_comparesAs Predicate.stock (by simp [Predicate.stock])
  have hrow : ∀ c ∈ Predicate.stock.columns,
      (Predicate.uncounted c.name).conformsTo c.type = true := by decide
  have h := satisfies_iff_selects hlowered hfilter (by decide) hwhole strict_plainly hstore hrow
  exact ⟨hlowered, hfilter, h.1, h.2.1 rfl⟩

/-- Names that may be missing. -/
def named : Schema := ⟨[⟨"name", .string none, true⟩]⟩

def isNotBob : RowExpr := .apply .notEquals [.field 0 (.string none), .ofValue (.string "bob")]

def nameless : String → Value := fun _ => .null

/-- A row of no name satisfies the filter document that asks for another name than Bob's, though it
is unknown whether it has one. -/
theorem satisfies_isNotBob_of_unknown :
    ∃ p j, Predicate.ofCondition named isNotBob = .ok p ∧ filter p = .ok j ∧
      (∀ a ∈ p.atoms, ∀ w ∈ a.values, w.conformsTo a.type = true) ∧
      (∀ a ∈ p.atoms, ∀ w ∈ a.values, w.toMilliseconds = w) ∧ Predicate.plainly.Strict ∧
      (∀ c ∈ named.columns, plainStore.ComparesAs Predicate.plainly c.type) ∧
      (∀ c ∈ named.columns, (nameless c.name).conformsTo c.type = true) ∧
      plainStore.satisfies nameless j = true ∧
      isNotBob.truth Predicate.plainly (named.row nameless) = .unknown := by
  refine ⟨_, _, rfl, rfl, by decide, ?_, strict_plainly, ?_, by decide, rfl, rfl⟩
  · simp [Predicate.atoms, Value.toMilliseconds]
  · exact plainStore_comparesAs named (by simp [named])

end Document

end StorePlan
