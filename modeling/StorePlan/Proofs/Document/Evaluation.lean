import Mathlib.Data.List.Dedup
import StorePlan.Json.Fields

/-
How a document store runs `$group` and `$project` stages. Documents are JSON
objects, and a field that is not there is different from one that is `null`.

What the store makes of values (which of them are the same, what they add up
to) is left open in `Engine`. Of sameness it is only asked that it is an
equivalence and that documents of the same names are the same field by field.
-/

namespace StorePlan

namespace Json

/-- What is found on the way along names into a document. -/
def along? (j : Json) (names : List String) : Option Json := names.foldlM field? j

/-- Those of some fields that are there. -/
def present (fields : List (String × Option Json)) : List (String × Json) :=
  fields.filterMap fun field => field.2.map (field.1, ·)

/-- The document of those fields that are there. -/
def compose (fields : List (String × Option Json)) : Json := .object (present fields)

/-! ## Fields by name -/

theorem field?_object_eq_some {fields : List (String × Json)} (hnames : (fields.map (·.1)).Nodup)
    {name : String} {value : Json} :
    (object fields).field? name = some value ↔ (name, value) ∈ fields := by
  have hfound {found : String × Json} (h : fields.reverse.find? (·.1 == name) = some found) :
      found ∈ fields ∧ found.1 = name :=
    ⟨List.mem_reverse.1 (List.mem_of_find?_eq_some h), by simpa using List.find?_some h⟩
  rw [field?, Option.map_eq_some_iff]
  constructor
  · rintro ⟨⟨n, v⟩, h, rfl⟩
    obtain ⟨hmem, rfl⟩ := hfound h
    exact hmem
  · intro hmem
    have hsome : (fields.reverse.find? (·.1 == name)).isSome :=
      List.find?_isSome.2 ⟨_, List.mem_reverse.2 hmem, beq_self_eq_true name⟩
    obtain ⟨found, h⟩ := Option.isSome_iff_exists.1 hsome
    obtain ⟨hother, hname⟩ := hfound h
    obtain rfl := List.inj_on_of_nodup_map hnames hother hmem hname
    exact ⟨_, h, rfl⟩

theorem mem_present {fields : List (String × Option Json)} {name : String} {value : Json} :
    (name, value) ∈ present fields ↔ (name, some value) ∈ fields := by
  simp only [present, List.mem_filterMap, Option.map_eq_some_iff, Prod.mk.injEq]
  constructor
  · rintro ⟨⟨n, v⟩, hmem, w, rfl, rfl, rfl⟩
    exact hmem
  · exact fun hmem => ⟨_, hmem, value, rfl, rfl, rfl⟩

theorem nodup_present {fields : List (String × Option Json)} (hnames : (fields.map (·.1)).Nodup) :
    ((present fields).map (·.1)).Nodup := by
  rw [List.Nodup, List.pairwise_map] at hnames ⊢
  refine hnames.filterMap _ fun a b hab c hc d hd => ?_
  obtain ⟨v, -, rfl⟩ := Option.map_eq_some_iff.1 hc
  obtain ⟨w, -, rfl⟩ := Option.map_eq_some_iff.1 hd
  exact hab

/-- The fields of a composed document are what it was composed of. -/
theorem field?_compose {fields : List (String × Option Json)} (hnames : (fields.map (·.1)).Nodup)
    {name : String} {value : Option Json} (h : (name, value) ∈ fields) :
    (compose fields).field? name = value := by
  refine Option.ext fun v => ?_
  rw [compose, field?_object_eq_some (nodup_present hnames), mem_present]
  constructor
  · intro hv
    exact (Prod.mk.inj (List.inj_on_of_nodup_map hnames h hv rfl)).2
  · rintro rfl
    exact h

theorem field?_compose_map {names : List String} (hnames : names.Nodup) {name : String}
    (h : name ∈ names) (value : String → Option Json) :
    (compose (names.map fun n => (n, value n))).field? name = value name := by
  refine field?_compose ?_ (List.mem_map_of_mem h)
  rwa [List.map_map, show (Prod.fst ∘ fun n => (n, value n)) = id from rfl, List.map_id]

end Json

namespace Document

open Json (compose)

/-- What a store makes of values; `none` is the value of a field that is not there. -/
structure Engine where
  same : Option Json → Option Json → Bool
  sum : List (Option Json) → Option Json
  min : List (Option Json) → Option Json
  max : List (Option Json) → Option Json
  average : List (Option Json) → Option Json
  /-- The operators of expressions but for `$eq` and `$cond`. -/
  operator : String → List (Option Json) → Option Json
  /-- The values of `$$` variables. -/
  system : String → Option Json

/-- What grouping relies on. -/
structure Engine.Lawful (E : Engine) : Prop where
  equivalence : Equivalence fun x y => E.same x y = true
  /-- Documents of the same names are the same field by field. -/
  compose : ∀ (names : List String) (f g : String → Option Json), names.Nodup →
    (E.same (some (compose (names.map fun n => (n, f n))))
        (some (compose (names.map fun n => (n, g n)))) = true ↔
      ∀ n ∈ names, E.same (f n) (g n) = true)

namespace Engine

variable (E : Engine)

/-! ## Expressions -/

/-- The value of a string in an expression: behind one dollar sign, names with dots between them
lead into the document. -/
def read (doc : Json) (s : String) : Option Json :=
  match s.toList with
  | '$' :: '$' :: _ => E.system s
  | '$' :: path => doc.along? ((path.splitOn '.').map String.ofList)
  | _ => some (.string s)

/-- The value of an operator over the values of its operands. -/
def apply : String → List (Option Json) → Option Json
  | "$eq", [x, y] => some (.bool (E.same x y))
  | "$cond", [some (.bool holds), yes, no] => if holds then yes else no
  | name, values => E.operator name values

mutual

/-- The value of an expression over a document. Operators have their operands in a list, and an
object of fields composes a document. -/
def evaluate (doc : Json) : Json → Option Json
  | .string s => E.read doc s
  | .array items => some (.array ((evaluateAll doc items).map (·.getD .null)))
  | .object [("$literal", j)] => some j
  | .object [(name, .array operands)] =>
    let values := evaluateAll doc operands
    if name.toList.head? = some '$' then E.apply name values
    else some (compose [(name, some (.array (values.map (·.getD .null))))])
  | .object fields => some (compose (evaluateFields doc fields))
  | j => some j
termination_by structural j => j

def evaluateAll (doc : Json) : List Json → List (Option Json)
  | [] => []
  | j :: rest => evaluate doc j :: evaluateAll doc rest
termination_by structural js => js

def evaluateFields (doc : Json) : List (String × Json) → List (String × Option Json)
  | [] => []
  | (name, j) :: rest => (name, evaluate doc j) :: evaluateFields doc rest
termination_by structural fields => fields

end

/-! ## Stages -/

/-- The value of an accumulator over documents. -/
def accumulate (docs : List Json) : Json → Option Json
  | .object [("$sum", e)] => E.sum (docs.map fun doc => E.evaluate doc e)
  | .object [("$min", e)] => E.min (docs.map fun doc => E.evaluate doc e)
  | .object [("$max", e)] => E.max (docs.map fun doc => E.evaluate doc e)
  | .object [("$avg", e)] => E.average (docs.map fun doc => E.evaluate doc e)
  | _ => none

/-- The value of a listed field: `1` keeps the field of that name and `0` leaves it out. -/
def project? (doc : Json) (name : String) : Json → Option Json
  | .integer 0 => none
  | .integer 1 => doc.field? name
  | e => E.evaluate doc e

/-- The listed fields with their values. The field `_id` stays unless it is listed itself. -/
def projectFields (fields : List (String × Json)) (doc : Json) : List (String × Option Json) :=
  (if "_id" ∈ fields.map (·.1) then [] else [("_id", doc.field? "_id")]) ++
    fields.map fun field => (field.1, E.project? doc field.1 field.2)

def project (fields : List (String × Json)) (doc : Json) : Json :=
  compose (E.projectFields fields doc)

/-- The documents with the same key as this one. -/
def groupOf (key : Json) (docs : List Json) (doc : Json) : List Json :=
  docs.filter fun other => E.same (E.evaluate doc key) (E.evaluate other key)

/-- What there is of a group: its key, and the accumulators over its documents. -/
def groupFields (key : Json) (results : List (String × Json)) (docs : List Json) (doc : Json) :
    List (String × Option Json) :=
  ("_id", E.evaluate doc key) ::
    results.map fun result => (result.1, E.accumulate (E.groupOf key docs doc) result.2)

def group (key : Json) (results : List (String × Json)) (docs : List Json) (doc : Json) : Json :=
  compose (E.groupFields key results docs doc)

end Engine

/-- One item for each class of items that are alike. -/
structure OneOfEach {α : Type} (alike : α → α → Prop) (all firsts : List α) : Prop where
  subset : firsts ⊆ all
  apart : firsts.Pairwise fun a b => ¬alike a b
  covers : ∀ a ∈ all, ∃ b ∈ firsts, alike a b

/-- The rows that stages make of documents. Groups come in any order. -/
inductive Engine.Runs (E : Engine) : List Json → List Json → List Json → Prop
  | nil (docs : List Json) : Runs E [] docs docs
  | group {key : Json} {results : List (String × Json)} {stages docs firsts rows : List Json} :
    OneOfEach (fun a b => E.same (E.evaluate a key) (E.evaluate b key) = true) docs firsts →
      Runs E stages (firsts.map (E.group key results docs)) rows →
        Runs E (.field "$group" (.object (("_id", key) :: results)) :: stages) docs rows
  | project {fields : List (String × Json)} {stages docs rows : List Json} :
    Runs E stages (docs.map (E.project fields)) rows →
      Runs E (.field "$project" (.object fields) :: stages) docs rows

namespace Engine

variable {E : Engine} {stages docs rows : List Json}

theorem runs_nil_iff : E.Runs [] docs rows ↔ docs = rows := by
  constructor
  · intro h
    cases h
    rfl
  · rintro rfl
    exact .nil docs

theorem runs_group_iff {key : Json} {results : List (String × Json)} :
    E.Runs (.field "$group" (.object (("_id", key) :: results)) :: stages) docs rows ↔
      ∃ firsts, OneOfEach (fun a b => E.same (E.evaluate a key) (E.evaluate b key) = true) docs
        firsts ∧ E.Runs stages (firsts.map (E.group key results docs)) rows := by
  constructor
  · intro h
    generalize hall : Json.field "$group" (.object (("_id", key) :: results)) :: stages = all at h
    cases h with
    | nil => cases hall
    | group hfirsts hrest =>
      simp only [Json.field, List.cons.injEq, Json.object.injEq, Prod.mk.injEq, true_and,
        and_true] at hall
      obtain ⟨⟨rfl, rfl⟩, rfl⟩ := hall
      exact ⟨_, hfirsts, hrest⟩
    | project => simp [Json.field] at hall
  · rintro ⟨firsts, hfirsts, hrest⟩
    exact .group hfirsts hrest

theorem runs_project_iff {fields : List (String × Json)} :
    E.Runs (.field "$project" (.object fields) :: stages) docs rows ↔
      E.Runs stages (docs.map (E.project fields)) rows := by
  refine ⟨fun h => ?_, .project⟩
  generalize hall : Json.field "$project" (.object fields) :: stages = all at h
  cases h with
  | nil => cases hall
  | group => simp [Json.field] at hall
  | project hrest =>
    simp only [Json.field, List.cons.injEq, Json.object.injEq, Prod.mk.injEq, true_and,
      and_true] at hall
    obtain ⟨rfl, rfl⟩ := hall
    exact hrest

end Engine

/-- There is one item of each class. -/
theorem exists_oneOfEach {α : Type} {alike : α → α → Prop} (hrefl : ∀ a, alike a a)
    (htrans : ∀ a b c, alike a b → alike b c → alike a c) (all : List α) :
    ∃ firsts, OneOfEach alike all firsts := by
  classical
  refine ⟨all.pwFilter fun a b => ¬alike a b, List.pwFilter_subset all, List.pairwise_pwFilter all,
    fun a ha => ?_⟩
  by_contra hnone
  have hneg {a b c : α} (h : ¬alike a c) : ¬alike a b ∨ ¬alike b c := by
    by_contra hboth
    rw [not_or, not_not, not_not] at hboth
    exact h (htrans _ _ _ hboth.1 hboth.2)
  have hall := (@List.forall_mem_pwFilter α (fun a b => ¬alike a b) _ hneg a all).1
  exact hall (fun b hb hab => hnone ⟨b, hb, hab⟩) a ha (hrefl a)

end Document

end StorePlan
