import Mathlib.Data.List.Forall2

/-
Successes and failures of chained computations: a chain succeeds exactly if
each of its steps does, and a list of computations exactly if all of them do;
and a chain fails only as one of its steps may.
-/

namespace StorePlan

variable {α β ε : Type}

/-- A step and what follows it succeed together. -/
@[simp] theorem bind_eq_ok {x : Except ε α} {f : α → Except ε β} {b : β} :
    (x >>= f) = .ok b ↔ ∃ a, x = .ok a ∧ f a = .ok b := by
  cases x with
  | error e => simp [bind, Except.bind]
  | ok a => simp [bind, Except.bind]

@[simp] theorem pure_eq_ok {a b : α} : (pure a : Except ε α) = .ok b ↔ a = b := by
  simp [pure, Except.pure]

/-- Wrapping errors keeps successes. -/
@[simp] theorem mapError_eq_ok {ε' : Type} {x : Except ε α} {wrap : ε → ε'} {a : α} :
    x.mapError wrap = .ok a ↔ x = .ok a := by
  cases x <;> simp [Except.mapError]

/-- A list of computations succeeds with one result for each. -/
theorem mapM_eq_ok {f : α → Except ε β} {as : List α} {bs : List β} :
    as.mapM f = .ok bs ↔ List.Forall₂ (fun a b => f a = .ok b) as bs := by
  induction as generalizing bs with
  | nil => rw [List.mapM_nil, pure_eq_ok, List.forall₂_nil_left_iff, eq_comm]
  | cons a as ih =>
    rw [List.mapM_cons, List.forall₂_cons_left_iff]
    constructor
    · intro h
      obtain ⟨b, hb, h⟩ := bind_eq_ok.1 h
      obtain ⟨rest, hrest, h⟩ := bind_eq_ok.1 h
      exact ⟨b, rest, hb, ih.1 hrest, (pure_eq_ok.1 h).symm⟩
    · rintro ⟨b, rest, hb, hrest, rfl⟩
      exact bind_eq_ok.2 ⟨b, hb, bind_eq_ok.2 ⟨rest, ih.2 hrest, rfl⟩⟩

/-! ## Items and their results -/

section Items

variable {γ : Type} {R : α → β → Prop} {as : List α} {bs : List β}

theorem exists_of_mem_of_forall₂ (h : List.Forall₂ R as bs) {b : β} (hb : b ∈ bs) :
    ∃ a ∈ as, R a b := by
  induction h with
  | nil => simp at hb
  | cons hab _ ih =>
    rcases List.mem_cons.1 hb with rfl | hb
    · exact ⟨_, List.mem_cons_self, hab⟩
    · obtain ⟨a, ha, hab⟩ := ih hb
      exact ⟨a, List.mem_cons_of_mem _ ha, hab⟩

theorem exists_getElem?_of_forall₂ (h : List.Forall₂ R as bs) {i : Nat} {b : β}
    (hb : bs[i]? = some b) : ∃ a, as[i]? = some a ∧ R a b := by
  obtain ⟨hi, rfl⟩ := List.getElem?_eq_some_iff.1 hb
  have hlt : i < as.length := h.length_eq ▸ hi
  have hmem : (as[i], bs[i]) ∈ as.zip bs :=
    List.mem_of_getElem? (List.getElem?_zip_eq_some.2 ⟨List.getElem?_eq_getElem hlt, hb⟩)
  exact ⟨as[i], List.getElem?_eq_getElem hlt, (List.forall₂_iff_zip.1 h).2 hmem⟩

theorem map_eq_map_of_forall₂ {f : α → γ} {g : β → γ} (h : List.Forall₂ R as bs)
    (hfg : ∀ a ∈ as, ∀ b, R a b → f a = g b) : as.map f = bs.map g := by
  induction h with
  | nil => rfl
  | cons hab _ ih =>
    rw [List.forall_mem_cons] at hfg
    rw [List.map_cons, List.map_cons, hfg.1 _ hab, ih hfg.2]

theorem exists_ok_of_mem_of_mapM {f : α → Except ε β} {a : α} (h : as.mapM f = .ok bs)
    (ha : a ∈ as) : ∃ b ∈ bs, f a = .ok b :=
  exists_of_mem_of_forall₂ (mapM_eq_ok.1 h).flip ha

end Items

/-! ## Failures -/

section Failures

variable {ε' : Type} {P : ε → Prop}

/-- The computation succeeds, or its error is one of these. -/
def ErrorsAre (P : ε → Prop) (x : Except ε α) : Prop := ∀ e, x = .error e → P e

@[simp] theorem errorsAre_ok {a : α} : ErrorsAre P (.ok a : Except ε α) := nofun

@[simp] theorem errorsAre_error {e : ε} : ErrorsAre P (.error e : Except ε α) ↔ P e := by
  simp [ErrorsAre]

@[simp] theorem errorsAre_pure {a : α} : ErrorsAre P (pure a : Except ε α) := errorsAre_ok

theorem ErrorsAre.bind {x : Except ε α} {f : α → Except ε β} (hx : ErrorsAre P x)
    (hf : ∀ a, x = .ok a → ErrorsAre P (f a)) : ErrorsAre P (x >>= f) := by
  cases x with
  | error e => simpa [Bind.bind, Except.bind] using hx
  | ok a => exact hf a rfl

/-- Errors that are wrapped, each into one of these. -/
theorem ErrorsAre.mapError {P' : ε' → Prop} {x : Except ε α} {wrap : ε → ε'}
    (hx : ErrorsAre P x) (hwrap : ∀ e, P e → P' (wrap e)) : ErrorsAre P' (x.mapError wrap) := by
  cases x with
  | error e => simpa [Except.mapError] using hwrap e (hx e rfl)
  | ok a => exact errorsAre_ok

/-- Any errors, if each is wrapped into one of these. -/
theorem errorsAre_mapError {x : Except ε α} {wrap : ε → ε'} {P' : ε' → Prop}
    (hwrap : ∀ e, P' (wrap e)) : ErrorsAre P' (x.mapError wrap) := by
  have hx : ErrorsAre (fun _ => True) x := fun _ _ => trivial
  exact hx.mapError fun e _ => hwrap e

end Failures

/-! ## Two runs -/

/-- Both computations succeed, with results that are so related, or both fail with the same
error. -/
inductive Agree {ε α β : Type} (R : α → β → Prop) : Except ε α → Except ε β → Prop where
  | ok {a : α} {b : β} : R a b → Agree R (.ok a) (.ok b)
  | error (e : ε) : Agree R (.error e) (.error e)

namespace Agree

variable {γ δ : Type} {R : α → β → Prop} {S : γ → δ → Prop}

/-- Two runs of the same computation, by its results. -/
theorem of_ok {T : α → α → Prop} {x : Except ε α} (hT : ∀ a, x = .ok a → T a a) : Agree T x x := by
  cases x with
  | ok a => exact .ok (hT a rfl)
  | error e => exact .error e

/-- Two runs of the same computation. -/
theorem same {T : α → α → Prop} (hT : ∀ a, T a a) (x : Except ε α) : Agree T x x :=
  of_ok fun a _ => hT a

/-- What is related are the results of the two runs. -/
theorem results {x : Except ε α} {y : Except ε β} (h : Agree R x y) :
    Agree (fun a b => x = .ok a ∧ y = .ok b ∧ R a b) x y := by
  cases h with
  | ok h => exact .ok ⟨rfl, rfl, h⟩
  | error e => exact .error e

theorem exists_of_ok {x : Except ε α} {y : Except ε β} {a : α} (h : Agree R x y) (ha : x = .ok a) :
    ∃ b, y = .ok b ∧ R a b := by
  cases h with
  | ok h =>
    cases ha
    exact ⟨_, rfl, h⟩
  | error e => cases ha

theorem bind {x : Except ε α} {y : Except ε β} {f : α → Except ε γ} {g : β → Except ε δ}
    (h : Agree R x y) (hfg : ∀ a b, R a b → Agree S (f a) (g b)) :
    Agree S (x >>= f) (y >>= g) := by
  cases h with
  | ok h => exact hfg _ _ h
  | error e => exact .error e

/-- Both runs go through the same step. -/
theorem bind_same {x : Except ε α} {f : α → Except ε γ} {g : α → Except ε δ}
    (hfg : ∀ a, x = .ok a → Agree S (f a) (g a)) : Agree S (x >>= f) (x >>= g) := by
  cases x with
  | ok a => exact hfg a rfl
  | error e => exact .error e

end Agree

/-! ## With notes -/

variable {σ : Type}

/-- The result of a computation that keeps notes, and the notes after it. -/
def outcome (x : ExceptT ε (StateM σ) α) (s : σ) : Except ε α × σ := x.run.run s

theorem outcome_bind {x : ExceptT ε (StateM σ) α} {f : α → ExceptT ε (StateM σ) β} {s : σ} :
    outcome (x >>= f) s =
      match outcome x s with
      | (.ok a, t) => outcome (f a) t
      | (.error e, t) => (.error e, t) := by
  unfold outcome
  rw [ExceptT.run_bind, StateT.run_bind]
  rcases x.run.run s with ⟨_ | _, _⟩ <;> rfl

theorem outcome_bind_eq_ok {x : ExceptT ε (StateM σ) α} {f : α → ExceptT ε (StateM σ) β} {b : β}
    {s s' : σ} :
    outcome (x >>= f) s = (.ok b, s') ↔
      ∃ a t, outcome x s = (.ok a, t) ∧ outcome (f a) t = (.ok b, s') := by
  rw [outcome_bind]
  rcases outcome x s with ⟨_ | a, t⟩ <;> simp

@[simp] theorem outcome_pure (a : α) (s : σ) :
    outcome (pure a : ExceptT ε (StateM σ) α) s = (.ok a, s) := rfl

@[simp] theorem outcome_liftM (x : Except ε α) (s : σ) :
    outcome (liftM x : ExceptT ε (StateM σ) α) s = (x, s) := rfl

end StorePlan
