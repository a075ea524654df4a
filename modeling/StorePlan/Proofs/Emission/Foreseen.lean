import StorePlan.Proofs.Emission.Document
import StorePlan.Proofs.Emission.VectorStore

/-
The checks that emitters make in case a plan is not consistent never fail on
a plan that was obtained by building or by rewriting, whatever the settings.
-/

namespace StorePlan.Plan

/-- A plan that has been obtained fails to be emitted to its store in foreseen ways only. -/
theorem errorsAre_isForeseen_of_obtained {p : Plan} (hp : Obtained p) (settings : Settings) :
    (p.convention = .document →
      ErrorsAre DocumentError.IsForeseen (Document.pipeline settings p)) ∧
    (p.convention = .vector →
      ErrorsAre VectorStoreError.IsForeseen (VectorStore.request settings p)) :=
  ⟨Document.errorsAre_pipeline hp.built, VectorStore.errorsAre_request hp.built⟩

/-! ## A condition that no predicate stands for -/

/-- Orders, kept in a store of the convention. -/
def storedOrders (convention : Convention) : Plan :=
  ⟨.scan "orders" orders.schema, [], orders.schema, convention⟩

/-- That the price equals itself, which compares a field with a field. -/
def priceIsPrice : RowExpr :=
  .apply .equals [.field 0 (.float .bits64), .field 0 (.float .bits64)]

/-- The orders whose price equals itself. -/
def pricedOrders (convention : Convention) : Plan :=
  ⟨.filter priceIsPrice, [storedOrders convention], orders.schema, convention⟩

theorem isForeseen_of_emit_pricedOrders :
    (∃ e, Document.pipeline {} (pricedOrders .document) = .error e ∧ e.IsForeseen) ∧
      ∃ e, VectorStore.request {} (pricedOrders .vector) = .error e ∧ e.IsForeseen := by
  have hobtained (convention : Convention)
      (hfilter : filter (storedOrders convention) priceIsPrice = .ok (pricedOrders convention)) :
      Obtained (pricedOrders convention) :=
    have hscan : scan "orders" orders.schema convention = .ok (storedOrders convention) := rfl
    .filter (.scan hscan) hfilter
  have hdocument : ∃ e, Document.pipeline {} (pricedOrders .document) = .error e := ⟨_, rfl⟩
  have hvector : ∃ e, VectorStore.request {} (pricedOrders .vector) = .error e := ⟨_, rfl⟩
  obtain ⟨e, he⟩ := hdocument
  obtain ⟨f, hf⟩ := hvector
  exact ⟨⟨e, he, (errorsAre_isForeseen_of_obtained (hobtained .document rfl) {}).1 rfl e he⟩,
    ⟨f, hf, (errorsAre_isForeseen_of_obtained (hobtained .vector rfl) {}).2 rfl f hf⟩⟩

end StorePlan.Plan
