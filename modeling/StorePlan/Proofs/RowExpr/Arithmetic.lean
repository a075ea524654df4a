import StorePlan.Proofs.DataType.Arithmetic

/-
Types of arithmetic calls whose operands are grouped into further calls
(`Regroups`). How a call is nested decides nothing that its operands' types do
not decide (`combines_of_regroups`). Numbers may also be exchanged, but for
decimals that differ (`type_apply_regroups_iff`): of those the first one is
kept, so that the order of the operands decides. A point in time or an interval
in front keeps its type only if no decimal and no floating-point number follows
(`type_apply_temporal_first`).
-/

namespace StorePlan

/-- Addition, subtraction, multiplication and division. -/
def RowOp.isArithmetic : RowOp → Bool
  | plus | minus | times | divide => true
  | _ => false

theorem RowOp.resultType_of_isArithmetic {op : RowOp} (h : op.isArithmetic = true)
    (ts : List DataType) : op.resultType ts = ts.foldl DataType.wider .null := by
  cases op with
  | plus | minus | times | divide => rfl
  | _ => cases h

namespace RowExpr

open DataType

variable {op : RowOp} {o : RowExpr} {es os ps : List RowExpr}

theorem type_apply (h : op.isArithmetic = true) (es : List RowExpr) :
    (apply op es).type = (es.map type).foldl wider .null :=
  RowOp.resultType_of_isArithmetic h _

/-- The first list has the operands of the second in their order, runs of which are grouped into
arithmetic calls, to any depth and by any of the operators. -/
inductive Regroups : List RowExpr → List RowExpr → Prop where
  | nil : Regroups [] []
  | operand {es os : List RowExpr} (o : RowExpr) : Regroups es os → Regroups (o :: es) (o :: os)
  | call {op : RowOp} {es fs os ps : List RowExpr} :
    op.isArithmetic = true → Regroups es os → Regroups fs ps →
      Regroups (apply op es :: fs) (os ++ ps)

theorem Regroups.refl (os : List RowExpr) : Regroups os os := by
  induction os with
  | nil => exact .nil
  | cons o rest ih => exact .operand o ih

/-- The types in front are those of operands that are taken together already. -/
theorem combines_foldl_of_regroups (h : Regroups es os) {ts : List DataType} {t : DataType}
    (ht : Combines ts t) : Combines (ts ++ os.map type) ((es.map type).foldl wider t) := by
  induction h generalizing ts t with
  | nil => simpa using ht
  | operand o _ ih => simpa using ih (ht.append (.single o.type))
  | call hop _ _ ihes ihfs =>
    have hcall := ihes .nil
    rw [List.nil_append, ← type_apply hop] at hcall
    simpa using ihfs (ht.append hcall)

theorem combines_of_regroups (hop : op.isArithmetic = true) (h : Regroups es os) :
    Combines (os.map type) (apply op es).type := by
  have hcombines := combines_foldl_of_regroups h .nil
  rwa [List.nil_append, ← type_apply hop] at hcombines

/-! ## Numbers -/

theorem type_apply_of_regroups (hop : op.isArithmetic = true)
    (hos : ∀ o ∈ os, IsNumericOrNull o.type) (h : Regroups es os) :
    (apply op es).type = (apply op os).type := by
  rw [type_apply hop os]
  exact (combines_of_regroups hop h).eq_foldl (List.forall_mem_map.2 hos)

theorem type_apply_of_decimal (hop : op.isArithmetic = true) (ho : o.type.isDecimal = true)
    (hfloat : ∀ p ∈ o :: os, p.type.isFloat = false) : (apply op (o :: os)).type = o.type := by
  have hcombines := combines_of_regroups hop (.refl (o :: os))
  exact hcombines.eq_decimal (by simpa using hfloat) (by simp [ho])

theorem type_apply_perm (hop : op.isArithmetic = true) (hperm : ps.Perm os)
    (hos : ∀ o ∈ os, IsNumericOrNull o.type)
    (h : (∃ o ∈ os, o.type.isFloat = true) ∨
      ∀ o ∈ os, ∀ p ∈ os, o.type.isDecimal = true → p.type.isDecimal = true → o.type = p.type) :
    (apply op ps).type = (apply op os).type := by
  have htypes := hperm.symm.map type
  rcases h with ⟨o, ho, hfloat⟩ | hagree
  · have hany : (os.map type).any isFloat = true :=
      List.any_eq_true.2 ⟨_, List.mem_map_of_mem ho, hfloat⟩
    rw [(combines_of_regroups hop (.refl os)).eq_float hany,
      (combines_of_regroups hop (.refl ps)).eq_float (htypes.any_eq.symm.trans hany),
      htypes.all_eq]
  · rw [type_apply hop, type_apply hop]
    refine (foldl_wider_perm htypes (List.forall_mem_map.2 hos) ?_).symm
    simpa using hagree

/-- Numbers, and `NULL`s among them, come to a type that does not depend on how they are grouped;
and it does not depend on their order exactly if one of them is floating-point or all decimals
among them have one precision and scale. -/
theorem type_apply_regroups_iff (hop : op.isArithmetic = true)
    (hos : ∀ o ∈ os, IsNumericOrNull o.type) :
    (∀ ps es, ps.Perm os → Regroups es ps → (apply op es).type = (apply op ps).type) ∧
      ((∀ ps es, ps.Perm os → Regroups es ps → (apply op es).type = (apply op os).type) ↔
        (∃ o ∈ os, o.type.isFloat = true) ∨
          ∀ o ∈ os, ∀ p ∈ os, o.type.isDecimal = true → p.type.isDecimal = true →
            o.type = p.type) := by
  have hgroup : ∀ ps es, ps.Perm os → Regroups es ps →
      (apply op es).type = (apply op ps).type := by
    intro ps es hperm hes
    exact type_apply_of_regroups hop (fun o ho => hos o (hperm.mem_iff.1 ho)) hes
  refine ⟨hgroup, ?_, ?_⟩
  · intro hsame
    by_cases hfloat : ∃ o ∈ os, o.type.isFloat = true
    · exact .inl hfloat
    · -- Each decimal can be put in front, where it decides.
      have hdecides : ∀ o ∈ os, o.type.isDecimal = true → (apply op os).type = o.type := by
        intro o ho hdecimal
        obtain ⟨before, behind, rfl⟩ := List.append_of_mem ho
        have hfront : (o :: (before ++ behind)).Perm (before ++ o :: behind) :=
          List.perm_middle.symm
        rw [← hsame _ _ hfront (.refl _)]
        refine type_apply_of_decimal hop hdecimal fun p hp => Bool.eq_false_iff.2 fun hp' => ?_
        exact hfloat ⟨p, hfront.mem_iff.1 hp, hp'⟩
      refine .inr fun o ho p hp hod hpd => ?_
      rw [← hdecides o ho hod, hdecides p hp hpd]
  · intro h ps es hperm hes
    rw [hgroup ps es hperm hes, type_apply_perm hop hperm hos h]

/-- A single-precision discount makes the product of two decimals one of double precision, also
when it stands in front of their product. -/
theorem type_apply_regroups_discount :
    (apply .times [field 2 (.float .bits32),
        apply .times [field 0 (.decimal (some 10) (some 2)),
          field 1 (.decimal (some 5) (some 2))]]).type = .float .bits64 := by
  have hproduct := @type_apply_regroups_iff .times
    [field 0 (.decimal (some 10) (some 2)), field 1 (.decimal (some 5) (some 2)),
      field 2 (.float .bits32)] rfl
    (List.forall_mem_cons.2 ⟨.decimal _ _, List.forall_mem_cons.2 ⟨.decimal _ _,
      List.forall_mem_singleton.2 (.float _)⟩⟩)
  exact hproduct.2.2 (.inl ⟨field 2 (.float .bits32), by simp, rfl⟩) _ _
    (List.perm_append_comm : ([_] ++ [_, _]).Perm ([_, _] ++ [_]))
    (.operand _ (.call rfl (.refl [_, _]) .nil))

/-- The sum of a rate and a total has the rate's precision if the rate stands in front. -/
theorem not_type_apply_regroups_rate :
    (∀ o ∈ [field 0 (.decimal (some 5) (some 2)), field 1 (.decimal (some 10) (some 2))],
      IsNumericOrNull o.type) ∧
      ¬∀ ps es,
        ps.Perm [field 0 (.decimal (some 5) (some 2)), field 1 (.decimal (some 10) (some 2))] →
        Regroups es ps → (apply .plus es).type =
          (apply .plus [field 0 (.decimal (some 5) (some 2)),
            field 1 (.decimal (some 10) (some 2))]).type := by
  refine ⟨List.forall_mem_cons.2 ⟨.decimal _ _, List.forall_mem_singleton.2 (.decimal _ _)⟩,
    fun h => ?_⟩
  have hswapped := h _ _ (.swap _ _ []) (.refl _)
  exact absurd hswapped (by decide)

/-! ## Points in time and intervals in front -/

theorem not_isNumericOrNull_of_isTemporal {t : DataType}
    (h : t.isTemporal = true ∨ t.isInterval = true) : ¬IsNumericOrNull t := by
  rintro (_ | _ | _ | _) <;> simp [isTemporal, isInterval] at h

/-- A point in time or an interval in front keeps its type, in any grouping of what follows, exactly
if neither a decimal nor a floating-point number follows. Floating-point numbers make the result one
of double precision, and else the first decimal is its type. -/
theorem type_apply_temporal_first (hop : op.isArithmetic = true)
    (ho : o.type.isTemporal = true ∨ o.type.isInterval = true) (h : Regroups es (o :: os)) :
    (apply op es).type =
        (if os.any (·.type.isFloat) then .float .bits64
          else ((os.map type).find? isDecimal).getD o.type) ∧
      ((apply op es).type = o.type ↔
        ∀ p ∈ os, p.type.isFloat = false ∧ p.type.isDecimal = false) := by
  have hcombines := combines_of_regroups hop h
  have hfirst := not_isNumericOrNull_of_isTemporal ho
  refine ⟨?_, ?_⟩
  · simpa [List.any_map] using hcombines.eq_of_cons hfirst
  · simpa using hcombines.eq_left_iff hfirst

/-- A timestamp is kept when a number of days is added. -/
theorem type_apply_temporal_first_days :
    (apply .plus [field 0 .timestamp,
        apply .times [field 1 (.interval .day), field 2 (.integer .bits32)]]).type =
      .timestamp := by
  have hkept := type_apply_temporal_first (by rfl : RowOp.plus.isArithmetic = true)
    (.inl rfl) (.operand (field 0 .timestamp) (.call (by rfl : RowOp.times.isArithmetic = true)
      (.refl [field 1 (.interval .day), field 2 (.integer .bits32)]) .nil))
  exact hkept.2.2 (by simp [isFloat, isDecimal, type])

/-- An interval times a double is typed as a double. -/
theorem not_type_apply_temporal_first_double :
    (field 0 (.interval .daySecond)).type.isInterval = true ∧
      (field 1 (.float .bits64)).type.isNumeric = true ∧
      (apply .times [field 0 (.interval .daySecond), field 1 (.float .bits64)]).type ≠
        (field 0 (.interval .daySecond)).type := by
  decide

end RowExpr

end StorePlan
