import Omsrs.Replica.Order

/-!
# What becomes of an order

An update fills an open order exactly when its price is met, and a filled or canceled order of
unchanged quantity stays as it is.
-/

namespace Omsrs.Replica.VOrder

variable {F : Type} [Quantity F] {o : VOrder F} {lastPrice : F}

theorem isDone_iff :
    o.isDone = true ↔ o.quantity = o.filledQuantity ∨ o.quantity = o.canceledQuantity ∨
      o.pendingQuantity ≤ 0 := by
  simp only [isDone, Bool.or_eq_true, decide_eq_true_eq, or_assoc]

/-! ## Putting the quantities right -/

/-- A full fill is done whatever the other quantities were. -/
theorem makeRightQuantity_isDone (h : o.filledQuantity = o.quantity) :
    o.makeRightQuantity.isDone = true := by
  rw [isDone_iff]
  simp only [makeRightQuantity, normaliseQuantities, h]
  split
  · exact .inr (.inr (le_of_eq (Quantity.sub_self _)))
  · split
    · exact .inl (min_self _).symm
    · rename_i hq
      split
      · refine .inr (.inr ?_)
        exact (min_le_right _ _).trans (not_lt.mp hq)
      · exact .inl rfl

@[simp] theorem makeRightQuantity_orderId : o.makeRightQuantity.orderId = o.orderId := rfl
@[simp] theorem makeRightQuantity_symbol : o.makeRightQuantity.symbol = o.symbol := rfl
@[simp] theorem makeRightQuantity_quantity : o.makeRightQuantity.quantity = o.quantity := rfl

/-! ## Updating -/

/-- The two ways an update can go. -/
theorem applyFillUpdate_cases (lastPrice : F) (o : VOrder F) :
    (o.applyFillUpdate lastPrice = o ∧ (o.isDone = true ∨ o.isMet lastPrice = false)) ∨
    (o.isDone = false ∧ o.isMet lastPrice = false ∧
      o.applyFillUpdate lastPrice = { o with triggerPrice := o.triggerPrice.or o.price }) ∨
    (o.isDone = false ∧ o.isMet lastPrice = true ∧ ∃ price averagePrice triggerPrice,
      o.applyFillUpdate lastPrice =
        makeRightQuantity
          { o with
            price := price
            averagePrice := averagePrice
            triggerPrice := triggerPrice
            filledQuantity := o.quantity }) := by
  unfold applyFillUpdate
  by_cases hd : o.isDone = true
  · exact .inl ⟨if_pos hd, .inl hd⟩
  · have hopen : o.isDone = false := Bool.eq_false_iff.mpr hd
    rw [if_neg hd]
    clear hd
    unfold isMet
    obtain ⟨_, _, _, side, price, _, trigger, _, type, _, _, _⟩ := o
    dsimp only
    cases type with
    | market => exact .inr (.inr ⟨hopen, rfl, _, _, _, rfl⟩)
    | limit =>
        cases price with
        | none => exact .inl ⟨rfl, .inr rfl⟩
        | some price =>
            dsimp only [Option.any_some]
            split
            · rename_i hm
              exact .inr (.inr ⟨hopen, hm, _, _, _, rfl⟩)
            · rename_i hm
              exact .inl ⟨rfl, .inr (Bool.eq_false_iff.mpr hm)⟩
    | stop =>
        dsimp only
        cases trigger.or price with
        | none => exact .inr (.inl ⟨hopen, rfl, rfl⟩)
        | some trigger =>
            dsimp only [Option.any_some]
            split
            · rename_i hm
              exact .inr (.inr ⟨hopen, hm, _, _, _, rfl⟩)
            · rename_i hm
              exact .inr (.inl ⟨hopen, Bool.eq_false_iff.mpr hm, rfl⟩)

/-- After an update an order is done when it was, or when its price is met. -/
theorem applyFillUpdate_isDone (lastPrice : F) (o : VOrder F) :
    (o.applyFillUpdate lastPrice).isDone = (o.isDone || o.isMet lastPrice) := by
  rcases applyFillUpdate_cases lastPrice o with ⟨h, hd | hm⟩ | ⟨hd, hm, h⟩ | ⟨hd, hm, _, _, _, h⟩
  · rw [h, hd, Bool.true_or]
  · rw [h, hm, Bool.or_false]
  · rw [h, hm, Bool.or_false]
    rfl
  · rw [h, hm, Bool.or_true]
    exact makeRightQuantity_isDone rfl

theorem applyFillUpdate_frame (lastPrice : F) (o : VOrder F) :
    (o.applyFillUpdate lastPrice).orderId = o.orderId ∧
      (o.applyFillUpdate lastPrice).symbol = o.symbol ∧
      (o.applyFillUpdate lastPrice).quantity = o.quantity := by
  rcases applyFillUpdate_cases lastPrice o with ⟨h, _⟩ | ⟨_, _, h⟩ | ⟨_, _, _, _, _, h⟩ <;> rw [h] <;>
    exact ⟨rfl, rfl, rfl⟩

/-! ## Frames of the other operations -/

theorem fillIf_frame (met : Bool) (o : VOrder F) :
    (o.fillIf met lastPrice).orderId = o.orderId ∧ (o.fillIf met lastPrice).symbol = o.symbol := by
  cases met <;> exact ⟨rfl, rfl⟩

theorem applyAsMarket_frame (lastPrice : F) (o : VOrder F) :
    (o.applyAsMarket lastPrice).orderId = o.orderId ∧
      (o.applyAsMarket lastPrice).symbol = o.symbol := by
  unfold applyAsMarket
  split
  · split
    · exact ⟨rfl, rfl⟩
    · exact fillIf_frame _ o
  · split
    · exact ⟨rfl, rfl⟩
    · exact fillIf_frame _ o
  · exact ⟨rfl, rfl⟩

theorem modifyField_frame (o : VOrder F) (a : String × Value F) :
    (o.modifyField a).orderId = o.orderId ∧ (o.modifyField a).symbol = o.symbol := by
  unfold modifyField
  split <;> exact ⟨rfl, rfl⟩

theorem modify_frame (args : Args F) (o : VOrder F) :
    (o.modify args).orderId = o.orderId ∧ (o.modify args).symbol = o.symbol := by
  unfold modify
  generalize args.entries = l
  induction l generalizing o with
  | nil => exact ⟨rfl, rfl⟩
  | cons a l ih =>
      obtain ⟨h₁, h₂⟩ := ih (o.modifyField a)
      obtain ⟨h₃, h₄⟩ := modifyField_frame o a
      exact ⟨h₁.trans h₃, h₂.trans h₄⟩

theorem ofArgs_orderId {orderId : String} {args : Args F} (h : ofArgs orderId args = some o) :
    o.orderId = orderId := by
  unfold ofArgs at h
  obtain ⟨side, _, rfl⟩ := Option.map_eq_some_iff.mp h
  rfl

end Omsrs.Replica.VOrder
