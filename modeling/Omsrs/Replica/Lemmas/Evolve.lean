import Omsrs.Replica.Async
import Omsrs.Replica.Lemmas.Broker

/-!
# How an order evolves

While its quantity stays, an order is open with nothing filled and nothing canceled, or it is done and
stays as it is.
-/

namespace Omsrs.Replica
open Omsrs.Lib

variable {F : Type} [Quantity F] {o o' : VOrder F} {b b' : ReplicaBroker F} {h : Handle}

namespace VOrder

def Clean (o : VOrder F) : Prop :=
  o.isDone = true ∨ (o.filledQuantity = 0 ∧ o.canceledQuantity = 0)

/-- From one section to the next. -/
structure Evolves (o o' : VOrder F) : Prop where
  clean : o.Clean → o'.Clean
  done : o.isDone = true → o'.isDone = true ∧ o'.filledQuantity = o.filledQuantity ∧
    o'.canceledQuantity = o.canceledQuantity

theorem Evolves.refl (o : VOrder F) : Evolves o o := ⟨id, fun h => ⟨h, rfl, rfl⟩⟩

/-! ## New orders -/

/-- The quantities of a new order. -/
structure Unfilled (o : VOrder F) : Prop where
  filled : o.filledQuantity = 0
  pending : o.pendingQuantity = o.quantity
  canceled : o.canceledQuantity = 0

theorem ofArgs_unfilled {orderId : String} {args : Args F} (h : ofArgs orderId args = some o) :
    o.Unfilled := by
  unfold ofArgs at h
  obtain ⟨side, _, rfl⟩ := Option.map_eq_some_iff.mp h
  refine ⟨?_, ?_, ?_⟩ <;> simp [normaliseQuantities, Quantity.sub_zero]

theorem Unfilled.makeRightQuantity (h : o.Unfilled) : o.makeRightQuantity.Clean := by
  refine .inr ?_
  simp only [VOrder.makeRightQuantity, normaliseQuantities, h.filled, h.canceled, h.pending,
    lt_irrefl, ↓reduceIte]
  split <;> simp [Quantity.sub_self]

theorem Unfilled.fillIf (h : o.Unfilled) (met : Bool) (lastPrice : F) :
    (o.fillIf met lastPrice).Clean := by
  cases met with
  | true => exact .inl (makeRightQuantity_isDone rfl)
  | false => exact h.makeRightQuantity

theorem Unfilled.applyAsMarket (h : o.Unfilled) (lastPrice : F) :
    (o.applyAsMarket lastPrice).Clean := by
  unfold VOrder.applyAsMarket
  split
  · split
    · exact .inr ⟨h.filled, h.canceled⟩
    · exact h.fillIf _ _
  · split
    · exact .inr ⟨h.filled, h.canceled⟩
    · exact h.fillIf _ _
  · exact .inr ⟨h.filled, h.canceled⟩

theorem reject_isDone (o : VOrder F) : o.reject.isDone = true := isDone_iff.mpr (.inr (.inl rfl))

/-! ## Sections under the lock of an order -/

theorem applyFillUpdate_evolves (lastPrice : F) (o : VOrder F) :
    Evolves o (o.applyFillUpdate lastPrice) := by
  rcases applyFillUpdate_cases lastPrice o with ⟨h, _⟩ | ⟨hd, _, h⟩ | ⟨hd, _, _, _, _, h⟩
  · rw [h]
    exact .refl o
  · rw [h]
    exact ⟨id, fun hd' => ⟨hd', rfl, rfl⟩⟩
  · rw [h]
    refine ⟨fun _ => .inl (makeRightQuantity_isDone rfl), fun hd' => ?_⟩
    rw [hd] at hd'
    cases hd'

/-- An open order is canceled in full. -/
theorem Clean.cancel (hc : o.Clean) (hd : o.isDone = false) :
    o.cancel.isDone = true ∧ o.cancel.filledQuantity = 0 := by
  rcases hc with hc | ⟨hf, _⟩
  · rw [hd] at hc
    cases hc
  · refine ⟨isDone_iff.mpr (.inr (.inl ?_)), hf⟩
    show o.quantity = o.quantity - o.filledQuantity
    rw [hf, Quantity.sub_zero]

theorem cancel_evolves (hd : o.isDone = false) : Evolves o o.cancel :=
  ⟨fun hc => .inl (hc.cancel hd).1, fun hd' => by rw [hd] at hd'; cases hd'⟩

theorem modifyField_quantities (o : VOrder F) (a : String × Value F) :
    (o.modifyField a).filledQuantity = o.filledQuantity ∧
      (o.modifyField a).pendingQuantity = o.pendingQuantity ∧
      (o.modifyField a).canceledQuantity = o.canceledQuantity := by
  unfold modifyField
  split <;> exact ⟨rfl, rfl, rfl⟩

theorem modify_quantities (args : Args F) (o : VOrder F) :
    (o.modify args).filledQuantity = o.filledQuantity ∧
      (o.modify args).pendingQuantity = o.pendingQuantity ∧
      (o.modify args).canceledQuantity = o.canceledQuantity := by
  unfold modify
  generalize args.entries = l
  induction l generalizing o with
  | nil => exact ⟨rfl, rfl, rfl⟩
  | cons a l ih =>
      obtain ⟨h₁, h₂, h₃⟩ := ih (o.modifyField a)
      obtain ⟨h₄, h₅, h₆⟩ := modifyField_quantities o a
      exact ⟨h₁.trans h₄, h₂.trans h₅, h₃.trans h₆⟩

theorem modify_evolves {args : Args F} (hq : (o.modify args).quantity = o.quantity) :
    Evolves o (o.modify args) := by
  obtain ⟨hf, hp, hc⟩ := modify_quantities args o
  have hd : (o.modify args).isDone = o.isDone := by simp only [isDone, hq, hf, hp, hc]
  refine ⟨fun h => ?_, fun h => ⟨hd.trans h, hf, hc⟩⟩
  rw [Clean, hd, hf, hc]
  exact h

end VOrder

/-! ## Cells -/

def CleanCells (b : ReplicaBroker F) : Prop := ∀ h o, b.cell h = some o → o.Clean

/-- The orders that are done stay as they are. -/
def Frozen (b b' : ReplicaBroker F) : Prop :=
  ∀ h o, b.cell h = some o → o.isDone = true → ∃ o', b'.cell h = some o' ∧ o'.isDone = true ∧
    o'.filledQuantity = o.filledQuantity ∧ o'.canceledQuantity = o.canceledQuantity

theorem Frozen.refl (b : ReplicaBroker F) : Frozen b b := fun _ o h hd => ⟨o, h, hd, rfl, rfl⟩

theorem Frozen.trans {c : ReplicaBroker F} (h : Frozen b b') (h' : Frozen b' c) : Frozen b c := by
  intro j o hj hd
  obtain ⟨o', hj', hd', hf, hc⟩ := h j o hj hd
  obtain ⟨o'', hj'', hd'', hf', hc'⟩ := h' j o' hj' hd'
  exact ⟨o'', hj'', hd'', hf'.trans hf, hc'.trans hc⟩

theorem isDone_cell {j : Handle} :
    b.isDone j = true ↔ ∃ o, b.cell j = some o ∧ o.isDone = true := by
  unfold ReplicaBroker.isDone
  cases b.cell j <;> simp

theorem Frozen.isDone (h : Frozen b b') {j : Handle} (hd : b.isDone j = true) :
    b'.isDone j = true := by
  obtain ⟨o, ho, hdo⟩ := isDone_cell.mp hd
  obtain ⟨o', ho', hd', _⟩ := h j o ho hdo
  exact isDone_cell.mpr ⟨o', ho', hd'⟩

/-- The cells are the same. -/
theorem Frozen.of_cells (h : b'.cells = b.cells) : Frozen b b' := by
  intro j o hj hd
  exact ⟨o, by rw [ReplicaBroker.cell, h]; exact hj, hd, rfl, rfl⟩

theorem onCell_evolves {f : VOrder F → VOrder F}
    (hf : ∀ o, b.cell h = some o → o.Evolves (f o)) (hc : CleanCells b) :
    CleanCells (b.onCell h f) ∧ Frozen b (b.onCell h f) := by
  constructor
  · intro j o hj
    rw [ReplicaBroker.cell_onCell] at hj
    split at hj
    · rename_i he
      subst he
      obtain ⟨o', ho', rfl⟩ := Option.map_eq_some_iff.mp hj
      exact (hf o' ho').clean (hc h o' ho')
    · exact hc j o hj
  · intro j o hj hd
    rw [ReplicaBroker.cell_onCell]
    split
    · rename_i he
      subst he
      exact ⟨f o, by rw [hj]; rfl, (hf o hj).done hd⟩
    · exact ⟨o, hj, hd, rfl, rfl⟩

end Omsrs.Replica
