import Omsrs.Replica.Lemmas.Exact
import Omsrs.Virtual.Order

/-!
# Copies and quantities of an order

A copy has the fields of the order, with its quantities put right. An order is copied as it is when its
quantities are right already.
-/

namespace Omsrs.Virtual
open Omsrs.Lib Omsrs.Replica

variable {R : Type}

/-! ## Copies -/

section Copy

variable {F : Type} [Amount F]

/-- The copy of an order that readers get. -/
def copyOf (w : World F R) (o : PublicOrder F) : PublicOrder F :=
  let n := normaliseQuantities o.quantity o.filledQuantity o.pendingQuantity o.canceledQuantity
  { o with
    averagePrice := o.averagePrice.or (some 0)
    timestamp := some (o.timestamp.getD w.utcNow)
    filledQuantity := n.1
    pendingQuantity := n.2.1
    canceledQuantity := n.2.2 }

theorem clonedCloneWeak_eq (w : World F R) (o : PublicOrder F) :
    VirtualOrder.clonedCloneWeak w o = some (copyOf w o) := by
  cases ht : o.timestamp <;>
    simp [VirtualOrder.clonedCloneWeak, VirtualOrder.fromInit, VOrderInit.parsedSide,
      VOrderInit.parsedOrderType, copyOf, ht, pure, Except.pure, bind,
      Except.bind, Except.toOption]

/-- The quantities are right: putting them right leaves them. -/
def Upright (o : PublicOrder F) : Prop :=
  normaliseQuantities o.quantity o.filledQuantity o.pendingQuantity o.canceledQuantity =
    (o.filledQuantity, o.pendingQuantity, o.canceledQuantity)

/-- An order has its time and its average price. -/
def Dated (o : PublicOrder F) : Prop := o.timestamp.isSome ∧ o.averagePrice.isSome

theorem copyOf_eq_iff (w : World F R) (o : PublicOrder F) : copyOf w o = o ↔ Upright o ∧ Dated o := by
  obtain ⟨⟨id, symbol, q, side, price, avg, trigger, msg, type, f, p, c⟩, ts, exchangeId, exchangeTime, delay⟩ := o
  cases ts <;> cases avg <;> simp [copyOf, Upright, Dated, Prod.ext_iff]

end Copy

/-! ## Exact quantities -/

section Exact

/-- What a status asks of the quantities of an open order, so that it leaves them right. -/
def Suits (o : PublicOrder ℚ) : Status → Prop
  | .complete | .rejected | .canceled => 0 ≤ o.quantity
  | .openOrder => o.pendingQuantity = o.quantity
  | .partialFill | .pending => 1 ≤ o.quantity ∧ o.quantity = Amount.toI64 o.quantity

theorem toI64_one : Amount.toI64 (1 : ℚ) = 1 := by decide

/-- The parts of a quantity: one and the rest, or two parts that are at least one. -/
theorem split_cases (w : World ℚ R)
    (hw : ∀ rng n, 1 < n → 1 ≤ (w.genRange rng n).1 ∧ (w.genRange rng n).1 < n)
    (o : VirtualOrder ℚ R) :
    ∃ a b rng, o.split w = (a, b, rng) ∧ a + b = Amount.toI64 o.pub.quantity ∧
      (1 ≤ a ∧ 1 ≤ b ∨ a = 1 ∧ b ≤ 0) := by
  unfold VirtualOrder.split
  by_cases h : 1 < Amount.toI64 o.pub.quantity
  · obtain ⟨hlow, hhigh⟩ := hw o.rng _ h
    simp only [h, if_true]
    exact ⟨_, _, _, rfl, by omega, .inl ⟨hlow, by omega⟩⟩
  · simp only [h, if_false]
    exact ⟨_, _, _, rfl, by omega, .inr ⟨rfl, by omega⟩⟩

theorem open_pending {o : VirtualOrder ℚ R} (h : o.isDone = false) : 0 < o.pub.pendingQuantity := by
  simp only [VirtualOrder.isDone, VOrder.isDone, Bool.or_eq_false_iff, decide_eq_false_iff_not] at h
  exact not_le.mp h.2

/-- A status leaves the quantities of an open order right exactly where they suit it. -/
theorem upright_iff_suits (w : World ℚ R)
    (hw : ∀ rng n, 1 < n → 1 ≤ (w.genRange rng n).1 ∧ (w.genRange rng n).1 < n)
    {o : VirtualOrder ℚ R} (h : o.isDone = false) (status : Status) :
    Upright (o.modifyOrderByStatus w status).pub ↔ Suits o.pub status := by
  have hp := open_pending h
  have hwhole : normaliseQuantities o.pub.quantity 0 0 o.pub.quantity = (0, 0, o.pub.quantity) ↔
      0 ≤ o.pub.quantity := by
    rcases lt_or_ge 0 o.pub.quantity with hq | hq
    · rw [normalise_canceled hq]
      exact iff_of_true ⟨le_rfl, (sub_self _).symm, rfl⟩ hq.le
    · rw [normalise_none hq le_rfl le_rfl, sub_zero]
      exact ⟨fun he => he.le, fun hle => le_antisymm hle hq⟩
  obtain ⟨a, b, rng, hsplit, hsum, hparts⟩ := split_cases w hw o
  have hcast : (a : ℚ) + b = Amount.toI64 o.pub.quantity := by exact_mod_cast hsum
  cases status with
  | complete =>
      show normaliseQuantities o.pub.quantity o.pub.quantity 0 0 = (o.pub.quantity, 0, 0) ↔
        0 ≤ o.pub.quantity
      rcases lt_or_ge 0 o.pub.quantity with hq | hq
      · rw [normalise_filled le_rfl hq]
        exact iff_of_true ⟨le_rfl, (sub_self _).symm⟩ hq.le
      · rw [normalise_none le_rfl hq le_rfl, sub_zero]
        exact ⟨fun he => he.le, fun hle => le_antisymm hle hq⟩
  | rejected => exact hwhole
  | canceled => exact hwhole
  | openOrder =>
      show normaliseQuantities o.pub.quantity 0 o.pub.pendingQuantity 0 =
        (0, o.pub.pendingQuantity, 0) ↔ o.pub.pendingQuantity = o.pub.quantity
      rw [normalise_pending le_rfl le_rfl hp]
      constructor
      · intro ⟨_, he⟩
        linarith
      · intro he
        rw [he]
        exact ⟨le_rfl, (sub_self _).symm⟩
  | partialFill =>
      simp only [VirtualOrder.modifyOrderByStatus, hsplit]
      show normaliseQuantities o.pub.quantity (a : ℚ) 0 (b : ℚ) = ((a : ℚ), 0, (b : ℚ)) ↔ _
      simp only [Suits]
      rw [← hcast]
      rcases hparts with ⟨ha, hb⟩ | ⟨rfl, hb⟩
      · have ha' : (1 : ℚ) ≤ a := by exact_mod_cast ha
        have hb' : (1 : ℚ) ≤ b := by exact_mod_cast hb
        rw [normalise_canceled (by linarith)]
        constructor
        · rintro ⟨hle, he, -⟩
          exact ⟨by linarith, by linarith⟩
        · rintro ⟨-, he⟩
          exact ⟨by linarith, by linarith, rfl⟩
      · have hb' : (b : ℚ) ≤ 0 := by exact_mod_cast hb
        rw [normalise_filled hb' (by norm_num), Int.cast_one]
        constructor
        · rintro ⟨hle, he⟩
          have hone : o.pub.quantity = 1 := by linarith
          rw [hone, toI64_one] at hcast
          refine ⟨hle, ?_⟩
          rw [hone]
          simpa using hcast.symm
        · rintro ⟨hle, he⟩
          exact ⟨hle, by linarith⟩
  | pending =>
      simp only [VirtualOrder.modifyOrderByStatus, hsplit]
      show normaliseQuantities o.pub.quantity (a : ℚ) (b : ℚ) 0 = ((a : ℚ), (b : ℚ), 0) ↔ _
      simp only [Suits]
      rw [← hcast]
      have ha' : (1 : ℚ) ≤ a := by
        rcases hparts with ⟨ha, -⟩ | ⟨rfl, -⟩
        · exact_mod_cast ha
        · norm_num
      rw [normalise_filled le_rfl (by linarith)]
      constructor
      · rintro ⟨hle, he⟩
        exact ⟨by linarith, by linarith⟩
      · rintro ⟨hle, he⟩
        refine ⟨?_, by linarith⟩
        rcases hparts with ⟨-, hb⟩ | ⟨rfl, -⟩
        · have hb' : (1 : ℚ) ≤ b := by exact_mod_cast hb
          linarith
        · simpa using hle

end Exact

end Omsrs.Virtual
