import Omsrs.Virtual.Fill
import Omsrs.Virtual.Theorems.Conservation

/-!
# The two fill engines

The engine of the simulation and the one of the replica broker do the same to an order, which is filled
in full by the first price that crosses its limit or its trigger, and never for a worse price than its
limit.
-/

namespace Omsrs.Virtual
open Omsrs.Lib Omsrs.Replica

variable {R : Type}

/-! ## One engine -/

section Engines

variable {F : Type} [Quantity F]

theorem asMarket_order (fill : OrderFill F) :
    fill.asMarket = { fill with order := fill.order.applyAsMarket fill.lastPrice } := by
  obtain ⟨⟨_, _, _, side, price, _, trigger, _, type, _, _, _⟩, ltp⟩ := fill
  cases type with
  | market => rfl
  | limit =>
      cases price with
      | none => rfl
      | some price => cases side <;> rfl
  | stop =>
      unfold OrderFill.asMarket VOrder.applyAsMarket
      dsimp only
      cases trigger.or price with
      | none => rfl
      | some price => cases side <;> rfl

theorem updateWithPrice_order (fill : OrderFill F) (price : F) :
    fill.updateWithPrice (some price) = { fill with order := fill.order.applyFillUpdate price } := by
  unfold OrderFill.updateWithPrice VOrder.applyFillUpdate
  cases fill.order.isDone with
  | true => rfl
  | false =>
      simp only [Bool.false_eq_true, if_false]
      obtain ⟨⟨_, _, _, side, limit, _, trigger, _, type, _, _, _⟩, ltp⟩ := fill
      cases type with
      | market => rfl
      | limit =>
          cases limit with
          | none => rfl
          | some limit =>
              cases side with
              | buy => by_cases h : price < limit <;> simp [VOrder.limitMet, h]
              | sell => by_cases h : limit < price <;> simp [VOrder.limitMet, h]
      | stop =>
          cases trigger with
          | some stop =>
              cases side with
              | buy => by_cases h : stop < price <;> simp [VOrder.stopMet, h]
              | sell => by_cases h : price < stop <;> simp [VOrder.stopMet, h]
          | none =>
              cases limit with
              | none => rfl
              | some stop =>
                  cases side with
                  | buy => by_cases h : stop < price <;> simp [VOrder.stopMet, h]
                  | sell => by_cases h : price < stop <;> simp [VOrder.stopMet, h]

theorem updates_order (fill : OrderFill F) (prices : List F) :
    fill.updates prices =
      { fill with order := prices.foldl (fun o price => o.applyFillUpdate price) fill.order } := by
  induction prices generalizing fill with
  | nil => rfl
  | cons price prices ih =>
      simp only [OrderFill.updates, List.foldl_cons, updateWithPrice_order] at ih ⊢
      exact ih _

end Engines

/-! ## Along the prices -/

/-- Whether one of the prices fills an order; a market order does not look at the first. -/
def crossed (first : ℚ) (later : List ℚ) (o : VOrder ℚ) : Bool :=
  (decide (o.orderType ≠ .market) && o.isMet first) || later.any (o.isMet ·)

/-- A limit order that has filled anything has a limit, and its price is no worse. -/
def PriceProtected (o : VOrder ℚ) : Prop :=
  o.orderType = .limit → 0 < o.filledQuantity → ∃ limit averagePrice, o.price = some limit ∧
    o.averagePrice = some averagePrice ∧
    match o.side with
    | .buy => averagePrice ≤ limit
    | .sell => limit ≤ averagePrice

/-- What an order has become, `hit` telling whether one of the prices has filled it. -/
structure Along (o : VOrder ℚ) (hit : Bool) (s : VOrder ℚ) : Prop where
  quantity : s.quantity = o.quantity
  met : ∀ price, s.isMet price = o.isMet price
  orderType : s.orderType = o.orderType
  filled : s.filledQuantity = if hit then o.quantity else 0
  pending : s.pendingQuantity = if hit then 0 else o.quantity
  canceled : s.canceledQuantity = 0
  fair : PriceProtected s

variable {o s : VOrder ℚ} {hit : Bool}

theorem normalise_unfilled {q : ℚ} (hq : 0 ≤ q) : normaliseQuantities q 0 q 0 = (0, q, 0) := by
  rcases hq.lt_or_eq with hq | rfl
  · exact (normalise_pending le_rfl le_rfl hq).mpr ⟨le_rfl, (sub_self q).symm⟩
  · exact (normalise_none le_rfl le_rfl le_rfl).mpr (sub_self 0).symm

theorem normalise_full {q : ℚ} (hq : 0 ≤ q) : normaliseQuantities q q q 0 = (q, 0, 0) := by
  rcases hq.lt_or_eq with hq | rfl
  · rw [normaliseQuantities_eq, if_neg (lt_irrefl 0), if_pos hq, min_self, sub_self]
  · exact (normalise_none le_rfl le_rfl le_rfl).mpr (sub_self 0).symm

/-- A fill in full of an order that has none. -/
theorem Along.fill (hq : 0 ≤ o.quantity) (h : Along o false s) {s' : VOrder ℚ}
    (hquantity : s'.quantity = s.quantity) (hmet : ∀ price, s'.isMet price = s.isMet price)
    (htype : s'.orderType = s.orderType) (hfilled : s'.filledQuantity = s'.quantity)
    (hpending : s'.pendingQuantity = s.pendingQuantity)
    (hcanceled : s'.canceledQuantity = s.canceledQuantity)
    (hfair : s'.orderType = .limit → ∃ limit averagePrice, s'.price = some limit ∧
      s'.averagePrice = some averagePrice ∧
      match s'.side with
      | .buy => averagePrice ≤ limit
      | .sell => limit ≤ averagePrice) :
    Along o true s'.makeRightQuantity := by
  have hp : s'.pendingQuantity = s'.quantity := by
    rw [hpending, h.pending, hquantity, h.quantity]
    rfl
  have hright := normalise_full (hquantity.trans h.quantity ▸ hq : 0 ≤ s'.quantity)
  have hn : normaliseQuantities s'.quantity s'.filledQuantity s'.pendingQuantity s'.canceledQuantity =
      (o.quantity, 0, 0) := by
    rw [hfilled, hp, hcanceled, h.canceled, hright, hquantity, h.quantity]
  have hparts : s'.makeRightQuantity =
      { s' with filledQuantity := o.quantity, pendingQuantity := 0, canceledQuantity := 0 } := by
    simp only [VOrder.makeRightQuantity, hn]
  rw [hparts]
  exact ⟨hquantity.trans h.quantity, fun price => (hmet price).trans (h.met price),
    htype.trans h.orderType, rfl, rfl, rfl, fun ht _ => hfair ht⟩

/-- An order whose quantities are put right with nothing filled. -/
theorem Along.rest (hq : 0 ≤ o.quantity) (h : Along o false s) : s.makeRightQuantity = s := by
  have hn : normaliseQuantities s.quantity s.filledQuantity s.pendingQuantity s.canceledQuantity =
      (s.filledQuantity, s.pendingQuantity, s.canceledQuantity) := by
    rw [h.quantity, h.filled, h.pending, h.canceled]
    exact normalise_unfilled hq
  simp only [VOrder.makeRightQuantity, hn]

theorem Along.isDone (h : Along o true s) : s.isDone = true := by
  rw [VOrder.isDone_iff, h.quantity, h.filled]
  exact .inl rfl

/-- An order of quantity zero is filled and unfilled at once. -/
theorem Along.of_zero (h : Along o hit s) (hq : o.quantity = 0) (hit' : Bool) : Along o hit' s := by
  refine ⟨h.quantity, h.met, h.orderType, ?_, ?_, h.canceled, h.fair⟩
  · rw [h.filled, hq, ite_self, ite_self]
  · rw [h.pending, hq, ite_self, ite_self]

theorem Along.isDone_false (h : Along o false s) (hq : 0 < o.quantity) : s.isDone = false := by
  have hp : s.pendingQuantity = o.quantity := h.pending
  have hf : s.filledQuantity = 0 := h.filled
  simp only [VOrder.isDone, h.quantity, hf, hp, h.canceled, Bool.or_eq_false_iff,
    decide_eq_false_iff_not]
  exact ⟨⟨hq.ne', hq.ne'⟩, not_le.mpr hq⟩

/-- The first price. -/
theorem Along.asMarket (hq : 0 ≤ o.quantity) (h : Along o false s) (price : ℚ) :
    Along o (decide (o.orderType ≠ .market) && o.isMet price) (s.applyAsMarket price) := by
  rw [← h.orderType, ← h.met]
  have hrest := h.rest hq
  obtain ⟨id, symbol, q, side, limit, avg, trigger, msg, type, f, p, c⟩ := s
  cases type with
  | market => exact h
  | limit =>
      cases limit with
      | none => exact h
      | some limit =>
          show Along o (VOrder.limitMet _ price limit) (VOrder.fillIf (VOrder.limitMet _ price limit) _ _)
          cases hmet : VOrder.limitMet _ price limit with
          | false =>
              unfold VOrder.fillIf
              rw [if_neg Bool.false_ne_true, hrest]
              exact h
          | true =>
              refine h.fill hq rfl (fun _ => rfl) rfl rfl rfl rfl fun _ => ⟨limit, price, rfl, rfl, ?_⟩
              cases side with
              | buy => exact (of_decide_eq_true hmet).le
              | sell => exact (of_decide_eq_true hmet).le
  | stop =>
      cases hstop : trigger.or limit with
      | none =>
          simp only [VOrder.isMet, VOrder.applyAsMarket, hstop, Option.any_none, Bool.and_false]
          exact h
      | some stop =>
          simp only [VOrder.isMet, VOrder.applyAsMarket, hstop, Option.any_some, ne_eq, reduceCtorEq,
            not_false_eq_true, decide_true, Bool.true_and]
          cases hmet : VOrder.stopMet _ price stop with
          | false =>
              unfold VOrder.fillIf
              rw [if_neg Bool.false_ne_true, hrest]
              exact h
          | true => exact h.fill hq rfl (fun _ => rfl) rfl rfl rfl rfl nofun

/-- Every later price. -/
theorem Along.update (hq : 0 ≤ o.quantity) (h : Along o hit s) (price : ℚ) :
    Along o (hit || o.isMet price) (s.applyFillUpdate price) := by
  have hdone : s.isDone = true → s.applyFillUpdate price = s := by
    intro hd
    unfold VOrder.applyFillUpdate
    rw [if_pos hd]
  cases hit with
  | true =>
      rw [hdone h.isDone]
      exact h
  | false =>
      rw [Bool.false_or]
      rcases hq.lt_or_eq with hpos | hzero
      · have hd := h.isDone_false hpos
        rw [← h.met]
        unfold VOrder.applyFillUpdate
        rw [if_neg (Bool.eq_false_iff.mp hd)]
        clear hdone hd
        obtain ⟨id, symbol, q, side, limit, avg, trigger, msg, type, f, p, c⟩ := s
        cases type with
        | market => exact h.fill hq rfl (fun _ => rfl) rfl rfl rfl rfl nofun
        | limit =>
            cases limit with
            | none => exact h
            | some limit =>
                simp only [VOrder.isMet, Option.any_some]
                cases hmet : VOrder.limitMet _ price limit with
                | false =>
                    rw [if_neg Bool.false_ne_true]
                    exact h
                | true =>
                    rw [if_pos rfl]
                    refine h.fill hq rfl (fun _ => rfl) rfl rfl rfl rfl
                      fun _ => ⟨limit, limit, rfl, rfl, ?_⟩
                    cases side <;> exact le_rfl
        | stop =>
            have hor : (trigger.or limit).or limit = trigger.or limit := by
              cases trigger <;> cases limit <;> rfl
            have hset : Along o false
                ⟨id, symbol, q, side, limit, avg, trigger.or limit, msg, .stop, f, p, c⟩ := by
              refine ⟨h.quantity, fun p' => ?_, h.orderType, h.filled, h.pending, h.canceled, nofun⟩
              rw [← h.met]
              simp only [VOrder.isMet, hor]
              rfl
            simp only [VOrder.isMet]
            cases hstop : trigger.or limit with
            | none =>
                rw [hstop] at hset
                exact hset
            | some stop =>
                rw [hstop] at hset
                rw [Option.any_some]
                show Along o (VOrder.stopMet ⟨id, symbol, q, side, limit, avg, some stop, msg, .stop, f, p, c⟩
                  price stop) (if VOrder.stopMet _ price stop then _ else _)
                cases hmet : VOrder.stopMet _ price stop with
                | false =>
                    rw [if_neg Bool.false_ne_true]
                    exact hset
                | true =>
                    rw [if_pos rfl]
                    exact hset.fill hq rfl (fun _ => rfl) rfl rfl rfl rfl nofun
      · rw [hdone (h.of_zero hzero.symm true).isDone]
        exact h.of_zero hzero.symm _

theorem Along.updates (hq : 0 ≤ o.quantity) (h : Along o hit s) (prices : List ℚ) :
    Along o (hit || prices.any (o.isMet ·)) (prices.foldl (fun o price => o.applyFillUpdate price) s) := by
  induction prices generalizing hit s with
  | nil => simpa using h
  | cons price prices ih =>
      rw [List.foldl_cons, List.any_cons, ← Bool.or_assoc]
      exact ih (h.update hq price)

/-- An order that a price has filled stays as it is. -/
theorem Along.settled (h : Along o true s) (prices : List ℚ) :
    prices.foldl (fun o price => o.applyFillUpdate price) s = s := by
  induction prices with
  | nil => rfl
  | cons price prices ih =>
      rw [List.foldl_cons, VOrder.applyFillUpdate, if_pos h.isDone]
      exact ih

/-- A new order has met no price. -/
theorem Along.new {w : World ℚ R} {init : VOrderInit ℚ} {o : VirtualOrder ℚ R}
    (h : VirtualOrder.fromInit w init = .ok o) (hf : init.filledQuantity = none)
    (hp : init.pendingQuantity = none) (hc : init.canceledQuantity = none) :
    o.pub.quantity = init.quantity ∧ Along o.pub.toVOrder false o.pub.toVOrder := by
  obtain ⟨hq, hu, -⟩ := fromInit_place h hf hp hc
  refine ⟨hq, rfl, fun _ => rfl, rfl, hu.filled, hu.pending, hu.canceled, fun _ hpos => ?_⟩
  rw [hu.filled] at hpos
  exact absurd hpos (lt_irrefl 0)

/-! ## From the initial price on -/

/-- The two engines make the same of a new order at every price. It is filled in full when the first
price crosses its limit or its trigger, a market order by the first price after the initial one, and
stays as it is from then on; a limit order is filled at its limit or better, and the quantities add up. -/
theorem fill_engines_agree (w : World ℚ R) (init : VOrderInit ℚ) (o : VirtualOrder ℚ R)
    (h : VirtualOrder.fromInit w init = .ok o) (hq : 0 ≤ init.quantity)
    (hf : init.filledQuantity = none) (hp : init.pendingQuantity = none)
    (hc : init.canceledQuantity = none) (first : ℚ) (later : List ℚ) :
    let order := o.pub.toVOrder
    let fill := (OrderFill.new order first).updates later
    fill.order = later.foldl (fun o price => o.applyFillUpdate price) (order.applyAsMarket first) ∧
      fill.order.filledQuantity = (if crossed first later order then init.quantity else 0) ∧
      (crossed first later order = true → ∀ more, fill.updates more = fill) ∧
      PriceProtected fill.order ∧
      fill.order.quantity = init.quantity ∧
      fill.order.filledQuantity + fill.order.pendingQuantity + fill.order.canceledQuantity =
        fill.order.quantity := by
  intro order fill
  obtain ⟨hquantity, hnew⟩ := Along.new h hf hp hc
  have hq' : 0 ≤ order.quantity := hquantity ▸ hq
  have hfill : fill.order =
      later.foldl (fun o price => o.applyFillUpdate price) (order.applyAsMarket first) := by
    simp only [fill, OrderFill.new, asMarket_order, updates_order]
  have halong : Along order (crossed first later order) fill.order := by
    rw [hfill]
    exact (hnew.asMarket hq' first).updates hq' later
  refine ⟨hfill, ?_, fun hcrossed more => ?_, halong.fair, halong.quantity.trans hquantity, ?_⟩
  · rw [halong.filled, hquantity]
  · rw [hcrossed] at halong
    rw [updates_order, halong.settled]
  · rw [halong.filled, halong.pending, halong.canceled, halong.quantity]
    cases crossed first later order <;> simp

namespace Sample

/-- A limit order to sell ten at 124. -/
def sellTen : VOrderInit ℚ :=
  { orderId := "a", symbol := "AAPL", quantity := 10, side := some .sell, price := some 124,
    orderType := some .limit }

end Sample

open Sample in
/-- Sold at 124 by the second price after an initial price of 120. -/
theorem fill_engines_agree_sell : ∃ o, VirtualOrder.fromInit calm sellTen = .ok o ∧
    (let order := o.pub.toVOrder
     let fill := (OrderFill.new order 120).updates [123, 130]
     fill.order =
        [123, 130].foldl (fun o price => o.applyFillUpdate price) (order.applyAsMarket 120) ∧
      fill.order.filledQuantity = (if crossed 120 [123, 130] order then sellTen.quantity else 0) ∧
      (crossed 120 [123, 130] order = true → ∀ more, fill.updates more = fill) ∧
      PriceProtected fill.order ∧
      fill.order.quantity = sellTen.quantity ∧
      fill.order.filledQuantity + fill.order.pendingQuantity + fill.order.canceledQuantity =
        fill.order.quantity) :=
  ⟨_, rfl, fill_engines_agree calm sellTen _ rfl (by decide +kernel) rfl rfl rfl 120 [123, 130]⟩

end Omsrs.Virtual
