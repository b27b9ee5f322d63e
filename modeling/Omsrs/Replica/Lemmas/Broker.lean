import Omsrs.Replica.Broker
import Omsrs.Replica.Lemmas.Order

/-!
# The cells of a broker

What each call does to the cells, to the collections of handles and to the fills.
-/

namespace Omsrs.Replica
open Omsrs.Lib

namespace ReplicaBroker

variable {F : Type} {b : ReplicaBroker F} {h j : Handle} {f : VOrder F → VOrder F}

/-! ## Cells -/

theorem cell_onCell (b : ReplicaBroker F) (h j : Handle) (f : VOrder F → VOrder F) :
    (b.onCell h f).cell j = if h = j then (b.cell j).map f else b.cell j := by
  simp only [cell, onCell, List.getElem?_modify]
  split <;> simp

theorem cell_isSome : (b.cell h).isSome = true ↔ h < b.cells.length := by
  simp [cell]

@[simp] theorem onCell_length : (b.onCell h f).cells.length = b.cells.length := by simp [onCell]
@[simp] theorem onCell_instruments : (b.onCell h f).instruments = b.instruments := rfl
@[simp] theorem onCell_orders : (b.onCell h f).orders = b.orders := rfl
@[simp] theorem onCell_completed : (b.onCell h f).completed = b.completed := rfl
@[simp] theorem onCell_fills : (b.onCell h f).fills = b.fills := rfl

/-- The handles of the fills. -/
def fillHandles (b : ReplicaBroker F) : List Handle := b.fills.map (·.order)

variable [Quantity F]

/-- An operation under the lock of another order, or one that keeps the symbol, keeps the price. -/
theorem priceOf_onCell (hf : ∀ o, (f o).symbol = o.symbol) :
    (b.onCell h f).priceOf j = b.priceOf j := by
  simp only [priceOf, cell_onCell, onCell_instruments]
  split
  · cases b.cell j <;> simp [hf]
  · rfl

/-! ## One pass over the fills -/

/-- The order in a cell after a pass over its fill. -/
def afterFill (b : ReplicaBroker F) (h : Handle) (o : VOrder F) : VOrder F :=
  match b.priceOf h with
  | none => o
  | some lastPrice => o.applyFillUpdate lastPrice

theorem afterFill_some {lastPrice : F} (hp : b.priceOf h = some lastPrice) :
    b.afterFill h = (·.applyFillUpdate lastPrice) := by
  funext o
  rw [afterFill, hp]

theorem afterFill_congr {b b' : ReplicaBroker F} (hp : b'.priceOf h = b.priceOf h) :
    b'.afterFill h = b.afterFill h := by
  funext o
  rw [afterFill, hp, afterFill]

/-- The pass finds the order done: it was, or it is filled now. -/
def runsDone (b : ReplicaBroker F) (h : Handle) : Bool :=
  (b.priceOf h).any fun lastPrice => (b.cell h).any fun o => o.isDone || o.isMet lastPrice

theorem afterFill_isDone (b : ReplicaBroker F) (h : Handle) :
    (b.cell h).any (fun o => (b.afterFill h o).isDone) =
      (b.runsDone h || ((b.priceOf h).isNone && b.isDone h)) := by
  unfold afterFill runsDone isDone
  cases b.priceOf h with
  | none => simp
  | some lastPrice => simp [VOrder.applyFillUpdate_isDone]

theorem runsDone_congr {b b' : ReplicaBroker F} (hp : b'.priceOf h = b.priceOf h)
    (hc : b'.cell h = b.cell h) : b'.runsDone h = b.runsDone h := by
  simp only [runsDone, hp, hc]

/-- What a pass over the fills leaves. -/
structure Passed (b : ReplicaBroker F) (fills : List (ReplicaFill F))
    (r : List (ReplicaFill F) × List String × ReplicaBroker F) : Prop where
  handles : r.1.map (·.order) = fills.map (·.order)
  frame : ∃ cells, r.2.2 = { b with cells := cells } ∧ cells.length = b.cells.length
  cells : ∀ h, r.2.2.cell h =
    if h ∈ fills.map (·.order) then (b.cell h).map (b.afterFill h) else b.cell h
  done : r.2.1 = ((fills.map (·.order)).filter b.runsDone).filterMap fun h =>
    (b.cell h).map (·.orderId)

theorem runFills_none {fill : ReplicaFill F} {rest : List (ReplicaFill F)}
    (hp : b.priceOf fill.order = none) :
    runFills (fill :: rest) b =
      (fill :: (runFills rest b).1, (runFills rest b).2.1, (runFills rest b).2.2) := by
  rw [runFills, hp]

theorem runFills_some {fill : ReplicaFill F} {rest : List (ReplicaFill F)} {lastPrice : F}
    (hp : b.priceOf fill.order = some lastPrice) :
    runFills (fill :: rest) b =
      let b' := b.onCell fill.order (·.applyFillUpdate lastPrice)
      ({ fill with lastPrice := lastPrice } :: (runFills rest b').1,
        (((b'.cell fill.order).filter (·.isDone)).map (·.orderId)).toList ++ (runFills rest b').2.1,
        (runFills rest b').2.2) := by
  rw [runFills, hp]

theorem runFills_passed {fills : List (ReplicaFill F)} (hn : (fills.map (·.order)).Nodup) :
    Passed b fills (runFills fills b) := by
  induction fills generalizing b with
  | nil => exact ⟨rfl, ⟨_, rfl, rfl⟩, fun h => by simp [runFills], rfl⟩
  | cons fill rest ih =>
      obtain ⟨hnot, hrest⟩ := List.nodup_cons.mp hn
      cases hp : b.priceOf fill.order with
      | none =>
          rw [runFills_none hp]
          obtain ⟨h₁, h₂, h₃, h₄⟩ := ih (b := b) hrest
          refine ⟨congrArg (fill.order :: ·) h₁, h₂, fun h => ?_, ?_⟩
          · rw [h₃]
            by_cases hh : h = fill.order
            · subst hh
              rw [if_neg hnot, if_pos (by simp)]
              cases hc : b.cell fill.order <;> simp [afterFill, hp]
            · simp [hh]
          · have hd : b.runsDone fill.order = false := by simp [runsDone, hp]
            simp only [List.map_cons, List.filter_cons, hd, Bool.false_eq_true, ↓reduceIte]
            exact h₄
      | some lastPrice =>
          rw [runFills_some hp]
          dsimp only
          have hsym : ∀ o : VOrder F, (o.applyFillUpdate lastPrice).symbol = o.symbol := fun o =>
            (o.applyFillUpdate_frame lastPrice).2.1
          obtain ⟨h₁, ⟨cells, h₂, hl⟩, h₃, h₄⟩ :=
            ih (b := b.onCell fill.order (·.applyFillUpdate lastPrice)) hrest
          have hother : ∀ h ∈ rest.map (·.order),
              (b.onCell fill.order (·.applyFillUpdate lastPrice)).cell h = b.cell h := by
            intro h hh
            rw [cell_onCell, if_neg (by rintro rfl; exact hnot hh)]
          refine ⟨congrArg (fill.order :: ·) h₁, ⟨cells, h₂, hl.trans onCell_length⟩, fun h => ?_, ?_⟩
          · rw [h₃]
            by_cases hh : h = fill.order
            · subst hh
              rw [if_neg hnot, if_pos (by simp), cell_onCell, if_pos rfl, afterFill_some hp]
            · by_cases hm : h ∈ rest.map (·.order)
              · rw [if_pos hm, if_pos (by simp [hm]), hother h hm,
                  afterFill_congr (priceOf_onCell hsym)]
              · rw [if_neg hm, if_neg (by simp [hh, hm]), cell_onCell, if_neg (Ne.symm hh)]
          · have hcongr : (rest.map (·.order)).filter
                (b.onCell fill.order (·.applyFillUpdate lastPrice)).runsDone =
                (rest.map (·.order)).filter b.runsDone :=
              List.filter_congr fun h hh => runsDone_congr (priceOf_onCell hsym) (hother h hh)
            have hids : ((rest.map (·.order)).filter b.runsDone).filterMap (fun h =>
                ((b.onCell fill.order (·.applyFillUpdate lastPrice)).cell h).map (·.orderId)) =
                ((rest.map (·.order)).filter b.runsDone).filterMap fun h =>
                  (b.cell h).map (·.orderId) :=
              List.filterMap_congr fun h hh => by rw [hother h (List.mem_of_mem_filter hh)]
            rw [h₄, hcongr, hids, cell_onCell, if_pos rfl]
            simp only [List.map_cons, List.filter_cons]
            cases hc : b.cell fill.order with
            | none => simp [runsDone, hp, hc]
            | some o =>
                have hdone : b.runsDone fill.order = (o.applyFillUpdate lastPrice).isDone := by
                  simp [runsDone, hp, hc, VOrder.applyFillUpdate_isDone]
                rw [hdone]
                cases hd : (o.applyFillUpdate lastPrice).isDone with
                | false => simp [Option.filter, hd]
                | true => simp [Option.filter, hd, hc, (o.applyFillUpdate_frame lastPrice).1]

end ReplicaBroker

end Omsrs.Replica
