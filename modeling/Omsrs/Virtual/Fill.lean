import Omsrs.Virtual.Order

/-!
# The fill engine of the simulation

An order and the last price it was met with. The replica broker has the same engine once more, on the
orders it shares.
-/

namespace Omsrs.Virtual
open Omsrs.Lib Omsrs.Replica

structure OrderFill (F : Type) where
  order : VOrder F
  lastPrice : F
deriving DecidableEq

variable {F : Type} [Quantity F]

namespace OrderFill

def done (fill : OrderFill F) : Bool := fill.order.isDone

def asMarket (fill : OrderFill F) : OrderFill F :=
  let side := fill.order.side
  let ltp := fill.lastPrice
  match fill.order.orderType with
  | .limit =>
      match fill.order.price with
      | none => fill
      | some price =>
          let triggered := match side with
            | .buy => decide (ltp < price)
            | .sell => decide (ltp > price)
          let order :=
            if triggered then
              { fill.order with
                filledQuantity := fill.order.quantity
                averagePrice := some fill.lastPrice }
            else fill.order
          { fill with order := order.makeRightQuantity }
  | .stop =>
      match fill.order.triggerPrice.or fill.order.price with
      | none => fill
      | some price =>
          let triggered := match side with
            | .buy => decide (ltp > price)
            | .sell => decide (ltp < price)
          let order :=
            if triggered then
              { fill.order with
                filledQuantity := fill.order.quantity
                averagePrice := some fill.lastPrice }
            else fill.order
          { fill with order := order.makeRightQuantity }
  | .market => fill

def new (order : VOrder F) (lastPrice : F) : OrderFill F := asMarket ⟨order, lastPrice⟩

def updateWithPrice (fill : OrderFill F) (lastPrice : Option F) : OrderFill F :=
  if fill.order.isDone then fill
  else
    let ltp := lastPrice.getD fill.lastPrice
    let side := fill.order.side
    match fill.order.orderType with
    | .market =>
        let order := { fill.order with
          price := some ltp
          averagePrice := some ltp
          filledQuantity := fill.order.quantity }
        { fill with order := order.makeRightQuantity }
    | .limit =>
        match fill.order.price with
        | none => fill
        | some price =>
            let triggered := match side with
              | .buy => decide (ltp < price)
              | .sell => decide (ltp > price)
            if triggered then
              let order := { fill.order with
                averagePrice := some price
                filledQuantity := fill.order.quantity }
              { fill with order := order.makeRightQuantity }
            else fill
    | .stop =>
        let order :=
          if fill.order.triggerPrice.isNone then
            { fill.order with triggerPrice := fill.order.price }
          else fill.order
        match order.triggerPrice with
        | none => { fill with order := order }
        | some trigger =>
            let triggered := match side with
              | .buy => decide (ltp > trigger)
              | .sell => decide (ltp < trigger)
            if triggered then
              let order := { order with
                averagePrice := some ltp
                filledQuantity := order.quantity }
              { fill with order := order.makeRightQuantity }
            else { fill with order := order }

def update (fill : OrderFill F) : OrderFill F := fill.updateWithPrice none

/-- The engine after each of these prices in turn. -/
def updates (fill : OrderFill F) (prices : List F) : OrderFill F :=
  prices.foldl (fun fill price => fill.updateWithPrice (some price)) fill

end OrderFill

end Omsrs.Virtual
