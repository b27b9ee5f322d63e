import Mathlib.Algebra.Order.Ring.Int
import Mathlib.Algebra.Order.Ring.Rat
import Mathlib.Data.String.Basic
import Omsrs.Lib.OrdMap

/-!
# Simulated orders

The order of the matching engine and what a last price does to it. Quantities and prices are any
linearly ordered numbers with a subtraction, exact or rounded, of which two facts are used.
-/

namespace Omsrs.Replica
open Omsrs.Lib

/-- The numbers of the simulation. -/
class Quantity (F : Type) extends LinearOrder F, Zero F, Sub F where
  ofInt : Int → F
  text : F → String
  sub_zero : ∀ x : F, x - 0 = x
  sub_self : ∀ x : F, x - x = 0

instance : Quantity Int where
  ofInt := id
  text := toString
  sub_zero := Int.sub_zero
  sub_self := Int.sub_self

instance : Quantity ℚ where
  ofInt n := n
  text := toString
  sub_zero := sub_zero
  sub_self := sub_self

/-! ## Arguments -/

/-- A json value, as far as the arguments are read. -/
inductive Value (F : Type)
  | int (n : Int)
  | float (x : F)
  | str (s : String)
  | other
deriving DecidableEq

abbrev Args (F : Type) := OrdMap String (Value F)

variable {F : Type} [Quantity F]

namespace Value

def asF64 : Value F → Option F
  | .int n => some (Quantity.ofInt n)
  | .float x => some x
  | .str _ | .other => none

def asI64 : Value F → Option Int
  | .int n => if -2 ^ 63 ≤ n ∧ n < 2 ^ 63 then some n else none
  | .float _ | .str _ | .other => none

def asStr : Value F → Option String
  | .str s => some s
  | .int _ | .float _ | .other => none

end Value

inductive Side
  | buy
  | sell
deriving DecidableEq, Repr

inductive OrderType
  | market
  | limit
  | stop
deriving DecidableEq, Repr

def Side.parse (s : String) : Option Side :=
  match s.toList.head?.map Char.toLower with
  | some 'b' => some .buy
  | some 's' => some .sell
  | _ => none

def OrderType.parse (s : String) : Option OrderType :=
  match s.map Char.toUpper with
  | "MARKET" => some .market
  | "LIMIT" => some .limit
  | "STOP" => some .stop
  | _ => none

def valueToSide (v : Value F) : Option Side :=
  match v.asI64 with
  | some 1 => some .buy
  | some (-1) => some .sell
  | some _ => none
  | none => v.asStr.bind Side.parse

def valueToOrderType (v : Value F) : Option OrderType :=
  match v.asI64 with
  | some 1 => some .market
  | some 2 => some .limit
  | some 3 => some .stop
  | some _ => none
  | none => v.asStr.bind OrderType.parse

/-! ## Orders -/

structure VOrder (F : Type) where
  orderId : String
  symbol : String
  quantity : F
  side : Side
  price : Option F
  averagePrice : Option F
  triggerPrice : Option F
  statusMessage : Option String
  orderType : OrderType
  filledQuantity : F
  pendingQuantity : F
  canceledQuantity : F
deriving DecidableEq

def normaliseQuantities (q f p c : F) : F × F × F :=
  if 0 < c then
    let c := min c q
    let f := q - c
    (f, q - c - f, c)
  else if 0 < f then
    let f := min f q
    (f, q - f, c)
  else if 0 < p then
    let p := min p q
    (q - p, p, c)
  else (f, q - p, c)

namespace VOrder

/-- The order of the arguments, none when they name no side. -/
def ofArgs (orderId : String) (args : Args F) : Option (VOrder F) :=
  ((args.get? "side").bind valueToSide).map fun side =>
    let quantity := ((args.get? "quantity").bind (·.asF64)).getD 0
    let (f, p, c) := normaliseQuantities quantity 0 0 0
    { orderId := orderId
      symbol := ((args.get? "symbol").bind (·.asStr)).getD ""
      quantity := quantity
      side := side
      price := (args.get? "price").bind (·.asF64)
      averagePrice := some 0
      triggerPrice := (args.get? "trigger_price").bind (·.asF64)
      statusMessage := none
      orderType := ((args.get? "order_type").bind valueToOrderType).getD .market
      filledQuantity := f
      pendingQuantity := p
      canceledQuantity := c }

def makeRightQuantity (o : VOrder F) : VOrder F :=
  let (f, p, c) :=
    normaliseQuantities o.quantity o.filledQuantity o.pendingQuantity o.canceledQuantity
  { o with filledQuantity := f, pendingQuantity := p, canceledQuantity := c }

def isDone (o : VOrder F) : Bool :=
  decide (o.quantity = o.filledQuantity) || decide (o.quantity = o.canceledQuantity) ||
    decide (o.pendingQuantity ≤ 0)

/-- A limit order is met from the side of its price that suits it. -/
def limitMet (o : VOrder F) (lastPrice price : F) : Bool :=
  match o.side with
  | .buy => decide (lastPrice < price)
  | .sell => decide (price < lastPrice)

def stopMet (o : VOrder F) (lastPrice price : F) : Bool :=
  match o.side with
  | .buy => decide (price < lastPrice)
  | .sell => decide (lastPrice < price)

/-- The order is filled in full where it is met; the quantities are put right in either case. -/
def fillIf (met : Bool) (lastPrice : F) (o : VOrder F) : VOrder F :=
  makeRightQuantity
    (if met then { o with filledQuantity := o.quantity, averagePrice := some lastPrice } else o)

def applyAsMarket (lastPrice : F) (o : VOrder F) : VOrder F :=
  match o.orderType with
  | .limit =>
      match o.price with
      | none => o
      | some price => o.fillIf (o.limitMet lastPrice price) lastPrice
  | .stop =>
      match o.triggerPrice.or o.price with
      | none => o
      | some price => o.fillIf (o.stopMet lastPrice price) lastPrice
  | .market => o

def applyFillUpdate (lastPrice : F) (o : VOrder F) : VOrder F :=
  if o.isDone then o
  else
    match o.orderType with
    | .market =>
        makeRightQuantity
          { o with
            price := some lastPrice
            averagePrice := some lastPrice
            filledQuantity := o.quantity }
    | .limit =>
        match o.price with
        | none => o
        | some price =>
            if o.limitMet lastPrice price then
              makeRightQuantity { o with averagePrice := some price, filledQuantity := o.quantity }
            else o
    | .stop =>
        let o := { o with triggerPrice := o.triggerPrice.or o.price }
        match o.triggerPrice with
        | none => o
        | some trigger =>
            if o.stopMet lastPrice trigger then
              makeRightQuantity
                { o with averagePrice := some lastPrice, filledQuantity := o.quantity }
            else o

def reject (o : VOrder F) : VOrder F :=
  let symbol := o.symbol
  { o with
    statusMessage := some s!"REJECTED: Symbol {symbol} not found on the system"
    canceledQuantity := o.quantity
    pendingQuantity := 0 }

def cancel (o : VOrder F) : VOrder F :=
  { o with canceledQuantity := o.quantity - o.filledQuantity }

/-- One argument of a modification; the arguments are no `VOrder` field twice. -/
def modifyField (o : VOrder F) : String × Value F → VOrder F
  | ("price", v) => { o with price := v.asF64.or o.price }
  | ("trigger_price", v) => { o with triggerPrice := v.asF64.or o.triggerPrice }
  | ("quantity", v) => { o with quantity := v.asF64.getD o.quantity }
  | ("order_type", v) => { o with orderType := (valueToOrderType v).getD o.orderType }
  | _ => o

def modify (args : Args F) (o : VOrder F) : VOrder F := args.entries.foldl modifyField o

/-! ## What a last price does -/

/-- Whether a last price fills an open order. -/
def isMet (lastPrice : F) (o : VOrder F) : Bool :=
  match o.orderType with
  | .market => true
  | .limit => o.price.any (o.limitMet lastPrice)
  | .stop => (o.triggerPrice.or o.price).any (o.stopMet lastPrice)

end VOrder

end Omsrs.Replica
