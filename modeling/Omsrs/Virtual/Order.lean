import Omsrs.Replica.Order

/-!
# The orders of the virtual broker

An order has its time, its delay and a generator of its own, which no reader sees. Its quantities follow
the status that a reader asks for.
-/

namespace Omsrs.Virtual
open Omsrs.Lib Omsrs.Replica

/-- The numbers of the virtual broker. -/
class Amount (F : Type) extends Quantity F, Add F where
  /-- Cast to `i64`: towards zero, and to the nearest end of the range. -/
  toI64 : F → Int

instance : Amount ℚ where
  toI64 x := max (-2 ^ 63) (min (2 ^ 63 - 1) (x.num.tdiv x.den))

/-- What comes from outside: the ids and the draws by their number, the generator of an order, and a
time that is read where none is given. -/
structure World (F R : Type) where
  uuid : Nat → String
  roll : Nat → F
  seed : R
  genRange : R → Int → Int × R
  utcNow : Int

inductive Status
  | complete
  | rejected
  | canceled
  | partialFill
  | openOrder
  | pending
deriving DecidableEq, Repr

/-- What a reader sees of an order. -/
structure PublicOrder (F : Type) extends VOrder F where
  timestamp : Option Int
  exchangeOrderId : Option String
  exchangeTimestamp : Option Int
  delay : Int
deriving DecidableEq

structure VirtualOrder (F R : Type) where
  pub : PublicOrder F
  rng : R
deriving DecidableEq

structure VOrderInit (F : Type) where
  orderId : String
  symbol : String
  quantity : F
  side : Option Side := none
  sideStr : Option String := none
  price : Option F := none
  averagePrice : Option F := none
  triggerPrice : Option F := none
  timestamp : Option Int := none
  exchangeOrderId : Option String := none
  exchangeTimestamp : Option Int := none
  statusMessage : Option String := none
  orderType : Option Replica.OrderType := none
  orderTypeStr : Option String := none
  filledQuantity : Option F := none
  pendingQuantity : Option F := none
  canceledQuantity : Option F := none
  nowOverride : Option Int := none

variable {F R : Type} [Amount F]

/-! ## New orders -/

def parseSide (s : String) : Except String Side :=
  match Side.parse s with
  | some side => .ok side
  | none => .error s!"{s} is not a valid side, should be buy or sell"

def parseOrderType (s : String) : Except String Replica.OrderType :=
  match Replica.OrderType.parse s with
  | some orderType => .ok orderType
  | none => .error s!"{s} is not a valid order type, should be one of LIMIT/MARKET"

def VOrderInit.parsedSide (init : VOrderInit F) : Except String Side :=
  match init.side, init.sideStr with
  | some side, _ => .ok side
  | none, some s => parseSide s
  | none, none => .error "VOrder requires side (enum) or side_str"

def VOrderInit.parsedOrderType (init : VOrderInit F) : Except String Replica.OrderType :=
  match init.orderType, init.orderTypeStr with
  | some orderType, _ => .ok orderType
  | none, some s => parseOrderType s
  | none, none => .ok .market

namespace VirtualOrder

def fromInit (w : World F R) (init : VOrderInit F) : Except String (VirtualOrder F R) := do
  let side ← init.parsedSide
  let orderType ← init.parsedOrderType
  let now := init.nowOverride.getD w.utcNow
  let (f, p, c) := normaliseQuantities init.quantity (init.filledQuantity.getD 0)
    (init.pendingQuantity.getD 0) (init.canceledQuantity.getD 0)
  return {
    pub := {
      orderId := init.orderId
      symbol := init.symbol
      quantity := init.quantity
      side := side
      price := init.price
      averagePrice := init.averagePrice.or (some 0)
      triggerPrice := init.triggerPrice
      statusMessage := init.statusMessage
      orderType := orderType
      filledQuantity := f
      pendingQuantity := p
      canceledQuantity := c
      timestamp := some (init.timestamp.getD now)
      exchangeOrderId := init.exchangeOrderId
      exchangeTimestamp := init.exchangeTimestamp
      delay := 1000000 }
    rng := w.seed }

/-- The copy that is handed to readers. -/
def clonedCloneWeak (w : World F R) (o : PublicOrder F) : Option (PublicOrder F) :=
  (fromInit w {
    orderId := o.orderId
    symbol := o.symbol
    quantity := o.quantity
    side := some o.side
    price := o.price
    averagePrice := o.averagePrice
    triggerPrice := o.triggerPrice
    timestamp := o.timestamp
    exchangeOrderId := o.exchangeOrderId
    exchangeTimestamp := o.exchangeTimestamp
    statusMessage := o.statusMessage
    orderType := some o.orderType
    filledQuantity := some o.filledQuantity
    pendingQuantity := some o.pendingQuantity
    canceledQuantity := some o.canceledQuantity
    nowOverride := o.timestamp }).toOption.map fun cloned => { cloned.pub with delay := o.delay }

/-! ## The status of an order -/

def setQuantities (o : VirtualOrder F R) (filled pending canceled : F) : VirtualOrder F R :=
  { o with
    pub := { o.pub with
      filledQuantity := filled
      pendingQuantity := pending
      canceledQuantity := canceled } }

/-- A part of the quantity at random, and the rest. -/
def split (w : World F R) (o : VirtualOrder F R) : Int × Int × R :=
  let q := Amount.toI64 o.pub.quantity
  let (a, rng) := if 1 < q then w.genRange o.rng q else (1, o.rng)
  (a, q - a, rng)

def modifyOrderByStatus (w : World F R) (status : Status) (o : VirtualOrder F R) :
    VirtualOrder F R :=
  match status with
  | .canceled | .rejected => o.setQuantities 0 0 o.pub.quantity
  | .openOrder => o.setQuantities 0 o.pub.pendingQuantity 0
  | .partialFill =>
      let (a, b, rng) := o.split w
      { o with rng := rng }.setQuantities (Quantity.ofInt a) 0 (Quantity.ofInt b)
  | .pending =>
      let (a, b, rng) := o.split w
      { o with rng := rng }.setQuantities (Quantity.ofInt a) (Quantity.ofInt b) 0
  | .complete => o.setQuantities o.pub.quantity 0 0

def isPastDelayAt (o : VirtualOrder F R) (now : Int) : Bool :=
  match o.pub.timestamp with
  | some ts => decide (ts + o.pub.delay < now)
  | none => false

def status (o : VirtualOrder F R) : Status :=
  if o.pub.quantity = o.pub.filledQuantity then .complete
  else if o.pub.quantity = o.pub.canceledQuantity then
    match o.pub.statusMessage with
    | some msg =>
        if "REJ".toList.isPrefixOf (msg.toList.map Char.toUpper) then .rejected else .canceled
    | none => .canceled
  else if 0 < o.pub.canceledQuantity then
    if o.pub.canceledQuantity + o.pub.filledQuantity = o.pub.quantity then .partialFill else .pending
  else if 0 < o.pub.pendingQuantity then
    if 0 < o.pub.filledQuantity then .pending else .openOrder
  else .openOrder

def isDone (o : VirtualOrder F R) : Bool := o.pub.toVOrder.isDone

def modifyByStatus (w : World F R) (status : Status) (now : Int) (o : VirtualOrder F R) :
    VirtualOrder F R :=
  if o.isDone then o
  else if o.isPastDelayAt now then o.modifyOrderByStatus w status
  else o

end VirtualOrder

end Omsrs.Virtual
