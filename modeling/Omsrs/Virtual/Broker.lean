import Omsrs.Lib.Machine
import Omsrs.Virtual.Order

/-!
# The virtual broker

Orders by id, users with copies of their orders. Every call that may fail draws once, before it looks at
anything else. A call comes with the reading of the clock it takes.
-/

namespace Omsrs.Virtual
open Omsrs.Lib Omsrs.Replica

structure VUser (F R : Type) where
  userid : String
  name : Option String
  orders : List (VirtualOrder F R)
deriving DecidableEq

inductive ResponseStatus
  | success
  | failure
deriving DecidableEq, Repr

structure OrderResponse (F : Type) where
  status : ResponseStatus
  timestamp : Option Int
  errorMsg : Option String
  data : Option (PublicOrder F)
deriving DecidableEq

inductive BrokerReply (F : Type)
  | order (r : OrderResponse F)
  | passthrough (v : Value F)
deriving DecidableEq

inductive VirtualBrokerError (F : Type)
  | failureRateOutOfRange (v : F)
deriving DecidableEq

structure VirtualBroker (F R : Type) where
  users : List (VUser F R)
  failureRate : F
  delayUs : Int
  orders : OrdMap String (VirtualOrder F R)
  clients : OrdMap String Unit
  /-- Draws taken of the generator of the broker. -/
  drawn : Nat
  /-- Ids generated so far. -/
  issued : Nat
deriving DecidableEq

variable {F R : Type}

def BrokerReply.failure (now : Int) (msg : String) : BrokerReply F :=
  .order ⟨.failure, some now, some msg, none⟩

def BrokerReply.success (now : Int) (data : Option (PublicOrder F)) : BrokerReply F :=
  .order ⟨.success, some now, none, data⟩

variable [Amount F]

def valueToOrderType (v : Value F) : Option Replica.OrderType := v.asStr.bind Replica.OrderType.parse

/-- The fields that an order cannot go without and these arguments do not name. -/
def missingFields (args : Args F) : List String :=
  (if args.contains "symbol" then [] else ["symbol"]) ++
    (if args.contains "side" || args.contains "side_str" then [] else ["side"]) ++
    (if args.contains "quantity" then [] else ["quantity"])

/-- The copy of an order goes to the first user of that id. -/
def attach (uid : String) (clone : PublicOrder F) (seed : R) : List (VUser F R) → List (VUser F R)
  | [] => []
  | u :: users =>
      if u.userid = uid then { u with orders := u.orders ++ [⟨clone, seed⟩] } :: users
      else u :: attach uid clone seed users

namespace VirtualBroker

def new [OfScientific F] : VirtualBroker F R where
  users := []
  failureRate := 0.001
  delayUs := 1000000
  orders := .empty
  clients := .empty
  drawn := 0
  issued := 0

def setFailureRate (b : VirtualBroker F R) (v : F) :
    Except (VirtualBrokerError F) Unit × VirtualBroker F R :=
  if ¬ (0 ≤ v ∧ v ≤ Quantity.ofInt 1) then (.error (.failureRateOutOfRange v), b)
  else (.ok (), { b with failureRate := v })

def isFailure (w : World F R) (b : VirtualBroker F R) : Bool × VirtualBroker F R :=
  (decide (w.roll b.drawn < b.failureRate), { b with drawn := b.drawn + 1 })

def get (w : World F R) (b : VirtualBroker F R) (now : Int) (orderId : String) (status : Status) :
    Option (PublicOrder F) × VirtualBroker F R :=
  match b.orders.get? orderId with
  | none => (none, b)
  | some order =>
      let order := order.modifyByStatus w status now
      (some order.pub, { b with orders := b.orders.insert orderId order })

def addUser (b : VirtualBroker F R) (user : VUser F R) : Bool × VirtualBroker F R :=
  if b.clients.contains user.userid then (false, b)
  else
    (true, { b with clients := b.clients.insert user.userid (), users := b.users ++ [user] })

/-- The order of the arguments of a placement. -/
def placeInit (now : Int) (orderId : String) (args : Args F) : VOrderInit F where
  orderId := orderId
  symbol := ((args.get? "symbol").bind (·.asStr)).getD ""
  quantity := ((args.get? "quantity").bind (·.asF64)).getD 0
  side := (args.get? "side").bind valueToSide
  sideStr := (args.get? "side_str").bind (·.asStr)
  price := (args.get? "price").bind (·.asF64)
  triggerPrice := (args.get? "trigger_price").bind (·.asF64)
  averagePrice := (args.get? "average_price").bind (·.asF64)
  orderType := (args.get? "order_type").bind valueToOrderType
  orderTypeStr := (args.get? "order_type").bind (·.asStr)
  nowOverride := some now

def orderPlace (w : World F R) (b : VirtualBroker F R) (now : Int) (args : Args F) :
    BrokerReply F × VirtualBroker F R :=
  match args.get? "response" with
  | some v => (.passthrough v, b)
  | none =>
      let (failure, b) := b.isFailure w
      if failure then (.failure now "Unexpected error", b)
      else
        match missingFields args with
        | fld :: rest =>
            let n := rest.length + 1
            (.failure now s!"Found {n} validation errors; in field {fld} Field required", b)
        | [] =>
            let delayUs := (((args.get? "delay").bind (·.asF64)).map Amount.toI64).getD b.delayUs
            let useridUpper := ((args.get? "userid").bind (·.asStr)).map (·.map Char.toUpper)
            let orderId := w.uuid b.issued
            let b := { b with issued := b.issued + 1 }
            match VirtualOrder.fromInit w (placeInit now orderId args) with
            | .error msg =>
                (.failure now s!"Found 1 validation errors; in field side {msg}", b)
            | .ok order =>
                let order := { order with pub := { order.pub with delay := delayUs } }
                let b := { b with orders := b.orders.insert orderId order }
                let data := (b.orders.get? orderId).bind fun o =>
                  VirtualOrder.clonedCloneWeak w o.pub
                let b :=
                  match useridUpper, data with
                  | some uid, some clone =>
                      if b.clients.contains uid then
                        { b with users := attach uid clone w.seed b.users }
                      else b
                  | _, _ => b
                (.success now data, b)

/-- What a modification does to an order. -/
def modifyOrder (args : Args F) (o : VirtualOrder F R) : VirtualOrder F R :=
  { o with
    pub := { o.pub with
      price := ((args.get? "price").bind (·.asF64)).or o.pub.price
      triggerPrice := ((args.get? "trigger_price").bind (·.asF64)).or o.pub.triggerPrice
      quantity := ((args.get? "quantity").bind (·.asF64)).getD o.pub.quantity } }

def orderModify (w : World F R) (b : VirtualBroker F R) (now : Int) (orderId : String)
    (args : Args F) : BrokerReply F × VirtualBroker F R :=
  match args.get? "response" with
  | some v => (.passthrough v, b)
  | none =>
      let (failure, b) := b.isFailure w
      if failure then (.failure now "Unexpected error", b)
      else
        match b.orders.get? orderId with
        | none => (.failure now s!"Order id {orderId} not found on system", b)
        | some order =>
            let order := modifyOrder args order
            (.success now (VirtualOrder.clonedCloneWeak w order.pub),
              { b with orders := b.orders.insert orderId order })

/-- What a cancellation does to an order. -/
def cancelOrder (o : VirtualOrder F R) : VirtualOrder F R :=
  o.setQuantities o.pub.filledQuantity 0 (o.pub.quantity - o.pub.filledQuantity)

def orderCancel (w : World F R) (b : VirtualBroker F R) (now : Int) (orderId : String)
    (args : Args F) : BrokerReply F × VirtualBroker F R :=
  match args.get? "response" with
  | some v => (.passthrough v, b)
  | none =>
      let (failure, b) := b.isFailure w
      if failure then (.failure now "Unexpected error", b)
      else
        match b.orders.get? orderId with
        | none => (.failure now s!"Order id {orderId} not found on system", b)
        | some order =>
            if order.status = .complete then
              (.failure now s!"Order {orderId} already completed", b)
            else
              let order := cancelOrder order
              (.success now (VirtualOrder.clonedCloneWeak w order.pub),
                { b with orders := b.orders.insert orderId order })

end VirtualBroker

/-! ## The broker as a machine -/

inductive VirtualCall (F R : Type)
  | orderPlace (now : Int) (args : Args F)
  | orderModify (now : Int) (orderId : String) (args : Args F)
  | orderCancel (now : Int) (orderId : String) (args : Args F)
  | get (now : Int) (orderId : String) (status : Status)
  | addUser (user : VUser F R)
  | setFailureRate (v : F)
deriving DecidableEq

inductive VirtualReply (F : Type)
  | order (reply : BrokerReply F)
  | got (order : Option (PublicOrder F))
  | added (new : Bool)
  | rate (result : Except (VirtualBrokerError F) Unit)
deriving DecidableEq

def VirtualBroker.step (w : World F R) (b : VirtualBroker F R) :
    VirtualCall F R → VirtualReply F × VirtualBroker F R
  | .orderPlace now args =>
      let (reply, b) := b.orderPlace w now args
      (.order reply, b)
  | .orderModify now orderId args =>
      let (reply, b) := b.orderModify w now orderId args
      (.order reply, b)
  | .orderCancel now orderId args =>
      let (reply, b) := b.orderCancel w now orderId args
      (.order reply, b)
  | .get now orderId status =>
      let (order, b) := b.get w now orderId status
      (.got order, b)
  | .addUser user =>
      let (new, b) := b.addUser user
      (.added new, b)
  | .setFailureRate v =>
      let (result, b) := b.setFailureRate v
      (.rate result, b)

def virtualBroker (w : World F R) :
    Machine (VirtualBroker F R) (VirtualCall F R) (VirtualReply F) := ⟨VirtualBroker.step w⟩

end Omsrs.Virtual
