import Omsrs.Replica.Async
import Omsrs.Virtual.Broker

/-!
# The async virtual broker

The calls of the virtual broker written out once more. Every call holds the one lock of the broker from
its draw to its answer, so calls do not interleave; the id of an order comes with the arguments.
-/

namespace Omsrs.Virtual
open Omsrs.Lib Omsrs.Replica

/-- The state under the lock. -/
structure AsyncVirtualBroker (F R : Type) where
  inner : VirtualBroker F R
deriving DecidableEq

variable {F R : Type} [Amount F]

namespace AsyncVirtualBroker

def new [OfScientific F] : AsyncVirtualBroker F R := ⟨.new⟩

def setFailureRate (b : AsyncVirtualBroker F R) (v : F) :
    Except (VirtualBrokerError F) Unit × AsyncVirtualBroker F R :=
  if ¬ (0 ≤ v ∧ v ≤ Quantity.ofInt 1) then (.error (.failureRateOutOfRange v), b)
  else (.ok (), ⟨{ b.inner with failureRate := v }⟩)

/-- The copies of all orders. -/
def orders (w : World F R) (b : AsyncVirtualBroker F R) : OrdMap String (PublicOrder F) :=
  OrdMap.empty.insertAll
    (b.inner.orders.entries.filterMap fun e =>
      (VirtualOrder.clonedCloneWeak w e.2.pub).map fun clone => (e.1, clone))

def get (w : World F R) (b : AsyncVirtualBroker F R) (now : Int) (orderId : String)
    (status : Status) : Option (PublicOrder F) × AsyncVirtualBroker F R :=
  match b.inner.orders.get? orderId with
  | none => (none, b)
  | some order =>
      let order := order.modifyByStatus w status now
      (VirtualOrder.clonedCloneWeak w order.pub,
        ⟨{ b.inner with orders := b.inner.orders.insert orderId order }⟩)

def addUser (b : AsyncVirtualBroker F R) (user : VUser F R) : Bool × AsyncVirtualBroker F R :=
  if b.inner.clients.contains user.userid then (false, b)
  else
    (true,
      ⟨{ b.inner with
          clients := b.inner.clients.insert user.userid ()
          users := b.inner.users ++ [user] }⟩)

/-- The draw that every call takes under the lock, and the broker after it. -/
def rollFails (w : World F R) (inner : VirtualBroker F R) : Bool × VirtualBroker F R :=
  let r := w.roll inner.drawn
  (decide (r < inner.failureRate), { inner with drawn := inner.drawn + 1 })

def place (w : World F R) (b : AsyncVirtualBroker F R) (now : Int) (args : Args F) :
    BrokerReply F × AsyncVirtualBroker F R :=
  match args.get? "response" with
  | some v => (.passthrough v, b)
  | none =>
      let errors := missingFields args
      let (fails, inner) := rollFails w b.inner
      if fails then (.failure now "Unexpected error", ⟨inner⟩)
      else
        match errors with
        | fld :: rest =>
            let n := rest.length + 1
            (.failure now s!"Found {n} validation errors; in field {fld} Field required", ⟨inner⟩)
        | [] =>
            let delayUs := (((args.get? "delay").bind (·.asF64)).map Amount.toI64).getD inner.delayUs
            let useridUpper := ((args.get? "userid").bind (·.asStr)).map (·.map Char.toUpper)
            let orderId := w.uuid inner.issued
            let inner := { inner with issued := inner.issued + 1 }
            let init : VOrderInit F := {
              orderId := orderId
              symbol := ((args.get? "symbol").bind (·.asStr)).getD ""
              quantity := ((args.get? "quantity").bind (·.asF64)).getD 0
              side := (args.get? "side").bind valueToSide
              sideStr := (args.get? "side_str").bind (·.asStr)
              price := (args.get? "price").bind (·.asF64)
              triggerPrice := (args.get? "trigger_price").bind (·.asF64)
              averagePrice := (args.get? "average_price").bind (·.asF64)
              orderType := (args.get? "order_type").bind valueToOrderType
              orderTypeStr := (args.get? "order_type").bind (·.asStr)
              nowOverride := some now }
            match VirtualOrder.fromInit w init with
            | .error msg =>
                (.failure now s!"Found 1 validation errors; in field side {msg}", ⟨inner⟩)
            | .ok order =>
                let order := { order with pub := { order.pub with delay := delayUs } }
                let inner := { inner with orders := inner.orders.insert orderId order }
                let clone := (inner.orders.get? orderId).bind fun o =>
                  VirtualOrder.clonedCloneWeak w o.pub
                let inner :=
                  match useridUpper with
                  | none => inner
                  | some uid =>
                      if inner.clients.contains uid then
                        match clone with
                        | none => inner
                        | some clone => { inner with users := attach uid clone w.seed inner.users }
                      else inner
                let data := (inner.orders.get? orderId).bind fun o =>
                  VirtualOrder.clonedCloneWeak w o.pub
                (.success now data, ⟨inner⟩)

def missingOrderId (now : Int) : BrokerReply F :=
  .failure now "Found 1 validation errors; in field order_id Field required"

def modify (w : World F R) (b : AsyncVirtualBroker F R) (now : Int) (args : Args F) :
    BrokerReply F × AsyncVirtualBroker F R :=
  match args.get? "response" with
  | some v => (.passthrough v, b)
  | none =>
      match (args.get? "order_id").bind (·.asStr) with
      | none => (missingOrderId now, b)
      | some orderId =>
          let (fails, inner) := rollFails w b.inner
          if fails then (.failure now "Unexpected error", ⟨inner⟩)
          else
            match inner.orders.get? orderId with
            | none => (.failure now s!"Order id {orderId} not found on system", ⟨inner⟩)
            | some order =>
                let order := { order with
                  pub := { order.pub with
                    price := ((args.get? "price").bind (·.asF64)).or order.pub.price
                    triggerPrice :=
                      ((args.get? "trigger_price").bind (·.asF64)).or order.pub.triggerPrice
                    quantity := ((args.get? "quantity").bind (·.asF64)).getD order.pub.quantity } }
                (.success now (VirtualOrder.clonedCloneWeak w order.pub),
                  ⟨{ inner with orders := inner.orders.insert orderId order }⟩)

def cancel (w : World F R) (b : AsyncVirtualBroker F R) (now : Int) (args : Args F) :
    BrokerReply F × AsyncVirtualBroker F R :=
  match args.get? "response" with
  | some v => (.passthrough v, b)
  | none =>
      match (args.get? "order_id").bind (·.asStr) with
      | none => (missingOrderId now, b)
      | some orderId =>
          let (fails, inner) := rollFails w b.inner
          if fails then (.failure now "Unexpected error", ⟨inner⟩)
          else
            match inner.orders.get? orderId with
            | none => (.failure now s!"Order id {orderId} not found on system", ⟨inner⟩)
            | some order =>
                if order.status = .complete then
                  (.failure now s!"Order {orderId} already completed", ⟨inner⟩)
                else
                  let order := order.setQuantities order.pub.filledQuantity 0
                    (order.pub.quantity - order.pub.filledQuantity)
                  (.success now (VirtualOrder.clonedCloneWeak w order.pub),
                    ⟨{ inner with orders := inner.orders.insert orderId order }⟩)

def orderCancelOutcome (w : World F R) (b : AsyncVirtualBroker F R) (args : Args F) :
    CancelOutcome × AsyncVirtualBroker F R :=
  let requestedOrderId := orderIdFromArgs args
  match args.get? "response" with
  | some _ => (.unknown requestedOrderId "passthrough cancel response", b)
  | none =>
      match (args.get? "order_id").bind (·.asStr) with
      | none =>
          (.rejected requestedOrderId
            "Found 1 validation errors; in field order_id Field required", b)
      | some orderId =>
          let (fails, inner) := rollFails w b.inner
          if fails then (.rejected (some orderId) "Unexpected error", ⟨inner⟩)
          else
            match inner.orders.get? orderId with
            | none => (.notFound (some orderId), ⟨inner⟩)
            | some order =>
                if order.isDone then (.alreadyTerminal (some order.pub.orderId), ⟨inner⟩)
                else
                  let order := order.setQuantities order.pub.filledQuantity 0
                    (order.pub.quantity - order.pub.filledQuantity)
                  (.canceled (some order.pub.orderId),
                    ⟨{ inner with orders := inner.orders.insert orderId order }⟩)

end AsyncVirtualBroker

/-! ## The broker as a machine -/

inductive AsyncVirtualCall (F R : Type)
  | place (now : Int) (args : Args F)
  | modify (now : Int) (args : Args F)
  | cancel (now : Int) (args : Args F)
  | get (now : Int) (orderId : String) (status : Status)
  | addUser (user : VUser F R)
  | setFailureRate (v : F)
deriving DecidableEq

def AsyncVirtualBroker.step (w : World F R) (b : AsyncVirtualBroker F R) :
    AsyncVirtualCall F R → VirtualReply F × AsyncVirtualBroker F R
  | .place now args =>
      let (reply, b) := b.place w now args
      (.order reply, b)
  | .modify now args =>
      let (reply, b) := b.modify w now args
      (.order reply, b)
  | .cancel now args =>
      let (reply, b) := b.cancel w now args
      (.order reply, b)
  | .get now orderId status =>
      let (order, b) := b.get w now orderId status
      (.got order, b)
  | .addUser user =>
      let (new, b) := b.addUser user
      (.added new, b)
  | .setFailureRate v =>
      let (result, b) := b.setFailureRate v
      (.rate result, b)

def asyncVirtualBroker (w : World F R) :
    Machine (AsyncVirtualBroker F R) (AsyncVirtualCall F R) (VirtualReply F) :=
  ⟨AsyncVirtualBroker.step w⟩

end Omsrs.Virtual
