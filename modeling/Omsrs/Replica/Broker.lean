import Omsrs.Lib.Machine
import Omsrs.Replica.Order

/-!
# The replica broker

All collections hold handles of the same cells: an order is its cell, and two handles are one order
exactly when they are equal. Every order gets the next cell and the next generated id.
-/

namespace Omsrs.Replica
open Omsrs.Lib

abbrev Handle := Nat

structure Instrument (F : Type) where
  name : String
  lastPrice : F
deriving DecidableEq

structure ReplicaFill (F : Type) where
  order : Handle
  lastPrice : F
deriving DecidableEq

structure ReplicaBroker (F : Type) where
  cells : List (VOrder F)
  instruments : OrdMap String (Instrument F)
  orders : OrdMap String Handle
  users : OrdMap String Unit
  pending : List Handle
  completed : List Handle
  fills : List (ReplicaFill F)
  userOrders : OrdMap String (List Handle)
deriving DecidableEq

variable {F : Type} [Quantity F]

namespace ReplicaBroker

def new : ReplicaBroker F where
  cells := []
  instruments := .empty
  orders := .empty
  users := OrdMap.empty.insert "default" ()
  pending := []
  completed := []
  fills := []
  userOrders := .empty

def cell (b : ReplicaBroker F) (h : Handle) : Option (VOrder F) := b.cells[h]?

/-- What is done under the lock of one order. -/
def onCell (b : ReplicaBroker F) (h : Handle) (f : VOrder F → VOrder F) : ReplicaBroker F :=
  { b with cells := b.cells.modify h f }

def isDone (b : ReplicaBroker F) (h : Handle) : Bool := (b.cell h).any (·.isDone)

def update (b : ReplicaBroker F) (instruments : List (Instrument F)) : ReplicaBroker F :=
  { b with instruments := b.instruments.insertAll (instruments.map fun i => (i.name, i)) }

/-! ## Placing -/

/-- A new order in the next cell, under its id and its user. -/
def register (b : ReplicaBroker F) (user : String) (o : VOrder F) : ReplicaBroker F :=
  let handle := b.cells.length
  { b with
    cells := b.cells ++ [o]
    orders := b.orders.insert o.orderId handle
    users := b.users.insert user ()
    userOrders := b.userOrders.insert user ((b.userOrders.get? user).getD [] ++ [handle]) }

/-- Place the order of the arguments under the generated id; without a side the call panics. `promote`
is how an order is put among the completed ones. -/
def place (promote : List Handle → Handle → List Handle) (b : ReplicaBroker F) (orderId : String)
    (args : Args F) : Option (Handle × ReplicaBroker F) :=
  let user := ((args.get? "user").bind (·.asStr)).getD "default"
  (VOrder.ofArgs orderId (args.erase "user")).map fun order =>
    let handle := b.cells.length
    let b := b.register user order
    match b.instruments.get? order.symbol with
    | none =>
        let b := b.onCell handle (·.reject)
        (handle, { b with completed := promote b.completed handle })
    | some instrument =>
        let b := b.onCell handle (·.applyAsMarket instrument.lastPrice)
        (handle,
          { b with
            pending := b.pending ++ [handle]
            fills := b.fills ++ [⟨handle, instrument.lastPrice⟩] })

def push (completed : List Handle) (handle : Handle) : List Handle := completed ++ [handle]

def orderPlace (b : ReplicaBroker F) (orderId : String) (args : Args F) :
    Option (Handle × ReplicaBroker F) :=
  b.place push orderId args

/-! ## Modifying and canceling -/

def orderModify (b : ReplicaBroker F) (orderId : String) (args : Args F) :
    Option Handle × ReplicaBroker F :=
  match b.orders.get? orderId with
  | none => (none, b)
  | some handle => (some handle, b.onCell handle (·.modify args))

def orderCancel (b : ReplicaBroker F) (orderId : String) : Option Handle × ReplicaBroker F :=
  match b.orders.get? orderId with
  | none => (none, b)
  | some handle =>
      if b.isDone handle then (some handle, b)
      else
        let b := b.onCell handle (·.cancel)
        (some handle, { b with completed := push b.completed handle })

/-! ## Filling -/

/-- The last price a fill is run at; an order of an unknown instrument or of one without a price is
passed over. -/
def priceOf (b : ReplicaBroker F) (h : Handle) : Option F :=
  (((b.cell h).bind fun o => b.instruments.get? o.symbol).map (·.lastPrice)).filter (· ≠ 0)

/-- One pass over the fills, oldest first: the orders are updated, and the ids of those that are done
are collected. -/
def runFills : List (ReplicaFill F) → ReplicaBroker F → List (ReplicaFill F) × List String × ReplicaBroker F
  | [], b => ([], [], b)
  | fill :: rest, b =>
      match b.priceOf fill.order with
      | none =>
          let (fills, doneIds, b) := runFills rest b
          (fill :: fills, doneIds, b)
      | some lastPrice =>
          let b := b.onCell fill.order (·.applyFillUpdate lastPrice)
          let done := ((b.cell fill.order).filter (·.isDone)).map (·.orderId)
          let (fills, doneIds, b) := runFills rest b
          ({ fill with lastPrice := lastPrice } :: fills, done.toList ++ doneIds, b)

def runFill (b : ReplicaBroker F) : ReplicaBroker F :=
  let (fills, doneIds, b) := runFills b.fills b
  { b with
    completed := b.completed ++ doneIds.filterMap b.orders.get?
    fills := fills.filter fun f => !b.isDone f.order }

end ReplicaBroker

/-! ## The broker as a machine -/

inductive BrokerCall (F : Type)
  | update (instruments : List (Instrument F))
  | orderPlace (args : Args F)
  | orderModify (orderId : String) (args : Args F)
  | orderCancel (orderId : String)
  | runFill
deriving DecidableEq

inductive BrokerReply
  | updated
  | placed (handle : Handle)
  | panicked
  | found (handle : Option Handle)
  | filled
deriving DecidableEq

/-- `uuid n` is the id generated for the order in cell `n`. -/
def ReplicaBroker.step (uuid : Nat → String) (b : ReplicaBroker F) :
    BrokerCall F → BrokerReply × ReplicaBroker F
  | .update instruments => (.updated, b.update instruments)
  | .orderPlace args =>
      match b.orderPlace (uuid b.cells.length) args with
      | none => (.panicked, b)
      | some (handle, b) => (.placed handle, b)
  | .orderModify orderId args =>
      let (handle, b) := b.orderModify orderId args
      (.found handle, b)
  | .orderCancel orderId =>
      let (handle, b) := b.orderCancel orderId
      (.found handle, b)
  | .runFill => (.filled, b.runFill)

def replicaBroker (uuid : Nat → String) : Machine (ReplicaBroker F) (BrokerCall F) BrokerReply :=
  ⟨ReplicaBroker.step uuid⟩

end Omsrs.Replica
