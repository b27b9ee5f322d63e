import Omsrs.Basket.Order

/-!
# Compound orders

A basket of orders with an index and keys into it. Orders are added at the end only, so that index and
keys hold positions.
-/

namespace Omsrs.Basket
open Omsrs.Lib

structure CompoundOrder where
  id : String
  ltp : OrdMap String ℚ
  orders : List Order
  /-- The persistence handle, by number. -/
  connection : Option Nat
  index : OrdMap Int Nat
  keys : OrdMap String Nat

inductive CompoundError
  | indexAlreadyUsed (index : Int)
  | keyAlreadyUsed (key : String)
  | invalidOrder (message : String)
deriving DecidableEq

/-- An index as a float. -/
inductive FloatIndex
  | nan
  | infinite (negative : Bool)
  | finite (x : ℚ)
deriving DecidableEq

/-- Toward zero, and to the nearest value of `i64`. -/
def FloatIndex.truncated : FloatIndex → Int
  | .nan => 0
  | .infinite true => -2 ^ 63
  | .infinite false => 2 ^ 63 - 1
  | .finite x => i64OfFloat x

namespace CompoundOrder

def new (id : String) : CompoundOrder where
  id := id
  ltp := .empty
  orders := []
  connection := none
  index := .empty
  keys := .empty

/-- Each order goes to the end, and its place in the list to its place in the list. -/
def withOrders (b : CompoundOrder) (orders : List Order) : CompoundOrder :=
  { b with
    orders := b.orders ++ orders
    index := b.index.insertAll (orders.zipIdx.map fun e => ((e.2 : Int), e.2)) }

def getNextIndex (b : CompoundOrder) : Except Panic Int :=
  match b.index.keys.max? with
  | none => .ok 0
  | some m => checkedI64 (m + 1)

/-- The index that is given, else the next one. -/
def indexOrNext (b : CompoundOrder) : Option Int → Except Panic Int
  | some idx => .ok idx
  | none => b.getNextIndex

def getByIndex (b : CompoundOrder) (idx : Int) : Option Order := (b.index.get? idx).bind (b.orders[·]?)

def getByKey (b : CompoundOrder) (key : String) : Option Order := (b.keys.get? key).bind (b.orders[·]?)

def get (b : CompoundOrder) (key : String) : Option Order :=
  (b.getByKey key).or ((i64OfText key).bind b.getByIndex)

/-- An order at the end, under an index and a key. -/
def push (b : CompoundOrder) (order : Order) (idx : Int) (key : Option String) : CompoundOrder :=
  { b with
    orders := b.orders ++ [order]
    index := b.index.insert idx b.orders.length
    keys := match key with
      | some k => b.keys.insert k b.orders.length
      | none => b.keys }

/-- Why an index or a key cannot be taken. -/
def refusal (b : CompoundOrder) (idx : Int) (key : Option String) : Option CompoundError :=
  if b.index.contains idx then some (.indexAlreadyUsed idx)
  else match key with
    | some k => if b.keys.contains k then some (.keyAlreadyUsed k) else none
    | none => none

def addOrder (b : CompoundOrder) (init : OrderInit) (index : Option Int) (key : Option String) (now : Int)
    (freshId : String) : Except Panic (Except CompoundError String × CompoundOrder) := do
  let init := { init with parentId := some b.id, connection := init.connection.or b.connection }
  let idx ← b.indexOrNext index
  match b.refusal idx key with
  | some e => return (.error e, b)
  | none =>
      let order ← Order.fromInit init now freshId
      return (.ok (order.id.getD freshId), b.push order idx key)

def add (b : CompoundOrder) (order : Order) (index : Option FloatIndex) (key : Option String)
    (freshId : String) : Except Panic (Except CompoundError String × CompoundOrder) := do
  let id := order.id.getD freshId
  let order := { order with
    parentId := some b.id
    connection := order.connection.or b.connection
    id := some id }
  let idx ← b.indexOrNext (index.map FloatIndex.truncated)
  match b.refusal idx key with
  | some e => return (.error e, b)
  | none => return (.ok id, b.push order idx key)

end CompoundOrder

/-! ## A basket as a machine -/

inductive BasketCall
  | withOrders (orders : List Order)
  | addOrder (init : OrderInit) (index : Option Int) (key : Option String) (now : Int) (freshId : String)
  | add (order : Order) (index : Option FloatIndex) (key : Option String) (freshId : String)

inductive BasketReply
  | made
  | added (id : String)
  | failed (e : CompoundError)
  | panicked (p : Panic)

/-- What a call that may fail leaves; a panic leaves the basket. -/
def BasketReply.ofResult (b : CompoundOrder) :
    Except Panic (Except CompoundError String × CompoundOrder) → BasketReply × CompoundOrder
  | .ok (.ok id, b) => (.added id, b)
  | .ok (.error e, b) => (.failed e, b)
  | .error p => (.panicked p, b)

def CompoundOrder.step (b : CompoundOrder) : BasketCall → BasketReply × CompoundOrder
  | .withOrders orders => (.made, b.withOrders orders)
  | .addOrder init index key now freshId => BasketReply.ofResult b (b.addOrder init index key now freshId)
  | .add order index key freshId => BasketReply.ofResult b (b.add order index key freshId)

def basketMachine : Machine CompoundOrder BasketCall BasketReply := ⟨CompoundOrder.step⟩

end Omsrs.Basket
