import Omsrs.Basket.Compound
import Omsrs.Basket.Persist

/-!
# A basket and its broker

The calls on a basket, in any order: those that fan out over its orders and those on one order of it.
Each tells what the broker and the database were told about which order. What the broker answers, and
what the clock says, comes with the calls. The asynchronous basket awaits the same calls one by one.
-/

namespace Omsrs.Basket
open Omsrs.Lib

/-- What the broker of an order, or its database, is told. -/
inductive Message
  | place (args : OrdMap String Value) (answer : Option String)
  | modify (args : OrdMap String Value)
  | cancel (args : OrdMap String Value)
  | save (handle : Nat) (row : OrdMap String Value)

/-- What a call on one order makes of it. A panic comes after what was told before it. -/
structure Turn (α : Type) where
  told : List Message
  order : Order
  value : Except Panic α

def Turn.idle {α : Type} (o : Order) (a : α) : Turn α := ⟨[], o, .ok a⟩

def Turn.map {α β : Type} (f : α → β) (t : Turn α) : Turn β := ⟨t.told, t.order, t.value.map f⟩

def OrderLock.canCancel (l : OrderLock) (now : Int) : Bool := decide (l.cancellationLockTill < now)

namespace Fields

theorem empty_distinct : (([] : List (String × Value)).map Prod.fst).Nodup := .nil

def empty : Fields := ⟨[], empty_distinct⟩

/-- The entries of `kwargs` over those of `m`. -/
def overlaid (m kwargs : Fields) : Fields where
  entries := (m.entries.filter fun e => !kwargs.contains e.1) ++ kwargs.entries
  distinct := by
    rw [List.map_append, List.nodup_append]
    refine ⟨m.distinct.sublist (List.filter_sublist.map _), kwargs.distinct, ?_⟩
    intro a ha b hb hab
    obtain ⟨e, he, rfl⟩ := List.mem_map.mp ha
    obtain ⟨e', he', rfl⟩ := List.mem_map.mp hb
    have hnot := (List.mem_filter.mp he).2
    simp only [contains, get?, hab, Bool.not_eq_true', Option.isSome_eq_false_iff,
      Option.isNone_iff_eq_none, List.lookup_eq_none_iff] at hnot
    simpa using hnot e' he'

end Fields

/-! ## Calls on one order -/

namespace Order

def isPending (o : Order) : Except Panic Bool := do
  let qty ← checkedI64 (o.filledQuantity + o.cancelledQuantity)
  if o.status = some "COMPLETE" ∨ o.status = some "CANCELED" ∨ o.status = some "CANCELLED" ∨
      o.status = some "REJECTED" then return false
  return decide (qty < o.quantity)

/-- Whole seconds that the order has left. -/
def timeToExpiry (o : Order) (now : Int) : Except Panic Int :=
  match o.timestamp with
  | none => .ok o.expiresIn
  | some ts => (checkedI64 (o.expiresIn - (now - ts).tdiv (10 ^ 9))).map (max · 0)

def hasExpired (o : Order) (now : Int) : Except Panic Bool :=
  (o.timeToExpiry now).map fun left => decide (left = 0)

/-- The order's row, where it has a database. -/
def saveToDb (L : Formats) (o : Order) : List Message :=
  match o.connection with
  | some handle => [.save handle (o.toRow L)]
  | none => []

def placing (L : Formats) (o : Order) (brokerAttrs attribsToCopy : Option (List String)) (kwargs : Fields)
    (answer : Option String) : Turn (Option String) :=
  match o.execute L brokerAttrs attribsToCopy kwargs answer with
  | .error p => ⟨[], o, .error p⟩
  | .ok (orderId, none, o) => .idle o orderId
  | .ok (orderId, some args, o) => ⟨.place args answer :: o.saveToDb L, o, .ok orderId⟩

def modifying (L : Formats) (o : Order) (now : Int) (brokerAttrs attribsToCopy : Option (List String))
    (kwargs : Fields) : Turn Unit :=
  match o.modify L now brokerAttrs attribsToCopy kwargs with
  | (.locked, o) | (.unsent, o) => .idle o ()
  | (.panicked p, o) => ⟨[], o, .error p⟩
  | (.sent args, o) => ⟨.modify args :: o.saveToDb L, o, .ok ()⟩

def cancel (L : Formats) (o : Order) (now : Int) (brokerAttrs attribsToCopy : Option (List String)) :
    Turn Unit :=
  if o.lock.canCancel now = false then .idle o ()
  else
    match o.orderId with
    | none => .idle o ()
    | some oid =>
        let args := OrdMap.empty.insert "order_id" (.string oid)
        ⟨[.cancel (args.insertAll (o.getOtherArgsFromAttribs L brokerAttrs attribsToCopy).entries)], o,
          .ok ()⟩

def updating (L : Formats) (o : Order) (now : Int) (data : Fields) : Turn Bool :=
  match o.update L now data with
  | (.error p, o) => ⟨[], o, .error p⟩
  | (.ok false, o) => .idle o false
  | (.ok true, o) => ⟨o.saveToDb L, o, .ok true⟩

/-- The clock readings of a check: for the expiry and for the lock. -/
structure Tick where
  expiry : Int
  lock : Int

/-- An expired order that is pending goes to the market, or is cancelled. -/
def checkFlag (L : Formats) (o : Order) (tick : Tick) (brokerModify brokerCancel : Option (List String)) :
    Turn Unit :=
  match (do if ← o.isPending then o.hasExpired tick.expiry else return false : Except Panic Bool) with
  | .error p => ⟨[], o, .error p⟩
  | .ok false => .idle o ()
  | .ok true =>
      if o.convertToMarketAfterExpiry then
        let o := { o with orderType := "MARKET", price := none, triggerPrice := 0 }
        o.modifying L tick.lock brokerModify none .empty
      else if o.cancelAfterExpiry then o.cancel L tick.lock brokerCancel none
      else .idle o ()

/-- A new clock opens the locks. -/
def setClock (o : Order) : Order := { o with lock := .unlocked }

end Order

/-- A call on one order of a basket, with what its broker and the clock say. -/
inductive PositionCall
  | update (now : Int) (data : Fields)
  | execute (brokerAttrs attribsToCopy : Option (List String)) (kwargs : Fields) (answer : Option String)
  | modify (now : Int) (brokerAttrs attribsToCopy : Option (List String)) (kwargs : Fields)
  | cancel (now : Int) (brokerAttrs attribsToCopy : Option (List String))
  | addLock (now code : Int) (seconds : ℚ)
  | saveToDb

def Order.answer (L : Formats) (o : Order) : PositionCall → Turn Unit
  | .update now data => (o.updating L now data).map fun _ => ()
  | .execute brokerAttrs attribsToCopy kwargs answer =>
      (o.placing L brokerAttrs attribsToCopy kwargs answer).map fun _ => ()
  | .modify now brokerAttrs attribsToCopy kwargs => o.modifying L now brokerAttrs attribsToCopy kwargs
  | .cancel now brokerAttrs attribsToCopy => o.cancel L now brokerAttrs attribsToCopy
  | .addLock now code seconds => .idle (o.addLock now code seconds) ()
  | .saveToDb => ⟨o.saveToDb L, o, .ok ()⟩

/-! ## Calls on the basket -/

/-- A call on each order in turn, up to a panic. -/
def sweep {α : Type} (f : Nat → Order → Turn α) :
    Nat → List Order → List (Nat × Message) × List Order × Except Panic (List α)
  | _, [] => ([], [], .ok [])
  | n, o :: rest =>
      let t := f n o
      match t.value with
      | .error p => (t.told.map (Prod.mk n), t.order :: rest, .error p)
      | .ok a =>
          let (told, orders, as) := sweep f (n + 1) rest
          (t.told.map (Prod.mk n) ++ told, t.order :: orders, as.map (a :: ·))

/-- What the broker says in one call: the attributes it wants and the ids it gives, order by order. -/
structure BrokerView where
  attribsToCopyExecute : Nat → Option (List String)
  attribsToCopyModify : Nat → Option (List String)
  attribsToCopyCancel : Nat → Option (List String)
  answer : Nat → Option String

/-- A basket, whether it has a broker, and the arguments of all its placements. -/
structure Session where
  basket : CompoundOrder
  hasBroker : Bool
  orderArgs : Fields

inductive SessionCall
  | basket (c : BasketCall)
  | position (position : Nat) (c : PositionCall)
  | updateOrders (clock : Nat → Int) (data : OrdMap String Fields)
  | executeAll (view : BrokerView) (kwargs : Fields)
  | checkFlags (view : BrokerView) (clock : Nat → Order.Tick)
  | updateLtp (lastPrice : OrdMap String ℚ)
  | setClock
  | save

/-- What a call told, about which order, and what it returned or what stopped it. -/
structure SessionReply where
  told : List (Nat × Message)
  value : Except Panic BasketReply
  updated : OrdMap String Bool
  saved : Nat

def SessionReply.plain (told : List (Nat × Message)) (value : Except Panic Unit) : SessionReply :=
  ⟨told, value.map fun _ => .made, .empty, 0⟩

namespace CompoundOrder

/-- An update for each order that is pending and has data under its id. -/
def updateOrders (L : Formats) (b : CompoundOrder) (clock : Nat → Int) (data : OrdMap String Fields) :
    List (Nat × Message) × CompoundOrder × Except Panic (OrdMap String Bool) :=
  match b.orders.mapM Order.isPending with
  | .error p => ([], b, .error p)
  | .ok pending =>
      let (told, orders, answers) := sweep (fun n o =>
        if (pending[n]?).getD false then
          match o.orderId with
          | none => .idle o none
          | some oid =>
              match data.get? oid with
              | none => .idle o none
              | some fields => (o.updating L (clock n) fields).map fun ok => some (oid, ok)
        else .idle o none) 0 b.orders
      (told, { b with orders := orders }, answers.map fun as => .insertAll .empty (as.filterMap fun a => a))

def executeAll (L : Formats) (b : CompoundOrder) (orderArgs : Fields) (view : BrokerView)
    (kwargs : Fields) : List (Nat × Message) × CompoundOrder × Except Panic (List (Option String)) :=
  let (told, orders, answers) := sweep (fun n o =>
    o.placing L (view.attribsToCopyExecute n) none (orderArgs.overlaid kwargs) (view.answer n)) 0 b.orders
  (told, { b with orders := orders }, answers)

def checkFlags (L : Formats) (b : CompoundOrder) (view : BrokerView) (clock : Nat → Order.Tick) :
    List (Nat × Message) × CompoundOrder × Except Panic (List Unit) :=
  let (told, orders, answers) := sweep (fun n o =>
    o.checkFlag L (clock n) (view.attribsToCopyModify n) (view.attribsToCopyCancel n)) 0 b.orders
  (told, { b with orders := orders }, answers)

/-- The last prices go over those that are known. -/
def updateLtp (b : CompoundOrder) (lastPrice : OrdMap String ℚ) : CompoundOrder :=
  { b with ltp := b.ltp.insertAll lastPrice.entries }

def setClock (b : CompoundOrder) : CompoundOrder := { b with orders := b.orders.map Order.setClock }

/-- The rows of the orders that have a database. -/
def save (L : Formats) (b : CompoundOrder) : List (Nat × Message) :=
  b.orders.zipIdx.flatMap fun e => (e.1.saveToDb L).map (Prod.mk e.2)

end CompoundOrder

namespace Session

/-- What is saved of an order that a call has put into the basket. -/
def savedOnAdd (L : Formats) (b : CompoundOrder) : BasketReply → List (Nat × Message)
  | .added _ =>
      match b.orders.getLast? with
      | some o => (o.saveToDb L).map (Prod.mk (b.orders.length - 1))
      | none => []
  | _ => []

def step (L : Formats) (s : Session) : SessionCall → SessionReply × Session
  | .basket c =>
      let (reply, b) := s.basket.step c
      (⟨savedOnAdd L b reply, .ok reply, .empty, 0⟩, { s with basket := b })
  | .position n c =>
      match s.basket.orders[n]? with
      | none => (.plain [] (.ok ()), s)
      | some o =>
          let t := o.answer L c
          (.plain (t.told.map (Prod.mk n)) t.value,
            { s with basket := { s.basket with orders := s.basket.orders.set n t.order } })
  | .updateOrders clock data =>
      let (told, b, answers) := s.basket.updateOrders L clock data
      (⟨told, answers.map fun _ => .made, (answers.toOption).getD .empty, 0⟩, { s with basket := b })
  | .executeAll view kwargs =>
      if s.hasBroker then
        let (told, b, answers) := s.basket.executeAll L s.orderArgs view kwargs
        (.plain told (answers.map fun _ => ()), { s with basket := b })
      else (.plain [] (.ok ()), s)
  | .checkFlags view clock =>
      if s.hasBroker then
        let (told, b, answers) := s.basket.checkFlags L view clock
        (.plain told (answers.map fun _ => ()), { s with basket := b })
      else (.plain [] (.ok ()), s)
  | .updateLtp lastPrice => (.plain [] (.ok ()), { s with basket := s.basket.updateLtp lastPrice })
  | .setClock => (.plain [] (.ok ()), { s with basket := s.basket.setClock })
  | .save =>
      let told := s.basket.save L
      (⟨told, .ok .made, .empty, told.length⟩, s)

end Session

def sessionMachine (L : Formats) : Machine Session SessionCall SessionReply := ⟨Session.step L⟩

end Omsrs.Basket
