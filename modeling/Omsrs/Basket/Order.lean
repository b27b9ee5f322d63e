import Omsrs.Basket.Value
import Omsrs.Lib.Machine

/-!
# Orders

An order of a basket: how it is built, what updates and modifications do to it, and what its broker is
told. The clock readings and a fresh id come with the calls.
-/

namespace Omsrs.Basket
open Omsrs.Lib

structure OrderInit where
  symbol : String := ""
  side : String := ""
  quantity : Int := 0
  id : Option String := none
  parentId : Option String := none
  timestamp : Option Int := none
  orderType : Option String := none
  brokerTimestamp : Option Int := none
  exchangeTimestamp : Option Int := none
  orderId : Option String := none
  exchangeOrderId : Option String := none
  price : Option ℚ := none
  triggerPrice : Option ℚ := none
  averagePrice : Option ℚ := none
  pendingQuantity : Option Int := none
  filledQuantity : Option Int := none
  cancelledQuantity : Option Int := none
  disclosedQuantity : Option Int := none
  validity : Option String := none
  status : Option String := none
  expiresIn : Option Int := none
  timezone : Option String := none
  clientId : Option String := none
  convertToMarketAfterExpiry : Option Bool := none
  cancelAfterExpiry : Option Bool := none
  retries : Option Int := none
  maxModifications : Option Int := none
  exchange : Option String := none
  tag : Option String := none
  /-- The persistence handle, by number. -/
  connection : Option Nat := none
  canPeg : Option Bool := none
  pseudoId : Option String := none
  strategyId : Option String := none
  portfolioId : Option String := none
  json : Option Fields := none
  error : Option String := none
  isMulti : Option Bool := none
  lastUpdatedAt : Option Int := none

/-- Until when the calls on an order are locked. -/
structure OrderLock where
  maxOrderModificationLockTime : ℚ
  maxOrderCancellationLockTime : ℚ
  modificationLockTill : Int
  cancellationLockTill : Int
deriving DecidableEq

structure Order where
  symbol : String
  side : String
  quantity : Int
  id : Option String
  parentId : Option String
  timestamp : Option Int
  orderType : String
  brokerTimestamp : Option Int
  exchangeTimestamp : Option Int
  orderId : Option String
  exchangeOrderId : Option String
  price : Option ℚ
  triggerPrice : ℚ
  averagePrice : ℚ
  pendingQuantity : Option Int
  filledQuantity : Int
  cancelledQuantity : Int
  disclosedQuantity : Int
  validity : String
  status : Option String
  expiresIn : Int
  timezone : String
  clientId : Option String
  convertToMarketAfterExpiry : Bool
  cancelAfterExpiry : Bool
  retries : Int
  maxModifications : Int
  exchange : Option String
  tag : Option String
  connection : Option Nat
  canPeg : Bool
  pseudoId : Option String
  strategyId : Option String
  portfolioId : Option String
  json : Option Fields
  error : Option String
  isMulti : Bool
  lastUpdatedAt : Option Int
  numModifications : Int
  lock : OrderLock

/-! ## Locks -/

namespace OrderLock

def unlocked : OrderLock where
  maxOrderModificationLockTime := 60
  maxOrderCancellationLockTime := 60
  modificationLockTill := 0
  cancellationLockTill := 0

/-- A lock time in nanoseconds, capped and cut to whole seconds. -/
def secsDelta (seconds cap : ℚ) : Int :=
  let capped := min seconds cap
  capped.num.tdiv capped.den * 10 ^ 9

def modify (l : OrderLock) (now : Int) (seconds : ℚ) : OrderLock :=
  { l with modificationLockTill := now + secsDelta seconds l.maxOrderModificationLockTime }

def cancel (l : OrderLock) (now : Int) (seconds : ℚ) : OrderLock :=
  { l with cancellationLockTill := now + secsDelta seconds l.maxOrderCancellationLockTime }

def canModify (l : OrderLock) (now : Int) : Bool := decide (l.modificationLockTill < now)

end OrderLock

/-! ## New orders -/

/-- Whole seconds from a time, in nanoseconds, to the end of its day. -/
def secondsToEndOfDay (now : Int) : Int :=
  let day := 86400 * 10 ^ 9
  let endOfDay := now / day * day + 86399 * 10 ^ 9
  max 0 ((endOfDay - now).tdiv (10 ^ 9))

/-- How long a new order lives: to the end of the day where nothing is said. -/
def OrderInit.expiry (init : OrderInit) (now : Int) : Except Panic Int :=
  match init.expiresIn with
  | none | some 0 => .ok (secondsToEndOfDay now)
  | some v => absI64 v

/-- The fields of a new order. -/
def OrderInit.build (init : OrderInit) (now : Int) (freshId : String) (expiresIn : Int) : Order where
  symbol := init.symbol
  side := init.side
  quantity := init.quantity
  id := some (init.id.getD freshId)
  parentId := init.parentId
  timestamp := some (init.timestamp.getD now)
  orderType := init.orderType.getD "MARKET"
  brokerTimestamp := init.brokerTimestamp
  exchangeTimestamp := init.exchangeTimestamp
  orderId := init.orderId
  exchangeOrderId := init.exchangeOrderId
  price := init.price
  triggerPrice := init.triggerPrice.getD 0
  averagePrice := init.averagePrice.getD 0
  -- any pending quantity of the init is ignored
  pendingQuantity := some init.quantity
  filledQuantity := init.filledQuantity.getD 0
  cancelledQuantity := init.cancelledQuantity.getD 0
  disclosedQuantity := init.disclosedQuantity.getD 0
  validity := init.validity.getD "DAY"
  status := init.status
  expiresIn := expiresIn
  timezone := init.timezone.getD "local"
  clientId := init.clientId
  convertToMarketAfterExpiry := init.convertToMarketAfterExpiry.getD false
  cancelAfterExpiry := init.cancelAfterExpiry.getD true
  retries := init.retries.getD 0
  maxModifications := init.maxModifications.getD 10
  exchange := init.exchange
  tag := init.tag
  connection := init.connection
  canPeg := init.canPeg.getD true
  pseudoId := init.pseudoId
  strategyId := init.strategyId
  portfolioId := init.portfolioId
  json := init.json
  error := init.error
  isMulti := init.isMulti.getD false
  lastUpdatedAt := init.lastUpdatedAt
  numModifications := 0
  lock := .unlocked

namespace Order

def fromInit (init : OrderInit) (now : Int) (freshId : String) : Except Panic Order := do
  if init.quantity < 0 then throw .assertion
  let expiresIn ← init.expiry now
  return init.build now freshId expiresIn

/-! ## What state an order is in -/

def isComplete (o : Order) : Except Panic Bool :=
  if o.quantity = o.filledQuantity then .ok true
  else if o.status = some "COMPLETE" then .ok true
  else (checkedI64 (o.filledQuantity + o.cancelledQuantity)).map fun n => decide (n = o.quantity)

def isDone (o : Order) : Except Panic Bool := do
  if ← o.isComplete then return true
  return decide (o.status = some "CANCELED") || decide (o.status = some "CANCELLED") ||
    decide (o.status = some "REJECTED")

/-! ## Attributes -/

/-- The value of an attribute; none where there is no such attribute, or it has no value. -/
def getAttr (L : Formats) (o : Order) : String → Option Value
  | "symbol" => some (.string o.symbol)
  | "side" => some (.string o.side)
  | "quantity" => some (.int o.quantity)
  | "id" => some ((o.id.map Value.string).getD .null)
  | "parent_id" => o.parentId.map .string
  | "order_type" => some (.string o.orderType)
  | "order_id" => o.orderId.map .string
  | "exchange_order_id" => o.exchangeOrderId.map .string
  | "price" => o.price.map fun d => .string (L.decimalText d)
  | "trigger_price" => some (.string (L.decimalText o.triggerPrice))
  | "average_price" => some (.string (L.decimalText o.averagePrice))
  | "pending_quantity" => o.pendingQuantity.map .int
  | "filled_quantity" => some (.int o.filledQuantity)
  | "cancelled_quantity" => some (.int o.cancelledQuantity)
  | "disclosed_quantity" => some (.int o.disclosedQuantity)
  | "validity" => some (.string o.validity)
  | "status" => o.status.map .string
  | "expires_in" => some (.int o.expiresIn)
  | "timezone" => some (.string o.timezone)
  | "client_id" => o.clientId.map .string
  | "exchange" => o.exchange.map .string
  | "tag" => o.tag.map .string
  | "can_peg" => some (.bool o.canPeg)
  | "pseudo_id" => o.pseudoId.map .string
  | "strategy_id" => o.strategyId.map .string
  | "portfolio_id" => o.portfolioId.map .string
  | "error" => o.error.map .string
  | "is_multi" => some (.bool o.isMulti)
  | "retries" => some (.int o.retries)
  | "max_modifications" => some (.int o.maxModifications)
  | "convert_to_market_after_expiry" => some (.bool o.convertToMarketAfterExpiry)
  | "cancel_after_expiry" => some (.bool o.cancelAfterExpiry)
  | _ => none

def getOtherArgsFromAttribs (L : Formats) (o : Order) (brokerAttrs attribsToCopy : Option (List String)) :
    OrdMap String Value :=
  let keys := attribsToCopy.getD [] ++ brokerAttrs.getD []
  OrdMap.empty.insertAll
    (keys.filterMap fun key =>
      match o.getAttr L key with
      | some v => if v.isNull then none else some (key, v)
      | none => none)

/-! ## Updates -/

/-- The filled quantity goes up only, and not beyond the quantity. -/
def setFilled (o : Order) (n : Int) : Except Panic Order :=
  (clampI64 n o.filledQuantity o.quantity).map fun clamped =>
    if o.filledQuantity < clamped then { o with filledQuantity := clamped } else o

def attrs : List String :=
  ["exchange_timestamp", "exchange_order_id", "status", "filled_quantity", "pending_quantity",
    "disclosed_quantity", "average_price"]

def setFromValue (L : Formats) (o : Order) (key : String) (v : Value) : Except Panic Order :=
  match key with
  | "exchange_timestamp" =>
      .ok (((v.asStr.bind L.timeOfText).map fun t => { o with exchangeTimestamp := some t }).getD o)
  | "exchange_order_id" => .ok ((v.asStr.map fun s => { o with exchangeOrderId := some s }).getD o)
  | "status" => .ok ((v.asStr.map fun s => { o with status := some s }).getD o)
  | "filled_quantity" =>
      match v.asI64 with
      | some n => o.setFilled n
      | none => .ok o
  | "pending_quantity" => .ok ((v.asI64.map fun n => { o with pendingQuantity := some n }).getD o)
  | "disclosed_quantity" => .ok ((v.asI64.map fun n => { o with disclosedQuantity := n }).getD o)
  | "average_price" => .ok (((valueToDecimal L v).map fun d => { o with averagePrice := d }).getD o)
  | _ => .ok o

/-- One attribute of an update, where the data name it. -/
def updateAttr (L : Formats) (data : Fields) (o : Order) (key : String) : Except Panic Order :=
  match data.get? key with
  | some v => if v.isNull then .ok o else o.setFromValue L key v
  | none => .ok o

/-- The writes of an update, attribute by attribute. A panic leaves the order as far as it was written. -/
def writeAttrs (L : Formats) (data : Fields) (o : Order) : List String → Option Panic × Order
  | [] => (none, o)
  | key :: keys =>
      match updateAttr L data o key with
      | .error p => (some p, o)
      | .ok o => writeAttrs L data o keys

def update (L : Formats) (o : Order) (now : Int) (data : Fields) : Except Panic Bool × Order :=
  match o.isDone with
  | .error p => (.error p, o)
  | .ok true => (.ok false, o)
  | .ok false =>
      match writeAttrs L data o attrs with
      | (some p, o) => (.error p, o)
      | (none, o) =>
          let o := { o with lastUpdatedAt := some now }
          if data.contains "pending_quantity" then (.ok true, o)
          else
            match checkedI64 (o.quantity - o.filledQuantity) with
            | .error p => (.error p, o)
            | .ok pending => (.ok true, { o with pendingQuantity := some pending })

/-! ## Modifications -/

def frozenAttrs : List String := ["symbol", "side"]

def keysForBroker : List String :=
  ["order_id", "quantity", "price", "trigger_price", "order_type", "disclosed_quantity"]

def setLocalField (L : Formats) (o : Order) (key : String) (v : Value) : Except Panic Order :=
  match key with
  | "quantity" => .ok ((v.asI64.map fun n => { o with quantity := n }).getD o)
  | "price" => .ok { o with price := valueToDecimal L v }
  | "trigger_price" => .ok (((valueToDecimal L v).map fun d => { o with triggerPrice := d }).getD o)
  | "order_type" => .ok ((v.asStr.map fun s => { o with orderType := s }).getD o)
  | "disclosed_quantity" => .ok ((v.asI64.map fun n => { o with disclosedQuantity := n }).getD o)
  | "exchange" => .ok ((v.asStr.map fun s => { o with exchange := some s }).getD o)
  | "client_id" => .ok ((v.asStr.map fun s => { o with clientId := some s }).getD o)
  | "validity" => .ok ((v.asStr.map fun s => { o with validity := s }).getD o)
  | "tag" => .ok ((v.asStr.map fun s => { o with tag := some s }).getD o)
  | "status" => .ok ((v.asStr.map fun s => { o with status := some s }).getD o)
  | "filled_quantity" =>
      match v.asI64 with
      | some n => o.setFilled n
      | none => .ok o
  | "pending_quantity" => .ok ((v.asI64.map fun n => { o with pendingQuantity := some n }).getD o)
  | "cancelled_quantity" => .ok ((v.asI64.map fun n => { o with cancelledQuantity := n }).getD o)
  | "average_price" => .ok (((valueToDecimal L v).map fun d => { o with averagePrice := d }).getD o)
  | "expires_in" => .ok ((v.asI64.map fun n => { o with expiresIn := n }).getD o)
  | _ => .ok o

/-- The local writes of a modification in the order of the walk, and the arguments to add. A panic
leaves the order as far as it was written. -/
def writeLocal (L : Formats) (o : Order) (argsToAdd : List (String × Value)) :
    List (String × Value) → Option Panic × Order × List (String × Value)
  | [] => (none, o, argsToAdd)
  | (key, v) :: rest =>
      if frozenAttrs.contains key then writeLocal L o argsToAdd rest
      else if (o.getAttr L key).isSome then
        match o.setLocalField L key v with
        | .error p => (some p, o, argsToAdd)
        | .ok o =>
            if keysForBroker.contains key then writeLocal L o argsToAdd rest
            else writeLocal L o (argsToAdd ++ [(key, v)]) rest
      else writeLocal L o (argsToAdd ++ [(key, v)]) rest

/-- What the broker is told of an order by default. -/
def modifyArgs (L : Formats) (o : Order) : List (String × Value) :=
  (o.orderId.map fun oid => ("order_id", Value.string oid)).toList ++
    [("quantity", .int o.quantity)] ++
    (o.price.map fun p => ("price", decimalValue L p)).toList ++
    [("trigger_price", decimalValue L o.triggerPrice),
      ("order_type", .string (L.toUppercase o.orderType)),
      ("disclosed_quantity", .int o.disclosedQuantity)]

/-- How a modification ends. -/
inductive Modified
  | locked
  | panicked (p : Panic)
  | unsent
  | sent (args : OrdMap String Value)

def modify (L : Formats) (o : Order) (now : Int) (brokerAttrs attribsToCopy : Option (List String))
    (kwargs : Fields) : Modified × Order :=
  if o.lock.canModify now = false then (.locked, o)
  else
    let otherArgs := o.getOtherArgsFromAttribs L brokerAttrs attribsToCopy
    match writeLocal L o [] kwargs.entries with
    | (some p, o, _) => (.panicked p, o)
    | (none, o, argsToAdd) =>
        let orderArgs := OrdMap.empty.insertAll (o.modifyArgs L)
        let orderArgs := orderArgs.insertAll otherArgs.entries
        let orderArgs := orderArgs.insertAll argsToAdd
        let orderArgs := orderArgs.insertAll
          (keysForBroker.filterMap fun key => (kwargs.get? key).map fun v => (key, v))
        if o.numModifications < o.maxModifications then
          if o.orderId.isNone then (.unsent, o)
          else (.sent orderArgs, { o with numModifications := o.numModifications + 1 })
        else (.unsent, o)

/-! ## Other calls -/

/-- What the broker is told of a new order by default. -/
def executeArgs (L : Formats) (o : Order) : List (String × Value) :=
  [("symbol", .string (L.toUppercase o.symbol)), ("side", .string (L.toUppercase o.side)),
      ("order_type", .string (L.toUppercase o.orderType)), ("quantity", .int o.quantity)] ++
    (o.price.map fun p => ("price", decimalValue L p)).toList ++
    [("trigger_price", decimalValue L o.triggerPrice), ("disclosed_quantity", .int o.disclosedQuantity)]

def defaultKeys : List String :=
  ["symbol", "side", "order_type", "quantity", "price", "trigger_price", "disclosed_quantity"]

/-- The id that the order has then, and what its broker was told, if anything; the broker answers. -/
def execute (L : Formats) (o : Order) (brokerAttrs attribsToCopy : Option (List String))
    (kwargs : Fields) (answer : Option String) :
    Except Panic (Option String × Option (OrdMap String Value) × Order) := do
  if (← o.isComplete) || o.orderId.isSome then return (o.orderId, none, o)
  let orderArgs := OrdMap.empty.insertAll (o.executeArgs L)
  let orderArgs := orderArgs.insertAll (o.getOtherArgsFromAttribs L brokerAttrs attribsToCopy).entries
  let orderArgs := orderArgs.insertAll (kwargs.entries.filter fun e => !defaultKeys.contains e.1)
  return (answer, some orderArgs, { o with orderId := answer })

/-- Code 1 locks modifications, code 2 cancellations. -/
def addLock (o : Order) (now : Int) (code : Int) (seconds : ℚ) : Order :=
  if code = 1 then { o with lock := o.lock.modify now seconds }
  else if code = 2 then { o with lock := o.lock.cancel now seconds }
  else o

end Order

/-! ## An order as a machine -/

inductive OrderCall
  | update (now : Int) (data : Fields)
  | modify (now : Int) (brokerAttrs attribsToCopy : Option (List String)) (kwargs : Fields)
  | addLock (now code : Int) (seconds : ℚ)

inductive OrderReply
  | updated (applied : Bool)
  | modified (m : Order.Modified)
  | lockAdded
  | panicked (p : Panic)

def OrderReply.ofModified : Order.Modified → OrderReply
  | .panicked p => .panicked p
  | m => .modified m

def Order.step (L : Formats) (o : Order) : OrderCall → OrderReply × Order
  | .update now data =>
      match o.update L now data with
      | (.ok applied, o) => (.updated applied, o)
      | (.error p, o) => (.panicked p, o)
  | .modify now brokerAttrs attribsToCopy kwargs =>
      let (m, o) := o.modify L now brokerAttrs attribsToCopy kwargs
      (.ofModified m, o)
  | .addLock now code seconds => (.lockAdded, o.addLock now code seconds)

def orderMachine (L : Formats) : Machine Order OrderCall OrderReply := ⟨Order.step L⟩

end Omsrs.Basket
