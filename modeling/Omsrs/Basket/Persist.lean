import Omsrs.Basket.Order

/-!
# Orders in a database

The row of an order, what the database keeps of it in columns with their types, and the order that is
built of a row that comes back.
-/

namespace Omsrs.Basket
open Omsrs.Lib

/-! ## Rows of orders -/

def decimalPersistenceValue (L : Formats) (d : ℚ) : Value := .number (.float (L.decimalFloat d))

namespace Order

/-- The columns of an order that have a value. -/
def columns (L : Formats) (o : Order) : List (String × Option Value) :=
  [("symbol", some (.string o.symbol)),
    ("side", some (.string o.side)),
    ("quantity", some (.int o.quantity)),
    ("id", o.id.map .string),
    ("parent_id", o.parentId.map .string),
    ("timestamp", o.timestamp.map fun ts => .string (L.timeText ts)),
    ("order_type", some (.string o.orderType)),
    ("broker_timestamp", o.brokerTimestamp.map fun ts => .string (L.timeText ts)),
    ("exchange_timestamp", o.exchangeTimestamp.map fun ts => .string (L.timeText ts)),
    ("order_id", o.orderId.map .string),
    ("exchange_order_id", o.exchangeOrderId.map .string),
    ("price", o.price.map (decimalPersistenceValue L)),
    ("trigger_price", some (decimalPersistenceValue L o.triggerPrice)),
    ("average_price", some (decimalPersistenceValue L o.averagePrice)),
    ("pending_quantity", o.pendingQuantity.map .int),
    ("filled_quantity", some (.int o.filledQuantity)),
    ("cancelled_quantity", some (.int o.cancelledQuantity)),
    ("disclosed_quantity", some (.int o.disclosedQuantity)),
    ("validity", some (.string o.validity)),
    ("status", o.status.map .string),
    ("expires_in", some (.int o.expiresIn)),
    ("timezone", some (.string o.timezone)),
    ("client_id", o.clientId.map .string),
    ("convert_to_market_after_expiry", some (.bool o.convertToMarketAfterExpiry)),
    ("cancel_after_expiry", some (.bool o.cancelAfterExpiry)),
    ("retries", some (.int o.retries)),
    ("max_modifications", some (.int o.maxModifications)),
    ("exchange", o.exchange.map .string),
    ("tag", o.tag.map .string),
    ("can_peg", some (.bool o.canPeg)),
    ("pseudo_id", o.pseudoId.map .string),
    ("strategy_id", o.strategyId.map .string),
    ("portfolio_id", o.portfolioId.map .string),
    ("JSON", o.json.map fun m => .object m.entries),
    ("error", o.error.map .string),
    ("is_multi", some (.bool o.isMulti)),
    ("last_updated_at", o.lastUpdatedAt.map fun ts => .string (L.timeText ts))]

def toRow (L : Formats) (o : Order) : OrdMap String Value :=
  OrdMap.empty.insertAll ((o.columns L).filterMap fun e => e.2.map (Prod.mk e.1))

end Order

namespace Row

/-- A text that is there. -/
def text : Option Value → Option String
  | some (.string s) => some s
  | _ => none

def integer (v : Option Value) : Option Int := v.bind (·.asI64)

def flag (v : Option Value) : Option Bool :=
  v.map fun
    | .bool b => b
    | .number n => ((Value.number n).asI64.map fun x => decide (x ≠ 0)).getD false
    | .string s => decide (asciiLower s = "true") || decide (asciiLower s = "1")
    | _ => false

def decimal (L : Formats) : Option Value → Option ℚ
  | some (.number n) => (Value.number n).asF64.bind L.decimalOfFloat
  | some (.string s) => L.decimalOfText s
  | _ => none

def time (L : Formats) : Option Value → Option Int
  | some (.string s) => L.timeOfText s
  | _ => none

def jsonMap (L : Formats) : Option Value → Option Fields
  | some (.string s) => L.objectOfText s
  -- the members of an object have distinct names
  | some (.object members) => if h : (members.map Prod.fst).Nodup then some ⟨members, h⟩ else none
  | _ => none

end Row

/-- The fields of a new order as a row gives them. -/
def OrderInit.fromRow (L : Formats) (row : OrdMap String Value) : OrderInit where
  symbol := (Row.text (row.get? "symbol")).getD ""
  side := (Row.text (row.get? "side")).getD ""
  quantity := (Row.integer (row.get? "quantity")).getD 0
  id := Row.text (row.get? "id")
  parentId := Row.text (row.get? "parent_id")
  timestamp := Row.time L (row.get? "timestamp")
  orderType := Row.text (row.get? "order_type")
  brokerTimestamp := Row.time L (row.get? "broker_timestamp")
  exchangeTimestamp := Row.time L (row.get? "exchange_timestamp")
  orderId := Row.text (row.get? "order_id")
  exchangeOrderId := Row.text (row.get? "exchange_order_id")
  price := Row.decimal L (row.get? "price")
  triggerPrice := Row.decimal L (row.get? "trigger_price")
  averagePrice := Row.decimal L (row.get? "average_price")
  pendingQuantity := Row.integer (row.get? "pending_quantity")
  filledQuantity := Row.integer (row.get? "filled_quantity")
  cancelledQuantity := Row.integer (row.get? "cancelled_quantity")
  disclosedQuantity := Row.integer (row.get? "disclosed_quantity")
  validity := Row.text (row.get? "validity")
  status := Row.text (row.get? "status")
  expiresIn := Row.integer (row.get? "expires_in")
  timezone := Row.text (row.get? "timezone")
  clientId := Row.text (row.get? "client_id")
  convertToMarketAfterExpiry := Row.flag (row.get? "convert_to_market_after_expiry")
  cancelAfterExpiry := Row.flag (row.get? "cancel_after_expiry")
  retries := Row.integer (row.get? "retries")
  maxModifications := Row.integer (row.get? "max_modifications")
  exchange := Row.text (row.get? "exchange")
  tag := Row.text (row.get? "tag")
  connection := none
  canPeg := Row.flag (row.get? "can_peg")
  pseudoId := Row.text (row.get? "pseudo_id")
  strategyId := Row.text (row.get? "strategy_id")
  portfolioId := Row.text (row.get? "portfolio_id")
  json := Row.jsonMap L (row.get? "JSON")
  error := Row.text (row.get? "error")
  isMulti := Row.flag (row.get? "is_multi")
  lastUpdatedAt := Row.time L (row.get? "last_updated_at")

def Order.fromRow (L : Formats) (row : OrdMap String Value) (now : Int) (freshId : String) :
    Except Panic Order := Order.fromInit (OrderInit.fromRow L row) now freshId

/-! ## The database -/

inductive SqlValue
  | null
  | integer (n : Int)
  | real (x : ℚ)
  | text (s : String)
deriving DecidableEq

/-- The declared types of columns. -/
inductive ColumnType
  | text
  | integer
  | real
  | string
deriving DecidableEq

def schema : List (String × ColumnType) :=
  [("symbol", .text), ("side", .text), ("quantity", .integer),
    ("id", .text), ("parent_id", .text), ("timestamp", .text),
    ("order_type", .text), ("broker_timestamp", .text),
    ("exchange_timestamp", .text), ("order_id", .text),
    ("exchange_order_id", .text), ("price", .real),
    ("trigger_price", .real), ("average_price", .real),
    ("pending_quantity", .integer), ("filled_quantity", .integer),
    ("cancelled_quantity", .integer), ("disclosed_quantity", .integer),
    ("validity", .text), ("status", .text),
    ("expires_in", .integer), ("timezone", .text),
    ("client_id", .text), ("convert_to_market_after_expiry", .text),
    ("cancel_after_expiry", .text), ("retries", .integer), ("max_modifications", .integer),
    ("exchange", .text), ("tag", .string), ("can_peg", .integer),
    ("pseudo_id", .string), ("strategy_id", .string), ("portfolio_id", .string),
    ("JSON", .text), ("error", .text), ("is_multi", .integer),
    ("last_updated_at", .text)]

def jsonToSql (L : Formats) : Value → SqlValue
  | .null => .null
  | .bool b => .integer (if b then 1 else 0)
  | .number n =>
      match (Value.number n).asI64 with
      | some i => .integer i
      | none =>
          match (Value.number n).asF64 with
          | some f => .real f
          | none => .text (L.valueText (.number n))
  | .string s => .text s
  | v => .text (L.valueText v)

def sqlToJson : SqlValue → Value
  | .null => .null
  | .integer i => .int i
  | .real f => .number (.float f)
  | .text s => .string s

/-- What a column keeps of a value: text columns keep text, the others numbers, also of a text that looks
like one. -/
def ColumnType.keep (L : Formats) : ColumnType → SqlValue → SqlValue
  | .text, .integer n => .text (toString n)
  | .text, .real x => .text (L.valueText (.number (.float x)))
  | .text, v => v
  | .real, .integer n => .real n
  | .real, .text s =>
      match L.numberOfText s with
      | some (.int n) => .real n
      | some (.float x) => .real x
      | none => .text s
  | .real, v => v
  | _, .text s =>
      match L.numberOfText s with
      | some (.int n) => .integer n
      | some (.float x) => .real x
      | none => .text s
  | _, .real x => if x.den = 1 ∧ InI64 x.num then .integer x.num else .real x
  | _, v => v

abbrev Table := List (OrdMap String SqlValue)

/-- The stored form of a row; columns that it does not have are null. -/
def storedRow (L : Formats) (row : OrdMap String Value) : OrdMap String SqlValue :=
  OrdMap.empty.insertAll (schema.map fun e => (e.1,
    match row.get? e.1 with
    | some v => e.2.keep L (jsonToSql L v)
    | none => .null))

/-- Two rows have the same primary key; null is no key. -/
def sameKey (r s : OrdMap String SqlValue) : Bool :=
  match r.get? "id", s.get? "id" with
  | some .null, _ => false
  | some k, some k' => decide (k = k')
  | _, _ => false

/-- A row takes the place of those with its key. -/
def upsert (L : Formats) (db : Table) (row : OrdMap String Value) : Table :=
  db.filter (fun r => !sameKey r (storedRow L row)) ++ [storedRow L row]

/-- A row as it comes back. -/
def loadRow (r : OrdMap String SqlValue) : OrdMap String Value :=
  OrdMap.empty.insertAll (r.entries.map fun e => (e.1, sqlToJson e.2))

def queryAll (db : Table) : List (OrdMap String Value) := db.map loadRow

/-! ## The life of an order -/

inductive LifeCall
  | call (c : OrderCall)
  | execute (brokerAttrs attribsToCopy : Option (List String)) (kwargs : Fields) (answer : Option String)

inductive LifeReply
  | replied (r : OrderReply)
  | executed (orderId : Option String)
  | panicked (p : Panic)

def Order.live (L : Formats) (o : Order) : LifeCall → LifeReply × Order
  | .call c =>
      let (r, o) := o.step L c
      (.replied r, o)
  | .execute brokerAttrs attribsToCopy kwargs answer =>
      match o.execute L brokerAttrs attribsToCopy kwargs answer with
      | .ok (orderId, _, o) => (.executed orderId, o)
      | .error p => (.panicked p, o)

def lifeMachine (L : Formats) : Machine Order LifeCall LifeReply := ⟨Order.live L⟩

end Omsrs.Basket
