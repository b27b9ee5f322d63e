import Omsrs.Basket.Value

/-!
# Closing positions

What a broker places to close the positions that it is given, or that it has. The synchronous and the
asynchronous broker do the same row by row.
-/

namespace Omsrs.Basket
open Omsrs.Lib

def coerceQuantity : Option Value → Option Int
  | none | some .null => none
  | some (.number n) => (Value.number n).asI64.or ((Value.number n).asF64.map i64OfFloat)
  | some (.string s) => i64OfText s
  | some _ => none

def staticKeys : List String := ["quantity", "side", "symbol", "order_type"]

/-- The fields of a row that are copied. -/
def copiedKeys (position : Fields) (keysToCopy : Option (List String)) : List (String × Value) :=
  (keysToCopy.getD []).filterMap fun key =>
    if staticKeys.contains key then none
    else match position.get? key with
      | some v => if v.isNull then none else some (key, v)
      | none => none

/-- What is placed for a row, if anything. -/
def closeRow (keysToCopy : Option (List String)) (keysToAdd : Option Fields)
    (symbolTransformer : Option (String → String)) (position : Fields) :
    Except Panic (Option (OrdMap String Value)) :=
  match coerceQuantity (position.get? "quantity") with
  | none => .ok none
  | some quantity =>
      if quantity = 0 then .ok none
      else match (position.get? "symbol").bind (·.asStr) with
        | none => .ok none
        | some symbolRaw => do
            let symbol := match symbolTransformer with
              | some f => f symbolRaw
              | none => symbolRaw
            let side := if 0 < quantity then "sell" else "buy"
            let magnitude ← absI64 quantity
            let orderArgs := OrdMap.empty.insertAll [("quantity", Value.int magnitude),
              ("side", .string side), ("symbol", .string symbol), ("order_type", .string "MARKET")]
            let orderArgs := orderArgs.insertAll (copiedKeys position keysToCopy)
            let finalArgs := OrdMap.empty.insertAll ((keysToAdd.map Fields.entries).getD [])
            return some (finalArgs.insertAll orderArgs.entries)

/-- The orders placed row by row, and what stopped it. -/
def closeRows (keysToCopy : Option (List String)) (keysToAdd : Option Fields)
    (symbolTransformer : Option (String → String)) :
    List Fields → List (OrdMap String Value) × Option Panic
  | [] => ([], none)
  | position :: rest =>
      match closeRow keysToCopy keysToAdd symbolTransformer position with
      | .error p => ([], some p)
      | .ok placed =>
          let (more, p) := closeRows keysToCopy keysToAdd symbolTransformer rest
          (placed.toList ++ more, p)

/-- A broker, by the rows it tells of its positions. -/
structure Broker where
  positions : List Fields

/-- An asynchronous broker, by the rows it tells of its positions. -/
structure AsyncBroker where
  positions : List Fields

def Broker.closeAllPositions (b : Broker) (positions : Option (List Fields))
    (keysToCopy : Option (List String)) (keysToAdd : Option Fields)
    (symbolTransformer : Option (String → String)) : List (OrdMap String Value) × Option Panic :=
  closeRows keysToCopy keysToAdd symbolTransformer (positions.getD b.positions)

def AsyncBroker.closeAllPositions (b : AsyncBroker) (positions : Option (List Fields))
    (keysToCopy : Option (List String)) (keysToAdd : Option Fields)
    (symbolTransformer : Option (String → String)) : List (OrdMap String Value) × Option Panic :=
  closeRows keysToCopy keysToAdd symbolTransformer
    (match positions with
      | some rows => rows
      | none => b.positions)

end Omsrs.Basket
