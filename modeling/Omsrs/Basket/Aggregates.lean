import Omsrs.Basket.Compound
import Omsrs.Lib.Tally

/-!
# What baskets and strategies add up to

Positions, quantities, average prices, net value and mark to market of the orders of a basket, written
once for both kinds of basket, and of the baskets of a strategy.
-/

namespace Omsrs.Basket
open Omsrs.Lib

/-! ## Orders -/

def addPosition (out : OrdMap String Int) (o : Order) : Except Panic (OrdMap String Int) := do
  let sign : Int := if eqIgnoreAsciiCase o.side "sell" then -1 else 1
  let signed ← checkedI64 (o.filledQuantity * sign)
  let n ← checkedI64 (out.read o.symbol + signed)
  return out.insert o.symbol n

/-- What is bought and sold with one more order. -/
def addQuantity (buy sell : OrdMap String Int) (o : Order) :
    Except Panic (OrdMap String Int × OrdMap String Int) := do
  let q ← absI64 o.filledQuantity
  if q = 0 then return (buy, sell)
  if asciiLower o.side = "buy" then
    let n ← checkedI64 (buy.read o.symbol + q)
    return (buy.insert o.symbol n, sell)
  if asciiLower o.side = "sell" then
    let n ← checkedI64 (sell.read o.symbol + q)
    return (buy, sell.insert o.symbol n)
  return (buy, sell)

/-- What is paid or received, and for how much, with one more order. -/
def addTrade (sideFilter : String) (acc : OrdMap String ℚ × OrdMap String ℚ) (o : Order) :
    OrdMap String ℚ × OrdMap String ℚ :=
  if asciiLower o.side ≠ sideFilter ∨ o.filledQuantity = 0 then acc
  else (acc.1.addAt o.symbol (o.averagePrice * o.filledQuantity),
    acc.2.addAt o.symbol (o.filledQuantity : ℚ))

/-- The price at which a quantity that is positive changed hands. -/
def averageOf (quantity : OrdMap String ℚ) (symbol : String) (v : ℚ) : Option ℚ :=
  match quantity.get? symbol with
  | some q => if 0 < q then some (v / q) else none
  | none => none

/-- A position at its last price, where there is one. -/
def addMark (L : Formats) (ltp c : OrdMap String ℚ) (symbol : String) (qty : Int) : OrdMap String ℚ :=
  match (ltp.get? symbol).bind L.decimalOfFloat with
  | some d => c.addAt symbol (qty * d)
  | none => c

section

variable (orders : List Order)

def positions : Except Panic (OrdMap String Int) := orders.foldlM addPosition .empty

/-- The quantities bought and sold. -/
def totalQuantity : Except Panic (OrdMap String Int × OrdMap String Int) :=
  orders.foldlM (fun (buy, sell) o => addQuantity buy sell o) (.empty, .empty)

def averagePrice (sideFilter : String) : OrdMap String ℚ :=
  let (value, quantity) := orders.foldl (addTrade sideFilter) (.empty, .empty)
  OrdMap.empty.insertAll
    (value.entries.filterMap fun e => (averageOf quantity e.1 e.2).map (Prod.mk e.1))

def netValue : OrdMap String ℚ :=
  orders.foldl (fun c o =>
    if 0 < o.filledQuantity then
      let sign : ℚ := if eqIgnoreAsciiCase o.side "sell" then -1 else 1
      c.addAt o.symbol (o.filledQuantity * o.averagePrice * sign)
    else c) .empty

/-- The net value turned round, and the positions at the last prices. -/
def mtm (L : Formats) (ltp : OrdMap String ℚ) : Except Panic (OrdMap String ℚ) := do
  let c := (netValue orders).entries.foldl (fun c e => c.insert e.1 (c.read e.1 - e.2)) .empty
  let held ← positions orders
  return held.entries.foldl (fun c e => addMark L ltp c e.1 e.2) c

def totalMtm (L : Formats) (ltp : OrdMap String ℚ) : Except Panic ℚ :=
  (mtm orders L ltp).map fun c => c.values.sum

end

/-! ## Baskets -/

/-- All that a basket adds up to. -/
structure Book where
  positions : OrdMap String Int
  buyQuantity : OrdMap String Int
  sellQuantity : OrdMap String Int
  averageBuyPrice : OrdMap String ℚ
  averageSellPrice : OrdMap String ℚ
  netValue : OrdMap String ℚ
  mtm : OrdMap String ℚ
  totalMtm : ℚ

namespace CompoundOrder

variable (b : CompoundOrder)

def positions : Except Panic (OrdMap String Int) := Basket.positions b.orders
def buyQuantity : Except Panic (OrdMap String Int) := (totalQuantity b.orders).map (·.1)
def sellQuantity : Except Panic (OrdMap String Int) := (totalQuantity b.orders).map (·.2)
def averageBuyPrice : OrdMap String ℚ := averagePrice b.orders "buy"
def averageSellPrice : OrdMap String ℚ := averagePrice b.orders "sell"
def netValue : OrdMap String ℚ := Basket.netValue b.orders
def mtm (L : Formats) : Except Panic (OrdMap String ℚ) := Basket.mtm b.orders L b.ltp
def totalMtm (L : Formats) : Except Panic ℚ := Basket.totalMtm b.orders L b.ltp

def book (L : Formats) : Except Panic Book := do
  return {
    positions := ← b.positions
    buyQuantity := ← b.buyQuantity
    sellQuantity := ← b.sellQuantity
    averageBuyPrice := b.averageBuyPrice
    averageSellPrice := b.averageSellPrice
    netValue := b.netValue
    mtm := ← b.mtm L
    totalMtm := ← b.totalMtm L }

end CompoundOrder

/-- A basket whose broker is asynchronous. -/
structure AsyncCompoundOrder where
  id : String
  ltp : OrdMap String ℚ
  orders : List Order
  connection : Option Nat
  index : OrdMap Int Nat
  keys : OrdMap String Nat

namespace AsyncCompoundOrder

variable (b : AsyncCompoundOrder)

def positions : Except Panic (OrdMap String Int) := Basket.positions b.orders
def buyQuantity : Except Panic (OrdMap String Int) := (totalQuantity b.orders).map (·.1)
def sellQuantity : Except Panic (OrdMap String Int) := (totalQuantity b.orders).map (·.2)
def averageBuyPrice : OrdMap String ℚ := averagePrice b.orders "buy"
def averageSellPrice : OrdMap String ℚ := averagePrice b.orders "sell"
def netValue : OrdMap String ℚ := Basket.netValue b.orders
def mtm (L : Formats) : Except Panic (OrdMap String ℚ) := Basket.mtm b.orders L b.ltp
def totalMtm (L : Formats) : Except Panic ℚ := Basket.totalMtm b.orders L b.ltp

def book (L : Formats) : Except Panic Book := do
  return {
    positions := ← b.positions
    buyQuantity := ← b.buyQuantity
    sellQuantity := ← b.sellQuantity
    averageBuyPrice := b.averageBuyPrice
    averageSellPrice := b.averageSellPrice
    netValue := b.netValue
    mtm := ← b.mtm L
    totalMtm := ← b.totalMtm L }

end AsyncCompoundOrder

/-! ## Strategies -/

structure OrderStrategy where
  id : String
  ltp : OrdMap String ℚ
  orders : List CompoundOrder

namespace OrderStrategy

variable (s : OrderStrategy)

def positions : Except Panic (OrdMap String Int) :=
  s.orders.foldlM (fun out co => do
    let held ← co.positions
    held.entries.foldlM (fun out e => do
      let n ← checkedI64 (out.read e.1 + e.2)
      return out.insert e.1 n) out) .empty

def mtm (L : Formats) : Except Panic (OrdMap String ℚ) :=
  s.orders.foldlM (fun out co => do
    let c ← co.mtm L
    return c.entries.foldl (fun out e => out.addAt e.1 e.2) out) .empty

def totalMtm (L : Formats) : Except Panic ℚ := (s.mtm L).map fun c => c.values.sum

end OrderStrategy

end Omsrs.Basket
