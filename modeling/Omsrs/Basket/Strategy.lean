import Omsrs.Basket.Session

/-!
# A strategy and its baskets

The calls on a strategy, in any order: those that fan out over its baskets and those on one basket of it.
A strategy with asynchronous baskets makes the same calls. What `run` does with a basket is up to the
basket: it is a program of calls, in which all that the world says may play a part.
-/

namespace Omsrs.Basket
open Omsrs.Lib

variable {W : Type}

/-- The calls that a basket makes of itself, given what the world says and the last prices. -/
abbrev RunFn (W : Type) := W → Session → OrdMap String ℚ → List SessionCall

/-- A basket of a strategy. -/
structure Child (W : Type) where
  session : Session
  runFn : Option (RunFn W)

structure Strategy (W : Type) where
  ltp : OrdMap String ℚ
  hasBroker : Bool
  orders : List (Child W)

inductive StrategyCall (W : Type)
  | withBroker
  | withOrders (orders : List (Child W))
  | add (compound : Child W)
  | updateLtp (lastPrice : OrdMap String ℚ)
  | updateOrders (clock : Nat → Nat → Int) (data : OrdMap String Fields)
  | run (ltp : OrdMap String ℚ) (world : Nat → W)
  | save
  | basket (position : Nat) (c : SessionCall)

/-- What the calls on the baskets returned, which basket each, and what the strategy makes of it. -/
structure StrategyReply where
  replies : List (Nat × SessionReply)
  ltp : OrdMap String ℚ
  saved : Nat

def StrategyReply.plain (replies : List (Nat × SessionReply)) : StrategyReply := ⟨replies, .empty, 0⟩

def SessionReply.panicked (r : SessionReply) : Bool :=
  match r.value with
  | .error _ | .ok (.panicked _) => true
  | .ok _ => false

/-- The calls of a program, up to a panic. -/
def Session.work (L : Formats) : Session → List SessionCall → List SessionReply × Session
  | s, [] => ([], s)
  | s, c :: cs =>
      let (r, s) := s.step L c
      if r.panicked then ([r], s)
      else
        let (rs, s) := work L s cs
        (r :: rs, s)

/-- A program for each basket in turn, up to a panic. -/
def fanOut (L : Formats) (does : Nat → Child W → List SessionCall) :
    Nat → List (Child W) → List (Nat × SessionReply) × List (Child W)
  | _, [] => ([], [])
  | k, co :: rest =>
      let (rs, session) := co.session.work L (does k co)
      if rs.any (·.panicked) then (rs.map (Prod.mk k), { co with session := session } :: rest)
      else
        let (more, rest) := fanOut L does (k + 1) rest
        (rs.map (Prod.mk k) ++ more, { co with session := session } :: rest)

namespace Child

/-- The clock of the strategy goes to the basket and to its orders. -/
def setClock (co : Child W) : Child W :=
  { co with session := { co.session with basket := co.session.basket.setClock } }

def runCalls (ltp : OrdMap String ℚ) (world : W) (co : Child W) : List SessionCall :=
  match co.runFn with
  | none => []
  | some f => f world co.session ltp

end Child

namespace Strategy

/-- A basket as it comes in: on the strategy's clock, and with the strategy's broker if it has none. -/
def taking (s : Strategy W) (compound : Child W) : Child W :=
  let compound := compound.setClock
  if s.hasBroker = true ∧ compound.session.hasBroker = false then
    { compound with session := { compound.session with hasBroker := true } }
  else compound

def fan (L : Formats) (s : Strategy W) (does : Nat → Child W → List SessionCall) :
    List (Nat × SessionReply) × Strategy W :=
  let (replies, orders) := fanOut L does 0 s.orders
  (replies, { s with orders := orders })

def step (L : Formats) (s : Strategy W) : StrategyCall W → StrategyReply × Strategy W
  | .withBroker => (.plain [], { s with hasBroker := true })
  | .withOrders orders => (.plain [], { s with orders := orders.map Child.setClock })
  | .add compound => (.plain [], { s with orders := s.orders ++ [s.taking compound] })
  | .updateLtp lastPrice =>
      let ltp := s.ltp.insertAll lastPrice.entries
      let (replies, s) := fan L { s with ltp := ltp } fun _ _ => [.updateLtp lastPrice]
      (⟨replies, ltp, 0⟩, s)
  | .updateOrders clock data =>
      let (replies, s) := s.fan L fun k _ => [.updateOrders (clock k) data]
      (.plain replies, s)
  | .run ltp world =>
      let (replies, s) := s.fan L fun k co => co.runCalls ltp (world k)
      (.plain replies, s)
  | .save =>
      let (replies, s) := s.fan L fun _ _ => [.save]
      (⟨replies, .empty, (replies.map (·.2.saved)).sum⟩, s)
  | .basket k c =>
      match s.orders[k]? with
      | none => (.plain [], s)
      | some co =>
          let (r, session) := co.session.step L c
          (.plain [(k, r)], { s with orders := s.orders.set k { co with session := session } })

end Strategy

def strategyMachine (L : Formats) : Machine (Strategy W) (StrategyCall W) StrategyReply :=
  ⟨Strategy.step L⟩

end Omsrs.Basket
