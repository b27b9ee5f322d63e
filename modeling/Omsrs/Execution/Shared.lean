import Omsrs.Execution.Market

/-!
# Orders that share a market

Any number of orders on one ledger, with their transactions in flight. A transaction may be prepared
for any of them and applied to any of them at any later time; what is taken is kept.
-/

namespace Omsrs.Execution
open Omsrs.Lib Omsrs.Lifecycle Omsrs.Observation

/-- The market and its orders. `events` are the transactions of single orders in flight; those of
executions are in the market. -/
structure SharedMarket where
  market : Market
  rows : List OrderRow
  events : List OrderTransaction
deriving DecidableEq

/-- An order is named by its place; an execution may come without one. -/
inductive SharedAction
  | prepareEvent (i : Nat) (event : OrderEvent)
  | applyEvent (k i : Nat)
  | prepare (order : Option Nat) (e : ExecutionEvidence)
  | prepareBatch (i : Nat) (event : OrderEvent) (es : List ExecutionEvidence)
  | applyExecution (k : Nat) (order : Option Nat)
deriving DecidableEq

inductive SharedReply
  | missing
  | prepared
  | notPrepared (error : PrepareError)
  | applied
  | refused (error : ApplyMismatch)
  | market (reply : MarketReply)
deriving DecidableEq

namespace SharedMarket

def new (ledger : LedgerId) (rows : List OrderRow) : SharedMarket := ⟨.new ledger, rows, []⟩

/-- The row an execution comes with, if any; nothing where the order is missing. -/
def target (m : SharedMarket) : Option Nat → Option (Option OrderRow)
  | none => some none
  | some i => m.rows[i]?.map some

def prepareEvent (m : SharedMarket) (i : Nat) (event : OrderEvent) : SharedReply × SharedMarket :=
  match m.rows[i]? with
  | none => (.missing, m)
  | some row =>
      match prepareOrderEvent row event with
      | .ok t => (.prepared, { m with events := m.events ++ [t] })
      | .error err => (.notPrepared err, m)

def applyEvent (m : SharedMarket) (k i : Nat) : SharedReply × SharedMarket :=
  match m.events[k]?, m.rows[i]? with
  | some t, some row =>
      let events := m.events.eraseIdx k
      match t.apply row with
      | .ok row => (.applied, { m with rows := m.rows.set i row, events := events })
      | .error err => (.refused err, { m with events := events })
  | _, _ => (.missing, m)

/-- A step of the market alone. -/
def inMarket (m : SharedMarket) (a : MarketAction) : SharedReply × SharedMarket :=
  let (reply, market) := m.market.step a
  (.market reply, { m with market := market })

/-- What the market hands back for the order's row is kept. -/
def keepRow (m : SharedMarket) (order : Option Nat) : MarketReply → List OrderRow
  | .applied (some row) =>
      match order with
      | some i => m.rows.set i row
      | none => m.rows
  | _ => m.rows

def applyExecution (m : SharedMarket) (k : Nat) (order : Option Nat) : SharedReply × SharedMarket :=
  match m.target order with
  | none => (.missing, m)
  | some row =>
      let (reply, market) := m.market.step (.apply k row)
      (.market reply, { m with market := market, rows := m.keepRow order reply })

def step (m : SharedMarket) : SharedAction → SharedReply × SharedMarket
  | .prepareEvent i event => m.prepareEvent i event
  | .applyEvent k i => m.applyEvent k i
  | .prepare order e =>
      match m.target order with
      | none => (.missing, m)
      | some row => m.inMarket (.prepare row e)
  | .prepareBatch i event es =>
      match m.rows[i]? with
      | none => (.missing, m)
      | some row => m.inMarket (.prepareBatch row event es)
  | .applyExecution k order => m.applyExecution k order

end SharedMarket

def sharedMarket : Machine SharedMarket SharedAction SharedReply := ⟨SharedMarket.step⟩

end Omsrs.Execution
