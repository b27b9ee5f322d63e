import Omsrs.Execution.Batch

/-!
# One market

The inventory of a ledger, the transactions that are prepared and not yet applied, and the journal. A
transaction may be prepared from any row and applied at any later time; what it is applied to decides
whether it is taken.
-/

namespace Omsrs.Execution
open Omsrs.Lib Omsrs.Lifecycle Omsrs.Observation

/-! ## Applying in place -/

/-- What a transaction is applied to, as it is while it is being applied. -/
structure ApplyTarget where
  order : Option OrderRow
  inventory : MarketInventory
deriving DecidableEq

/-- The row is written when all of its checks are passed, and before the inventory. -/
def ExecutionTransaction.applyInPlace (t : ExecutionTransaction) :
    ExceptT ApplyMismatch (StateM ApplyTarget) (List ExecutionOutcome) := do
  let s ← get
  if t.preparedOrder.isSome ≠ s.order.isSome then
    throw (.orderTarget t.preparedOrder.isSome s.order.isSome)
  if s.inventory.ledger ≠ t.preparedInventoryLedger then throw .ledgerIdentity
  if s.inventory.generation ≠ t.expectedGeneration then
    throw (.inventoryGeneration t.expectedGeneration s.inventory.generation)
  match t.preparedOrder, s.order with
  | some prepared, some row =>
      match checkTarget prepared row with
      | .error err => throw err
      | .ok () => modify fun s => { s with order := some (row.advance t.after) }
  | _, _ => pure ()
  modify fun s => { s with inventory := s.inventory.install t.plannedEntries t.plannedConflicts }
  return t.outcomes

/-! ## The market and its steps -/

structure Market where
  inventory : MarketInventory
  pending : List ExecutionTransaction
  journal : List Record
deriving DecidableEq

inductive MarketAction
  | prepare (order : Option OrderRow) (e : ExecutionEvidence)
  | prepareBatch (order : OrderRow) (event : OrderEvent) (es : List ExecutionEvidence)
  | apply (i : Nat) (target : Option OrderRow)
  /-- A record of something else is journaled. -/
  | append (r : Record)
deriving DecidableEq

inductive MarketReply
  | prepared
  | notPrepared (error : PrepareError)
  | applied (target : Option OrderRow)
  | refused (error : ApplyMismatch)
  | missing
  | appended
deriving DecidableEq

namespace Market

def new (ledger : LedgerId) : Market := ⟨.new ledger, [], []⟩

def keep (m : Market) : Except PrepareError ExecutionTransaction → MarketReply × Market
  | .ok t => (.prepared, { m with pending := m.pending ++ [t] })
  | .error err => (.notPrepared err, m)

/-- Applying consumes the transaction, taken or not; the journal has the record of a taken one. -/
def applyPending (m : Market) (i : Nat) (target : Option OrderRow) : MarketReply × Market :=
  match m.pending[i]? with
  | none => (.missing, m)
  | some t =>
      let pending := m.pending.eraseIdx i
      match t.apply target m.inventory with
      | .error err => (.refused err, { m with pending := pending })
      | .ok (row, inventory) => (.applied row, ⟨inventory, pending, m.journal ++ t.journal.toList⟩)

def step (m : Market) : MarketAction → MarketReply × Market
  | .prepare order e => m.keep (prepareExecution order m.inventory e)
  | .prepareBatch order event es => m.keep (prepareExecutionBatch order m.inventory event es)
  | .apply i target => m.applyPending i target
  | .append r => (.appended, { m with journal := m.journal ++ [r] })

end Market

def market : Machine Market MarketAction MarketReply := ⟨Market.step⟩

end Omsrs.Execution
