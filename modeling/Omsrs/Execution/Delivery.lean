import Omsrs.Execution.Batch

/-!
# Evidence delivered one by one

One order and one inventory. Each evidence comes alone, for the order's row or without a row, and its
transaction is applied at once.
-/

namespace Omsrs.Execution
open Omsrs.Lib Omsrs.Lifecycle Omsrs.Observation

/-- An order and the inventory its executions go to. -/
structure Holding where
  row : OrderRow
  inventory : MarketInventory
deriving DecidableEq

structure Delivery where
  forRow : Bool
  evidence : ExecutionEvidence
deriving DecidableEq

inductive DeliveryReply
  | taken
  | notPrepared (error : PrepareError)
  | refused (error : ApplyMismatch)
deriving DecidableEq

def Delivery.target (d : Delivery) (row : OrderRow) : Option OrderRow :=
  if d.forRow then some row else none

/-- Prepare and apply; what fails leaves everything as it was. -/
def deliver (s : Holding) (d : Delivery) : DeliveryReply × Holding :=
  match prepareExecution (d.target s.row) s.inventory d.evidence with
  | .error err => (.notPrepared err, s)
  | .ok t =>
      match t.apply (d.target s.row) s.inventory with
      | .error err => (.refused err, s)
      | .ok (row, inventory) => (.taken, ⟨row.getD s.row, inventory⟩)

def delivery : Machine Holding Delivery DeliveryReply := ⟨deliver⟩

end Omsrs.Execution
