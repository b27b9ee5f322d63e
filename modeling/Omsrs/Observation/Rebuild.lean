import Omsrs.Observation.Shell

/-!
# Rebuilding an order

An order is read back from the records of all three kinds of transactions: its own events, its executions
and the observations of its wire. Each carries what the order was after it, under the order's sequence
number.
-/

namespace Omsrs.Observation
open Omsrs.Lib Omsrs.Lifecycle Omsrs.Execution

/-- What an order was after one of its transactions. -/
abbrev Snapshot := OrderState × OrderCtx

abbrev Snapshots := OrdMap Nat Snapshot

/-- Take in a snapshot. Another one in its place is an error. -/
def insertSnapshot (cid : ClientOrderId) (snaps : Snapshots) (x : Nat × Snapshot) :
    Except RebuildError Snapshots :=
  match snaps.get? x.1 with
  | some prev => if prev ≠ x.2 then .error (.divergent cid x.1) else .ok snaps
  | none => .ok (snaps.insert x.1 x.2)

/-- The snapshot of an order's own record. -/
def snapshotOf (ledger : LedgerId) (cid : ClientOrderId) (o : OrderTxnRecord) : List (Nat × Snapshot) :=
  if o.ledger = ledger ∧ o.clientOrderId = cid then [(o.seq, o.stateAfter, o.ctxAfter)] else []

/-- The snapshots of an order in a record. -/
def snapshots (ledger : LedgerId) (cid : ClientOrderId) : Record → List (Nat × Snapshot)
  | .orderTxn o => snapshotOf ledger cid o
  | .executionTxn e =>
      match e.order with
      | some o => snapshotOf ledger cid o
      | none => []
  | .observationTxn t =>
      if t.ledger = ledger then
        (t.membersAfter.filter fun m => decide (m.clientOrderId = cid)).map fun m =>
          (m.seq, m.stateAfter, m.ctxAfter)
      else []
  | _ => []

/-- The last of the snapshots, which are to be numbered from `expected` on. -/
def lastSnapshot (cid : ClientOrderId) (expected : Nat) (last : Option Snapshot) :
    List (Nat × Snapshot) → Except RebuildError (Option (OrderState × OrderCtx × OrderCursor))
  | [] => .ok (last.map fun x => (x.1, x.2, ⟨expected - 1⟩))
  | (seq, x) :: rest =>
      if seq ≠ expected then .error (.seqGap cid expected seq)
      else lastSnapshot cid (expected + 1) (some x) rest

def rebuildOrderWithObservations (ledger : LedgerId) (cid : ClientOrderId) (records : List Record) :
    Except RebuildError (Option (OrderState × OrderCtx × OrderCursor)) := do
  let snaps ← records.foldlM
    (fun snaps rec => (snapshots ledger cid rec).foldlM (insertSnapshot cid) snaps) .empty
  if snaps.isEmpty then .ok none else lastSnapshot cid 1 none snaps.entries

end Omsrs.Observation
