import Omsrs.Execution.Inventory

/-!
# Transactions of one order and of row-less evidence

A transaction is prepared from a snapshot, carries what it expects to find and what it will leave
behind, and is refused when it is applied to anything else.
-/

namespace Omsrs.Execution
open Omsrs.Lib Omsrs.Lifecycle Omsrs.Observation

/-! ## The order part -/

/-- What a transaction leaves in its order. -/
structure OrderAfter where
  state : OrderState
  ctx : OrderCtx
  seq : Nat
deriving DecidableEq

def OrderRow.advance (row : OrderRow) : Option OrderAfter → OrderRow
  | some a => { row with cursor := ⟨a.seq⟩, state := a.state, ctx := a.ctx }
  | none => row

/-- The checks of a target against the row the transaction was prepared from. -/
def checkTarget (prepared target : OrderRow) : Except ApplyMismatch Unit :=
  if target.ledger ≠ prepared.ledger then .error .ledgerIdentity
  else if target.cursor.seq ≠ prepared.cursor.seq then
    .error (.orderCursor prepared.cursor.seq target.cursor.seq)
  else if target.state ≠ prepared.state ∨ target.ctx ≠ prepared.ctx then .error .orderStateOrCtx
  else .ok ()

/-- `prepared` is what the transaction expects its target to be; `after` is there when the
transaction advances the cursor. -/
structure OrderTransaction where
  journal : Option Record
  effects : List Effect
  rejected : Option RejectReason
  prepared : OrderRow
  after : Option OrderAfter
deriving DecidableEq

def OrderTransaction.apply (t : OrderTransaction) (target : OrderRow) :
    Except ApplyMismatch OrderRow := do
  checkTarget t.prepared target
  .ok (target.advance t.after)

/-! ## Events of an order without fills -/

def countEventFills (event : OrderEvent) : Nat := event.fills.length

def eventHasIdentifiedFills (event : OrderEvent) : Bool :=
  decide (0 < countEventFills event) &&
    match event with
    | .fill _ | .immediateFillBackfillResult _ | .unknownBackfillResult .. | .reconcileResult .. => true
    | _ => false

/-- Whether a transition leaves anything to record. -/
def orderChanged (order : OrderRow) (t : TransitionOutcome) (stateAfter : OrderState)
    (ctxAfter : OrderCtx) : Bool :=
  decide (stateAfter ≠ order.state) || decide (ctxAfter ≠ order.ctx) ||
    !(coreRecords t.effects).isEmpty || !(nonJournal t.effects).isEmpty || !t.effects.isEmpty

def orderRecord (order : OrderRow) (event : OrderEvent) (t : TransitionOutcome) (seq : Nat)
    (stateAfter : OrderState) (ctxAfter : OrderCtx) : OrderTxnRecord where
  ledger := order.ledger
  clientOrderId := order.ctx.clientOrderId
  seq := seq
  event := eventName event
  outcome := outcomeFromTransition t
  coreRecords := coreRecords t.effects
  stateAfter := stateAfter
  ctxAfter := ctxAfter

def prepareOrderEvent (order : OrderRow) (event : OrderEvent) :
    Except PrepareError OrderTransaction :=
  if order.ctx.market ≠ order.ledger.market then
    .error (.orderRefInconsistent order.ledger.market order.ctx.market)
  else if eventHasIdentifiedFills event then
    .error (.fillsMustUseExecutionApi (eventName event) (countEventFills event))
  else
    let (transition, scratchCtx) := applyEvent order.state order.ctx event
    match transition with
    | .reject reason => .ok ⟨none, [], some reason, order, none⟩
    | _ =>
        let stateAfter := stateAfterTransition transition order.state
        if !orderChanged order transition stateAfter scratchCtx then
          .ok ⟨none, [], none, order, none⟩
        else do
          let seq ← order.cursor.next
          .ok
            { journal := some (.orderTxn
                (orderRecord order event transition seq stateAfter scratchCtx))
              effects := nonJournal transition.effects
              rejected := none
              prepared := order
              after := some ⟨stateAfter, scratchCtx, seq⟩ }

/-! ## Execution transactions -/

/-- `preparedOrder` is there when the transaction was prepared for a row. -/
structure ExecutionTransaction where
  outcomes : List ExecutionOutcome
  journal : Option Record
  effects : List Effect
  preparedInventoryLedger : LedgerId
  expectedGeneration : Nat
  preparedOrder : Option OrderRow
  after : Option OrderAfter
  plannedEntries : OrdMap FillId InventoryEntry
  plannedConflicts : OrdMap FillId ConflictFact
deriving DecidableEq

def ExecutionTransaction.apply (t : ExecutionTransaction) (target : Option OrderRow)
    (inv : MarketInventory) : Except ApplyMismatch (Option OrderRow × MarketInventory) :=
  if t.preparedOrder.isSome ≠ target.isSome then
    .error (.orderTarget t.preparedOrder.isSome target.isSome)
  else if inv.ledger ≠ t.preparedInventoryLedger then .error .ledgerIdentity
  else if inv.generation ≠ t.expectedGeneration then
    .error (.inventoryGeneration t.expectedGeneration inv.generation)
  else
    let installed := inv.install t.plannedEntries t.plannedConflicts
    match t.preparedOrder, target with
    | some prepared, some row => do
        checkTarget prepared row
        .ok (some (row.advance t.after), installed)
    | _, _ => .ok (none, installed)

/-- The journal record of a transaction that changes the order or the inventory. -/
def executionJournal (inv : MarketInventory) (outcomes : List ExecutionOutcome)
    (order : Option OrderTxnRecord) : Option Record :=
  if order.isSome || outcomes.any (·.inventory.needsJournal) then
    some (.executionTxn ⟨inv.ledger, inv.generation, outcomes, order⟩)
  else none

/-! ## Evidence without a row -/

/-- Evidence that disagrees with the entry of its execution. -/
def coreDisagreesEntry (e : ExecutionEvidence) (p : InventoryEntry) : Bool :=
  coreDisagreeQtyPriceVenue e.qty e.priceCents e.venueOrderId p.qty p.priceCents p.venueOrderId ||
    decide (e.side ≠ p.side)

/-- What one evidence does, with the entry and the conflict it plans. -/
def adjudicateNorow (inv : MarketInventory) (e : ExecutionEvidence) :
    ExecutionOutcome × List (FillId × InventoryEntry) × List (FillId × ConflictFact) :=
  let id := e.executionId
  if e.qty = 0 then (⟨e, .ignored .zeroQty, .unchanged, none, none⟩, [], [])
  else
    match inv.get id with
    | some p =>
        if coreDisagreesEntry e p then
          let fact : ConflictFact := ⟨id, .core, .entry p, e⟩
          (⟨e, .refused (.conflictingExecution .core), .conflict .core, some p, some fact⟩, [],
            [(id, fact)])
        else if feeConflict e.feeCents p.feeCents then
          let fact : ConflictFact := ⟨id, .fee, .entry p, e⟩
          (⟨e, .refused .feeConflict, .conflict .fee, some p, some fact⟩, [], [(id, fact)])
        else
          let entry :=
            { p with
              venueOrderId := fillIn p.venueOrderId e.venueOrderId
              feeCents := fillIn p.feeCents e.feeCents
              claimedClientOrderId := fillIn p.claimedClientOrderId e.claimedClientOrderId }
          let upgraded :=
            fillsIn p.venueOrderId e.venueOrderId || fillsIn p.feeCents e.feeCents ||
              fillsIn p.claimedClientOrderId e.claimedClientOrderId
          if upgraded then (⟨e, .noRow, .upgraded, some entry, none⟩, [(id, entry)], [])
          else (⟨e, .noRow, .duplicate, some entry, none⟩, [], [])
    | none =>
        let entry : InventoryEntry :=
          { side := e.side
            qty := e.qty
            priceCents := e.priceCents
            firstSeenTsNs := e.tsNs
            venueOrderId := e.venueOrderId
            claimedClientOrderId := e.claimedClientOrderId
            owner := none
            feeCents := e.feeCents
            source := e.source
            provenance := .noRow }
        (⟨e, .noRow, .ingested .noRow, some entry, none⟩, [(id, entry)], [])

def prepareExecutionNorow (inv : MarketInventory) (e : ExecutionEvidence) :
    Except PrepareError ExecutionTransaction :=
  if evidenceLedger e ≠ inv.ledger then .error (.foreignLedger inv.ledger (evidenceLedger e))
  else
    let (outcome, entries, conflicts) := adjudicateNorow inv e
    .ok
      { outcomes := [outcome]
        journal := executionJournal inv [outcome] none
        effects := []
        preparedInventoryLedger := inv.ledger
        expectedGeneration := inv.generation
        preparedOrder := none
        after := none
        plannedEntries := OrdMap.empty.insertAll entries
        plannedConflicts := OrdMap.empty.insertAll conflicts }

end Omsrs.Execution
