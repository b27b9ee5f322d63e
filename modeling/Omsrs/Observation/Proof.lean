import Omsrs.Observation.Registry

/-!
# Order-state evidence

The venue's user-order frames, the lineage of an amend, and the two proofs of a remaining quantity that
need no fill: a resting frame of the current order and a completed page of its row. What is prepared
here is journaled first and folded, or applied, afterwards.
-/

namespace Omsrs.Observation
open Omsrs.Lib Omsrs.Lifecycle Omsrs.Execution

inductive OrderStateProofError
  | missingWire
  | missingCurrent
  | wrongCurrent
  | pendingAmend
  | lineageMismatch
  | invalidTransition
  | staleOrConflictingVersion
  | fillMismatch
  | quantityMismatch
  | generationChanged
  | inventoryChanged
deriving DecidableEq, Repr

/-- Two frames describe one state of the order, over whichever subscription they came. -/
def sameUserOrderState (a b : UserOrderEvidence) : Bool :=
  decide (a.wire = b.wire) && decide (a.market = b.market) &&
    decide (a.exchangeIndex = b.exchangeIndex) && decide (a.subaccountNumber = b.subaccountNumber) &&
    decide (a.side = b.side) && decide (a.yesPriceE4 = b.yesPriceE4) &&
    decide (a.clientOrderId = b.clientOrderId) && decide (a.status = b.status) &&
    decide (a.filled = b.filled) && decide (a.remaining = b.remaining) &&
    decide (a.initial = b.initial) && decide (a.updatedTsMs = b.updatedTsMs)

/-- The generation after the one the amend was sent in. -/
def nextGeneration (lineage : AmendLineage) : Except OrderStateProofError Nat :=
  match checkedAdd u64Max lineage.preGeneration 1 with
  | some g => .ok g
  | none => .error .generationChanged

namespace WireState

/-- The client an amend in flight will make current. -/
def lineageTo (ws : WireState) (cid : ClientOrderId) : Bool :=
  match ws.amendLineage with
  | some l => decide (l.newCid = cid)
  | none => false

/-! ## Amend lineages -/

def checkLineage (ws : WireState) (lineage : AmendLineage) : Except OrderStateProofError Unit :=
  match lineage.phase with
  | .httpPending =>
      if ws.amendLineage.isSome ∨ ws.generation ≠ lineage.preGeneration then .error .pendingAmend
      else if ws.currentCid ≠ some lineage.oldCid ∨ lineage.oldCid = lineage.newCid then
        .error .wrongCurrent
      else .ok ()
  | .appliedNeedsObservation | .unknown | .restDue =>
      match ws.amendLineage with
      | none => .error .lineageMismatch
      | some prior =>
          if prior.oldCid ≠ lineage.oldCid ∨ prior.newCid ≠ lineage.newCid ∨
              prior.preGeneration ≠ lineage.preGeneration ∨
              prior.declaredRemaining ≠ lineage.declaredRemaining then
            .error .lineageMismatch
          else if lineage.phase = .appliedNeedsObservation then do
            let generation ← nextGeneration lineage
            if ws.generation ≠ generation ∨ ws.currentCid ≠ some lineage.newCid then
              .error .generationChanged
            else .ok ()
          else .ok ()

/-! ## User-order frames -/

/-- The frame names this wire, its market and the exchange index seen before. -/
def frameIdentified (ws : WireState) (ledger : LedgerId) (wire : VenueOrderId)
    (e : UserOrderEvidence) : Bool :=
  decide (e.wire = wire) && decide (e.market = ledger.market) &&
    (ws.observedExchangeIndex.all fun index => decide (index = e.exchangeIndex))

/-- The frame is of the current order or of the one an amend makes current. -/
def frameBelongs (ws : WireState) (e : UserOrderEvidence) : Bool :=
  decide (ws.currentCid = some e.clientOrderId) || ws.lineageTo e.clientOrderId

end WireState

def quantityValid (e : UserOrderEvidence) : Bool :=
  match e.status with
  | .resting | .unknown => decide (checkedSub e.initial e.filled = some e.remaining)
  | .canceled => decide (e.remaining = 0) && decide (e.filled ≤ e.initial)
  | .executed => decide (e.remaining = 0) && decide (e.filled = e.initial)

/-- The frame goes back behind the one before it, or contradicts it. -/
def staleFrame (e prev : UserOrderEvidence) : Bool :=
  decide (e.updatedTsMs < prev.updatedTsMs) || decide (e.filled < prev.filled) ||
    (decide (e.updatedTsMs = prev.updatedTsMs) && !sameUserOrderState e prev) ||
    (decide (prev.status ≠ .resting) && decide (e.status = .resting))

/-- The frame against the latest one of the wire: `ok false` where it says nothing new. A frame of
another client is not compared with it. -/
def WireState.checkFrame (ws : WireState) (e : UserOrderEvidence) :
    Except OrderStateProofError Bool :=
  match ws.latestUserOrder with
  | none => .ok true
  | some prev =>
      if prev.clientOrderId = e.clientOrderId then
        if staleFrame e prev then .error .staleOrConflictingVersion
        else .ok (!sameUserOrderState e prev)
      else if !ws.frameBelongs e then .error .wrongCurrent
      else .ok true

/-! ## Proofs of the remaining quantity -/

namespace WireState

/-- What a proof leaves: the remaining quantity is known of this generation and for this client. -/
def proved (ws : WireState) (cid : ClientOrderId) (remaining : Nat) : WireState :=
  { ws with
    last := some (.consistent true)
    remainingObservation := some ⟨remaining, ws.held, ws.generation⟩
    provedCurrentCid := some cid
    amendLineage := none }

/-- A resting frame proves the order where no amend is in flight, or the applied one is its own. -/
def checkRestingLineage (ws : WireState) (e : UserOrderEvidence) :
    Except OrderStateProofError Unit :=
  match ws.amendLineage with
  | some lineage =>
      if lineage.phase ≠ .appliedNeedsObservation ∨ e.clientOrderId ≠ lineage.newCid then
        .error .lineageMismatch
      else do
        let generation ← nextGeneration lineage
        if ws.generation ≠ generation then .error .lineageMismatch
        else if e.initial ≠ lineage.declaredRemaining then .error .quantityMismatch
        else .ok ()
  | none =>
      -- an own action that was not proved again must not regain a known quantity
      if ws.generation ≠ 0 ∧ ws.provedCurrentCid ≠ some e.clientOrderId then .error .lineageMismatch
      else .ok ()

/-- The executions the wire holds add up to the quantity the venue reports. -/
def checkFilled (ws : WireState) (inv : MarketInventory) (filled : Nat) :
    Except OrderStateProofError Unit :=
  match ws.checkedHeldQty inv with
  | some q => if filled = q then .ok () else .error .fillMismatch
  | none => .error .fillMismatch

/-- The frame that proves the remaining quantity. -/
def restingFrame (ws : WireState) (inv : MarketInventory) :
    Except OrderStateProofError UserOrderEvidence :=
  if ws.authorityHold then .error .invalidTransition
  else
    match ws.latestUserOrder with
    | none => .error .missingCurrent
    | some e =>
        if e.status ≠ .resting then .error .invalidTransition
        else if ws.currentCid ≠ some e.clientOrderId then .error .lineageMismatch
        else do
          ws.checkRestingLineage e
          ws.checkFilled inv e.filled
          .ok e

/-- The page is of the applied successor of an amend. -/
def checkRestLineage (ws : WireState) (cid : ClientOrderId) :
    Except OrderStateProofError AmendLineage :=
  match ws.amendLineage with
  | none => .error .lineageMismatch
  | some lineage =>
      if (lineage.phase ≠ .appliedNeedsObservation ∧ lineage.phase ≠ .restDue) ∨
          ws.currentCid ≠ some cid ∨ lineage.newCid ≠ cid then
        .error .lineageMismatch
      else do
        let generation ← nextGeneration lineage
        if ws.generation ≠ generation then .error .lineageMismatch else .ok lineage

def checkRestPage (ws : WireState) (inv : MarketInventory) (cid : ClientOrderId)
    (filled remaining initial : Nat) : Except OrderStateProofError Unit := do
  let lineage ← ws.checkRestLineage cid
  if initial ≠ lineage.declaredRemaining ∨ checkedAdd u64Max filled remaining ≠ some initial ∨
      ws.last ≠ some (.consistent false) then
    .error .quantityMismatch
  else ws.checkFilled inv filled

end WireState

namespace WireRegistry

/-- A lineage is a record to append; folding it changes the wire. -/
def prepareAmendLineage (r : WireRegistry) (ledger : LedgerId) (wire : VenueOrderId)
    (lineage : AmendLineage) : Except OrderStateProofError Record :=
  match r.get ledger wire with
  | none => .error .missingWire
  | some ws => do
      ws.checkLineage lineage
      .ok (.amendLineage ledger wire (some lineage))

/-- No record for a frame that says nothing new. -/
def prepareUserOrderReceived (r : WireRegistry) (ledger : LedgerId) (wire : VenueOrderId)
    (e : UserOrderEvidence) : Except OrderStateProofError (Option Record) :=
  match r.get ledger wire with
  | none => .error .missingWire
  | some ws =>
      if !ws.frameIdentified ledger wire e then .error .wrongCurrent
      else if !ws.frameBelongs e then .error .wrongCurrent
      else if !quantityValid e then .error .quantityMismatch
      else do
        let isNew ← ws.checkFrame e
        .ok (if isNew then some (.userOrderReceived ledger wire e) else none)

/-- A resting frame of the current order proves what remains of it. It is no execution. -/
def prepareOrderStateResting (r : WireRegistry) (ledger : LedgerId) (wire : VenueOrderId)
    (inv : MarketInventory) : Except OrderStateProofError OrderStateTxnRecord :=
  match r.get ledger wire with
  | none => .error .missingWire
  | some ws => do
      let e ← ws.restingFrame inv
      .ok
        { ledger := ledger
          wire := wire
          evidence := e
          inventoryGenerationBefore := inv.generation
          wireGenerationBefore := ws.generation
          wireAfter := ws.proved e.clientOrderId e.remaining }

def applyOrderStateResting (r : WireRegistry) (txn : OrderStateTxnRecord) (inv : MarketInventory) :
    Except OrderStateProofError WireRegistry :=
  if inv.generation ≠ txn.inventoryGenerationBefore then .error .inventoryChanged
  else do
    let fresh ← r.prepareOrderStateResting txn.ledger txn.wire inv
    if fresh ≠ txn then .error .generationChanged
    else .ok (r.set txn.ledger txn.wire txn.wireAfter)

/-- A completed page of the amended order proves what remains of it, and discharges the hold. -/
def prepareRestOrderProof (r : WireRegistry) (ledger : LedgerId) (wire : VenueOrderId)
    (cid : ClientOrderId) (filled remaining initial : Nat) (inv : MarketInventory) :
    Except OrderStateProofError RestOrderProofTxnRecord :=
  match r.get ledger wire with
  | none => .error .missingWire
  | some ws => do
      ws.checkRestPage inv cid filled remaining initial
      .ok
        { ledger := ledger
          wire := wire
          clientOrderId := cid
          filled := filled
          remaining := remaining
          initial := initial
          inventoryGenerationBefore := inv.generation
          wireGenerationBefore := ws.generation
          wireAfter := { ws.proved cid remaining with authorityHold := false } }

def applyRestOrderProof (r : WireRegistry) (txn : RestOrderProofTxnRecord) (inv : MarketInventory) :
    Except OrderStateProofError WireRegistry :=
  if inv.generation ≠ txn.inventoryGenerationBefore then .error .inventoryChanged
  else do
    let fresh ← r.prepareRestOrderProof txn.ledger txn.wire txn.clientOrderId txn.filled txn.remaining
      txn.initial inv
    if fresh ≠ txn then .error .generationChanged
    else .ok (r.set txn.ledger txn.wire txn.wireAfter)

end WireRegistry

end Omsrs.Observation
