import Omsrs.Execution.Types

/-!
# Wires and observations

What the shell knows of a venue order (a wire): the client orders that are its members, the fills it
holds, the last verdict over it, and the evidence that is still owed.
-/

namespace Omsrs.Observation
open Omsrs.Lib Omsrs.Lifecycle Omsrs.Execution

/-! ## The state of a wire -/

inductive MemberRole
  | current
  | superseded
  | terminal
deriving DecidableEq, Repr

structure Member where
  cid : ClientOrderId
  role : MemberRole
  bindPos : Nat
deriving DecidableEq, Repr

inductive WireKind
  | scoped
  | venueOnly
deriving DecidableEq, Repr

structure RemainingObservation where
  remaining : Nat
  covered : FillSet
  generation : Nat
deriving DecidableEq

inductive AmendPhase
  | httpPending
  | appliedNeedsObservation
  | unknown
  | restDue
deriving DecidableEq, Repr

structure AmendLineage where
  oldCid : ClientOrderId
  newCid : ClientOrderId
  preGeneration : Nat
  phase : AmendPhase
  declaredRemaining : Nat
  appliedAtUtcNs : Option Nat
deriving DecidableEq, Repr

inductive UserOrderStatus
  | resting
  | canceled
  | executed
  | unknown
deriving DecidableEq, Repr

structure UserOrderEvidence where
  wire : VenueOrderId
  market : String
  exchangeIndex : Int
  subaccountNumber : Int
  sid : Nat
  side : Side
  yesPriceE4 : Nat
  clientOrderId : ClientOrderId
  status : UserOrderStatus
  filled : Nat
  remaining : Nat
  initial : Nat
  updatedTsMs : Nat
  connectionGeneration : Nat
  payloadDigest : String
deriving DecidableEq, Repr

/-- The state of one wire. `latestUserOrderRevision` and `authorityHoldRevision` are the journal
position, plus one, of the latest user-order frame and of the latest hold. -/
structure WireState where
  members : List Member
  kind : WireKind
  held : FillSet
  filledHw : Nat
  status : BackfillOrderStatus
  generation : Nat
  tracked : Bool
  last : Option ObservationOutcome
  resolved : Bool
  remainingObservation : Option RemainingObservation
  amendLineage : Option AmendLineage
  latestUserOrder : Option UserOrderEvidence
  latestUserOrderRevision : Nat
  provedCurrentCid : Option ClientOrderId
  observedExchangeIndex : Option Int
  authorityHold : Bool
  authorityHoldRevision : Nat
deriving DecidableEq

namespace WireState

def venueOnly : WireState where
  members := []
  kind := .venueOnly
  held := .empty
  filledHw := 0
  status := .openOrder
  generation := 0
  tracked := false
  last := none
  resolved := false
  remainingObservation := none
  amendLineage := none
  latestUserOrder := none
  latestUserOrderRevision := 0
  provedCurrentCid := none
  observedExchangeIndex := none
  authorityHold := false
  authorityHoldRevision := 0

def current (ws : WireState) : Option Member := ws.members.find? (·.role = .current)

def currentCid (ws : WireState) : Option ClientOrderId := ws.current.map (·.cid)

def nonTerminalCids (ws : WireState) : List ClientOrderId :=
  (ws.members.filter (·.role ≠ .terminal)).map (·.cid)

end WireState

/-! ## Records -/

structure OrderStateTxnRecord where
  ledger : LedgerId
  wire : VenueOrderId
  evidence : UserOrderEvidence
  inventoryGenerationBefore : Nat
  wireGenerationBefore : Nat
  wireAfter : WireState
deriving DecidableEq

structure RestOrderProofTxnRecord where
  ledger : LedgerId
  wire : VenueOrderId
  clientOrderId : ClientOrderId
  filled : Nat
  remaining : Nat
  initial : Nat
  inventoryGenerationBefore : Nat
  wireGenerationBefore : Nat
  wireAfter : WireState
deriving DecidableEq

structure MemberAfter where
  clientOrderId : ClientOrderId
  seq : Nat
  stateAfter : OrderState
  ctxAfter : OrderCtx
deriving DecidableEq

structure RowEvidence where
  ledger : LedgerId
  wire : VenueOrderId
  status : BackfillOrderStatus
  filled : Nat
  remaining : Nat
  clientOrderId : Option ClientOrderId
  marker : Nat
deriving DecidableEq, Repr

structure PageMeta where
  exhaustive : Bool
  parseFailures : Nat
deriving DecidableEq, Repr

structure ObservationTxnRecord where
  ledger : LedgerId
  wire : VenueOrderId
  row : RowEvidence
  page : Option PageMeta
  pageIds : FillSet
  outcome : ObservationOutcome
  inventoryGenerationBefore : Nat
  wireGenerationBefore : Nat
  membersAfter : List MemberAfter
  wireAfter : WireState
deriving DecidableEq

/-! ## The journal -/

/-- A line of the journal: a core record of its own, a transaction, or a record of a wire. -/
inductive Record
  | core (r : JournalRecord)
  | orderTxn (o : OrderTxnRecord)
  | executionTxn (e : ExecutionTxnRecord)
  | observationTxn (t : ObservationTxnRecord)
  | amendLineage (ledger : LedgerId) (wire : VenueOrderId) (lineage : Option AmendLineage)
  | userOrderReceived (ledger : LedgerId) (wire : VenueOrderId) (evidence : UserOrderEvidence)
  | userOrderQuarantined (ledger : LedgerId) (wire : Option VenueOrderId)
      (clientOrderId : Option ClientOrderId) (reason : String)
  | orderAuthorityHold (ledger : LedgerId) (wire : VenueOrderId)
  | userOrderStaged (ledger : LedgerId) (clientOrderId : ClientOrderId)
      (evidence : Option UserOrderEvidence)
  | orderStateTxn (t : OrderStateTxnRecord)
  | restOrderProofTxn (t : RestOrderProofTxnRecord)
deriving DecidableEq

end Omsrs.Observation
