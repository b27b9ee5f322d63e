import Mathlib.Data.Prod.Lex
import Omsrs.Lifecycle.Transitions

/-!
# Executions, orders and their transactions

The data of the execution api: what the venue reports of a fill, what the market's inventory keeps of
it, and the records of the transactions that carry both into the journal.
-/

namespace Omsrs.Execution
open Omsrs.Lib Omsrs.Lifecycle

/-! ## Ledgers and evidence -/

structure ExecutionScope where
  scope : String
deriving DecidableEq, Repr

/-- One market under one execution scope. -/
structure LedgerId where
  scope : ExecutionScope
  market : String
deriving DecidableEq, Repr

instance : LinearOrder ExecutionScope :=
  .lift' ExecutionScope.scope fun a b h => by cases a; cases b; simp_all

instance : LinearOrder LedgerId :=
  .lift' (fun l => toLex (l.scope, l.market)) fun a b h => by
    cases a
    cases b
    simpa using h

/-- A set of fill ids. -/
abbrev FillSet := OrdMap FillId Unit

inductive ExecutionSource
  | wsFill
  | restFill
  | createResponseBackfill
  | venueSeed
deriving DecidableEq, Repr

structure ExecutionEvidence where
  scope : ExecutionScope
  market : String
  executionId : FillId
  side : Side
  qty : Nat
  priceCents : Nat
  tsNs : Int
  venueOrderId : Option VenueOrderId
  claimedClientOrderId : Option ClientOrderId
  feeCents : Option Nat
  source : ExecutionSource
deriving DecidableEq, Repr

def evidenceLedger (e : ExecutionEvidence) : LedgerId := ⟨e.scope, e.market⟩

/-! ## Orders as the transactions see them -/

structure OrderCursor where
  seq : Nat
deriving DecidableEq, Repr

/-- An order with its ledger and the sequence number of its last transaction. It is the `OrderRef` a
transaction is prepared from, and the `OrderTarget` one is applied to. -/
structure OrderRow where
  ledger : LedgerId
  cursor : OrderCursor
  state : OrderState
  ctx : OrderCtx
deriving DecidableEq

/-! ## The inventory's entries -/

inductive BatchOutcome
  | accept
  | halt (reason : HaltReason)
  | reject (reason : RejectReason)
deriving DecidableEq, Repr

inductive ConflictClass
  | core
  | ownership
  | fee
deriving DecidableEq, Repr

inductive RefusalReason
  | duplicateOtherOwner (owner : ClientOrderId)
  | conflictingExecution (conflictClass : ConflictClass)
  | feeConflict
  | sideMismatch (ctxSide evidenceSide : Side)
  | rowForeign (rowLedger : LedgerId) (rowCtxMarket : String) (inventoryLedger : LedgerId)
  | inBatchDuplicate
deriving DecidableEq, Repr

inductive InventoryProvenance
  | attributed
  | recovered
  | lateBooked
  | notAttributedByOrder (outcome : BatchOutcome)
  | refused (reason : RefusalReason)
  | noRow
  | rowForeign
deriving DecidableEq, Repr

structure InventoryEntry where
  side : Side
  qty : Nat
  priceCents : Nat
  firstSeenTsNs : Int
  venueOrderId : Option VenueOrderId
  claimedClientOrderId : Option ClientOrderId
  owner : Option ClientOrderId
  feeCents : Option Nat
  source : ExecutionSource
  provenance : InventoryProvenance
deriving DecidableEq, Repr

inductive ConflictWitness
  | entry (e : InventoryEntry)
  | orderApplied (clientOrderId : ClientOrderId) (payload : FillPayload)
  | both (e : InventoryEntry) (clientOrderId : ClientOrderId) (payload : FillPayload)
  | staged (e : InventoryEntry)
deriving DecidableEq, Repr

structure ConflictFact where
  executionId : FillId
  conflictClass : ConflictClass
  witness : ConflictWitness
  evidence : ExecutionEvidence
deriving DecidableEq, Repr

/-! ## Outcomes -/

inductive IgnoreReason
  | zeroQty
deriving DecidableEq, Repr

/-- What became of an evidence in the order. -/
inductive OrderDisposition
  | attributed
  | enriched
  | duplicate
  | ignored (reason : IgnoreReason)
  | lateBooked
  | notAttributedByOrder (outcome : BatchOutcome)
  | noRow
  | refused (reason : RefusalReason)
deriving DecidableEq, Repr

/-- What became of an evidence in the inventory. -/
inductive InventoryDisposition
  | ingested (provenance : InventoryProvenance)
  | duplicate
  | upgraded
  | conflict (conflictClass : ConflictClass)
  | unchanged
deriving DecidableEq, Repr

structure ExecutionOutcome where
  evidence : ExecutionEvidence
  order : OrderDisposition
  inventory : InventoryDisposition
  entryAfter : Option InventoryEntry
  conflict : Option ConflictFact
deriving DecidableEq, Repr

/-- The dispositions that are journaled. -/
def InventoryDisposition.needsJournal : InventoryDisposition → Bool
  | .ingested _ | .upgraded | .conflict _ => true
  | .duplicate | .unchanged => false

/-! ## Transaction records -/

structure OrderTxnRecord where
  ledger : LedgerId
  clientOrderId : ClientOrderId
  seq : Nat
  event : String
  outcome : BatchOutcome
  coreRecords : List JournalRecord
  stateAfter : OrderState
  ctxAfter : OrderCtx
deriving DecidableEq

structure ExecutionTxnRecord where
  ledger : LedgerId
  inventoryGenerationBefore : Nat
  executions : List ExecutionOutcome
  order : Option OrderTxnRecord
deriving DecidableEq

/-! ## Errors -/

inductive PrepareError
  | foreignLedger (inventory evidence : LedgerId)
  | fillsMustUseExecutionApi (event : String) (fills : Nat)
  | evidenceFillMismatch (position : Nat) (detail : String)
  | mixedLedgerBatch
  | orderRefInconsistent (ledgerMarket ctxMarket : String)
  /-- The next sequence number does not fit its word; the source's addition panics. -/
  | sequenceOverflow
deriving DecidableEq, Repr

inductive ApplyMismatch
  | ledgerIdentity
  | inventoryGeneration (expected found : Nat)
  | orderCursor (expected found : Nat)
  | orderStateOrCtx
  | orderTarget (expected found : Bool)
deriving DecidableEq, Repr

inductive RebuildError
  | seqGap (clientOrderId : ClientOrderId) (expected found : Nat)
  | divergent (clientOrderId : ClientOrderId) (seq : Nat)
  | duplicateExecutionRecord (fillId : FillId)
deriving DecidableEq, Repr

/-! ## Effects and fills of a transition -/

def coreRecords (fx : List Effect) : List JournalRecord :=
  fx.filterMap fun
    | .appendFsync r => some r
    | _ => none

def nonJournal (fx : List Effect) : List Effect :=
  fx.filter fun
    | .appendFsync _ => false
    | _ => true

def outcomeFromTransition : TransitionOutcome → BatchOutcome
  | .accept .. => .accept
  | .halt _ reason _ => .halt reason
  | .reject reason => .reject reason

def stateAfterTransition (t : TransitionOutcome) (prior : OrderState) : OrderState :=
  t.newState.getD prior

/-- The sequence number of the next transaction. -/
def OrderCursor.next (c : OrderCursor) : Except PrepareError Nat :=
  match checkedAdd u64Max c.seq 1 with
  | some seq => .ok seq
  | none => .error .sequenceOverflow

end Omsrs.Execution
