import Omsrs.Execution.Batch
import Omsrs.Observation.Proof
import Omsrs.Observation.Round

/-!
# The shell

The orders, one inventory for each ledger, the registry of wires and the journal. Every transaction is
prepared from the state as it is, journaled, applied at once and, unless it is an observation's, folded
into the registry at its position.
-/

namespace Omsrs.Observation
open Omsrs.Lib Omsrs.Lifecycle Omsrs.Execution

structure OrderKey where
  ledger : LedgerId
  cid : ClientOrderId
deriving DecidableEq, Repr

instance : LinearOrder OrderKey :=
  .lift' (fun k => toLex (k.ledger, k.cid)) fun a b h => by
    cases a
    cases b
    simpa using h

structure Shell where
  orders : OrdMap OrderKey OrderRow
  inventories : OrdMap LedgerId MarketInventory
  registry : WireRegistry
  journal : List Record
deriving DecidableEq

inductive ShellAction
  /-- A new order, on the ledger of its key. -/
  | create (key : OrderKey) (market strategy : String) (side : Side) (priceCents qty : Nat)
  | order (key : OrderKey) (event : OrderEvent)
  | execution (target : Option OrderKey) (ledger : LedgerId) (e : ExecutionEvidence)
  | batch (target : OrderKey) (ledger : LedgerId) (event : OrderEvent) (es : List ExecutionEvidence)
  | observe (ledger : LedgerId) (wire : VenueOrderId) (outcomes : List ExecutionOutcome)
      (page : Option PageMeta) (members : List OrderKey) (row : RowEvidence)
  | amendLineage (ledger : LedgerId) (wire : VenueOrderId) (lineage : AmendLineage)
  | userOrder (ledger : LedgerId) (wire : VenueOrderId) (e : UserOrderEvidence)
  | orderState (ledger : LedgerId) (wire : VenueOrderId)
  | restProof (ledger : LedgerId) (wire : VenueOrderId) (cid : ClientOrderId)
      (filled remaining initial : Nat)
  | hold (ledger : LedgerId) (wire : VenueOrderId)
deriving DecidableEq

inductive ShellReply
  | done
  | unknownOrder
  | knownOrder
  | notPrepared (error : PrepareError)
  | notApplied (error : ApplyMismatch)
  | notProved (error : OrderStateProofError)
  | notClosed (error : RoundError)
  | notObserved (error : ObservationApplyMismatch)
  | notFolded (error : RebuildError)
deriving DecidableEq

namespace ObservationRound

/-- A round with all its executions and its page. -/
def gather (ledger : LedgerId) (wire : VenueOrderId) (outcomes : List ExecutionOutcome)
    (page : Option PageMeta) : Except RoundError ObservationRound := do
  let round ← outcomes.foldlM record (begin ledger wire)
  .ok (match page with
    | some p => round.setPage p
    | none => round)

end ObservationRound

namespace Shell

def new : Shell := ⟨.empty, .empty, .new, []⟩

def inventory (s : Shell) (ledger : LedgerId) : MarketInventory :=
  (s.inventories.get? ledger).getD (.new ledger)

/-- Append a record and fold it where it stands. -/
def append (s : Shell) (rec : Record) : ShellReply × Shell :=
  let journal := s.journal ++ [rec]
  match s.registry.fold s.journal.length rec with
  | .ok registry => (.done, { s with journal := journal, registry := registry })
  | .error err => (.notFolded err, { s with journal := journal })

def appendAny (s : Shell) : Option Record → ShellReply × Shell
  | some rec => s.append rec
  | none => (.done, s)

def setOrder (s : Shell) (key : OrderKey) (row : OrderRow) : Shell :=
  { s with orders := s.orders.insert key row }

def create (s : Shell) (key : OrderKey) (market strategy : String) (side : Side)
    (priceCents qty : Nat) : ShellReply × Shell :=
  if s.orders.contains key then (.knownOrder, s)
  else
    (.done, s.setOrder key
      ⟨key.ledger, ⟨0⟩, .new, .new key.cid market strategy side priceCents qty⟩)

def order (s : Shell) (key : OrderKey) (event : OrderEvent) : ShellReply × Shell :=
  match s.orders.get? key with
  | none => (.unknownOrder, s)
  | some row =>
      match prepareOrderEvent row event with
      | .error err => (.notPrepared err, s)
      | .ok t =>
          match t.apply row with
          | .error err => (.notApplied err, s)
          | .ok row => (s.setOrder key row).appendAny t.journal

/-- The inventory and the row as a transaction leaves them. -/
def install (s : Shell) (ledger : LedgerId) (inv : MarketInventory)
    (target : Option (OrderKey × OrderRow)) (row : Option OrderRow) : Shell :=
  let s := { s with inventories := s.inventories.insert ledger inv }
  match target, row with
  | some (key, _), some row => s.setOrder key row
  | _, _ => s

def applyExecution (s : Shell) (target : Option (OrderKey × OrderRow)) (ledger : LedgerId)
    (t : ExecutionTransaction) : ShellReply × Shell :=
  match t.apply (target.map (·.2)) (s.inventory ledger) with
  | .error err => (.notApplied err, s)
  | .ok (row, inv) => (s.install ledger inv target row).appendAny t.journal

/-- The row of a target, where there is to be one. -/
def findTarget (s : Shell) : Option OrderKey → Option (Option (OrderKey × OrderRow))
  | none => some none
  | some key => (s.orders.get? key).map fun row => some (key, row)

def execution (s : Shell) (target : Option OrderKey) (ledger : LedgerId) (e : ExecutionEvidence) :
    ShellReply × Shell :=
  match s.findTarget target with
  | none => (.unknownOrder, s)
  | some target =>
      match prepareExecution (target.map (·.2)) (s.inventory ledger) e with
      | .error err => (.notPrepared err, s)
      | .ok t => s.applyExecution target ledger t

def batch (s : Shell) (key : OrderKey) (ledger : LedgerId) (event : OrderEvent)
    (es : List ExecutionEvidence) : ShellReply × Shell :=
  match s.orders.get? key with
  | none => (.unknownOrder, s)
  | some row =>
      match prepareExecutionBatch row (s.inventory ledger) event es with
      | .error err => (.notPrepared err, s)
      | .ok t => s.applyExecution (some (key, row)) ledger t

/-- A round that is closed, journaled and applied at once. -/
def observe (s : Shell) (ledger : LedgerId) (wire : VenueOrderId) (outcomes : List ExecutionOutcome)
    (page : Option PageMeta) (members : List OrderKey) (row : RowEvidence) : ShellReply × Shell :=
  match members.mapM s.orders.get? with
  | none => (.unknownOrder, s)
  | some rows =>
      match ObservationRound.gather ledger wire outcomes page with
      | .error err => (.notClosed err, s)
      | .ok round =>
          match round.finish s.registry (s.inventory ledger) rows row with
          | .error err => (.notClosed err, s)
          | .ok t =>
              match t.apply rows s.registry (s.inventory ledger) with
              | .error err => (.notObserved err, s)
              | .ok (_, rows, registry) =>
                  (.done,
                    { s with
                      orders := s.orders.insertAll (members.zip rows)
                      registry := registry
                      journal := s.journal ++ t.journal.toList })

/-- Append what was prepared of a wire. -/
def prove (s : Shell) : Except OrderStateProofError (Option Record) → ShellReply × Shell
  | .ok rec => s.appendAny rec
  | .error err => (.notProved err, s)

def step (s : Shell) : ShellAction → ShellReply × Shell
  | .create key market strategy side priceCents qty => s.create key market strategy side priceCents qty
  | .order key event => s.order key event
  | .execution target ledger e => s.execution target ledger e
  | .batch target ledger event es => s.batch target ledger event es
  | .observe ledger wire outcomes page members row => s.observe ledger wire outcomes page members row
  | .amendLineage ledger wire lineage =>
      s.prove ((s.registry.prepareAmendLineage ledger wire lineage).map some)
  | .userOrder ledger wire e => s.prove (s.registry.prepareUserOrderReceived ledger wire e)
  | .orderState ledger wire =>
      s.prove ((s.registry.prepareOrderStateResting ledger wire (s.inventory ledger)).map
        fun t => some (.orderStateTxn t))
  | .restProof ledger wire cid filled remaining initial =>
      s.prove ((s.registry.prepareRestOrderProof ledger wire cid filled remaining initial
        (s.inventory ledger)).map fun t => some (.restOrderProofTxn t))
  | .hold ledger wire => s.append (.orderAuthorityHold ledger wire)

end Shell

def shell : Machine Shell ShellAction ShellReply := ⟨Shell.step⟩

end Omsrs.Observation
