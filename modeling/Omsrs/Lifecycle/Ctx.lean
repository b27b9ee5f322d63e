import Omsrs.Lib.Checked
import Omsrs.Lifecycle.Types

/-!
# The context of an order

Identity, booked fills and the evidence a release depends on: the obligation high-water mark, the
venue identity and the authority latch of the current generation.
-/

namespace Omsrs.Lifecycle
open Omsrs.Lib

structure OrderCtx where
  clientOrderId : ClientOrderId
  market : String
  strategy : String
  side : Side
  priceCents : Nat
  qty : Nat
  appliedFills : OrdMap FillId FillPayload
  attributedFillQty : Nat
  fillObligation : Nat
  venueOrderId : Option VenueOrderId
  authorityComplete : Bool
  authorityEpoch : Nat
  authorityLatchedEpoch : Nat
  lastVenueRemainingQty : Option Nat
  responseFillCount : Option Nat
  responseRemainingCount : Option Nat
  responseAvgPriceCents : Option Nat
  responseFeeCents : Option Nat
  responseSnapshotBoundary : Option SnapshotBoundary
  attributedNotionalCents : Nat
  attributedFeeCents : Nat
  responseDomainQty : Nat
  responseDomainNotionalCents : Nat
  responseDomainFeeCents : Nat
deriving DecidableEq

namespace OrderCtx

def new (clientOrderId : ClientOrderId) (market strategy : String) (side : Side)
    (priceCents qty : Nat) : OrderCtx where
  clientOrderId := clientOrderId
  market := market
  strategy := strategy
  side := side
  priceCents := priceCents
  qty := qty
  appliedFills := .empty
  attributedFillQty := 0
  fillObligation := 0
  venueOrderId := none
  authorityComplete := false
  authorityEpoch := 0
  authorityLatchedEpoch := 0
  lastVenueRemainingQty := none
  responseFillCount := none
  responseRemainingCount := none
  responseAvgPriceCents := none
  responseFeeCents := none
  responseSnapshotBoundary := none
  attributedNotionalCents := 0
  attributedFeeCents := 0
  responseDomainQty := 0
  responseDomainNotionalCents := 0
  responseDomainFeeCents := 0

/-- The latch is set and belongs to the current generation. -/
def authorityIsFresh (ctx : OrderCtx) : Bool :=
  ctx.authorityComplete && ctx.authorityLatchedEpoch == ctx.authorityEpoch

def latchAuthorityComplete (ctx : OrderCtx) : OrderCtx :=
  { ctx with authorityComplete := true, authorityLatchedEpoch := ctx.authorityEpoch }

/-- Open a new generation: whatever was latched before is stale. -/
def invalidateAuthority (ctx : OrderCtx) : OrderCtx :=
  { ctx with
    authorityEpoch := saturatingAdd u64Max ctx.authorityEpoch 1
    authorityComplete := false }

/-- Raise the obligation high-water mark. Evidence above the order quantity is refused, and evidence
that the attribution has not reached opens a new generation. -/
def raiseFillObligation (ctx : OrderCtx) (evidence : Nat) : Except HaltReason OrderCtx :=
  if ctx.qty < evidence then .error (.obligationExceedsOrderQty evidence ctx.qty)
  else if ctx.fillObligation < evidence then
    let ctx := { ctx with fillObligation := evidence }
    if ctx.attributedFillQty < ctx.fillObligation then .ok ctx.invalidateAuthority else .ok ctx
  else .ok ctx

def noteVenueRemaining (ctx : OrderCtx) (remaining : Nat) : OrderCtx :=
  { ctx with lastVenueRemainingQty := some remaining }

def remainingQtyChecked (ctx : OrderCtx) : Option Nat :=
  checkedSub ctx.qty ctx.attributedFillQty

def remainingQty (ctx : OrderCtx) : Nat := ctx.remainingQtyChecked.getD 0

end OrderCtx

/-! ## Venue identity -/

/-- The first booked fill, in id order, that names another venue order than `newId`. -/
def boundElsewhere (newId : VenueOrderId) (fills : List (FillId × FillPayload)) :
    Option HaltReason :=
  fills.findSome? fun (fid, payload) =>
    match payload.venueOrderId with
    | some got => if got ≠ newId then some (.fillOwnershipMismatch fid newId got) else none
    | none => none

/-- Bind or verify the parent venue id; the record is there when it was newly bound. -/
def bindVenueId (ctx : OrderCtx) (newId : VenueOrderId) :
    Except HaltReason (Option JournalRecord × OrderCtx) :=
  match ctx.venueOrderId with
  | none =>
      match boundElsewhere newId ctx.appliedFills.entries with
      | some reason => .error reason
      | none =>
          .ok (some (.venueBoundCid ctx.clientOrderId newId), { ctx with venueOrderId := some newId })
  | some existing =>
      if existing = newId then .ok (none, ctx) else .error (.ownershipConflict existing newId)

/-- Bind the id the state knows, then the one the event carries. A conflict after the first binding
still hands out its record, with the context it has changed. -/
def resolveReconcileVenue (ctx : OrderCtx) (stateVid : VenueOrderId)
    (eventVid : Option VenueOrderId) :
    Except (HaltReason × Option JournalRecord × OrderCtx)
      (VenueOrderId × Option JournalRecord × OrderCtx) :=
  match bindVenueId ctx stateVid with
  | .error reason => .error (reason, none, ctx)
  | .ok (bindJr, ctx) =>
      match eventVid with
      | none => .ok (stateVid, bindJr, ctx)
      | some ev =>
          match bindVenueId ctx ev with
          | .ok (some jr, ctx) => .ok (ev, some jr, ctx)
          | .ok (none, ctx) => .ok (ev, bindJr, ctx)
          | .error reason => .error (reason, bindJr, ctx)

/-! ## Obligation and authority evidence -/

/-- Raise the obligation; the record carries the generation after the raise. -/
def noteFillEvidence (ctx : OrderCtx) (venueFilled : Nat) :
    Except HaltReason (Option JournalRecord × OrderCtx) :=
  match ctx.raiseFillObligation venueFilled with
  | .error reason => .error reason
  | .ok ctx' =>
      if ctx.fillObligation < ctx'.fillObligation then
        .ok (some (.obligationRaised ctx'.fillObligation ctx'.authorityEpoch), ctx')
      else .ok (none, ctx')

/-- The fold's raise: the high-water mark alone, the generation comes from its own records. -/
def restoreFillObligation (ctx : OrderCtx) (evidence : Nat) : Except HaltReason OrderCtx :=
  if ctx.qty < evidence then .error (.obligationExceedsOrderQty evidence ctx.qty)
  else if ctx.fillObligation < evidence then .ok { ctx with fillObligation := evidence }
  else .ok ctx

def noteAuthorityComplete (ctx : OrderCtx) (complete : Bool) : Option JournalRecord × OrderCtx :=
  if complete then (some (.authorityLatched ctx.authorityEpoch), ctx.latchAuthorityComplete)
  else (none, ctx)

def authorityInvalidateEffects (ctx : OrderCtx) : List Effect × OrderCtx :=
  let ctx := ctx.invalidateAuthority
  ([.appendFsync (.authorityInvalidated ctx.authorityEpoch)], ctx)

def pushJournal (effects : List Effect) (jr : Option JournalRecord) : List Effect :=
  match jr with
  | some r => effects ++ [.appendFsync r]
  | none => effects

end Omsrs.Lifecycle
