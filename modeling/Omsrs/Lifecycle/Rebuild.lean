import Omsrs.Lifecycle.Transitions

/-!
# Rebuilding the context from the journal

After a crash the context is folded from the durable records. The fold restores what the transitions
did, it does not run them again: generations come from the records that carry them.
-/

namespace Omsrs.Lifecycle
open Omsrs.Lib

/-- Take a generation from a record; it never goes back. -/
def OrderCtx.restoreEpoch (ctx : OrderCtx) (epoch : Nat) : OrderCtx :=
  { ctx with authorityEpoch := max epoch ctx.authorityEpoch }

/-- Clear the latch when the attribution lags behind the obligation. -/
def OrderCtx.clearIfLagging (ctx : OrderCtx) : OrderCtx :=
  if ctx.attributedFillQty < ctx.fillObligation then { ctx with authorityComplete := false } else ctx

/-- The identity a record carries, without the record of a new binding. -/
def bindForFold (ctx : OrderCtx) (venueOrderId : VenueOrderId) : Except HaltReason OrderCtx :=
  (bindVenueId ctx venueOrderId).map (·.2)

def foldSubmitResponse (ctx : OrderCtx) (venueOrderId : VenueOrderId)
    (fillCount remainingCount : Nat) (avgPriceCents feeCents : Option Nat)
    (snapshotBoundary : Option SnapshotBoundary) : Except HaltReason OrderCtx := do
  let ctx ← bindForFold ctx venueOrderId
  let ctx := ctx.noteVenueRemaining remainingCount
  if 0 < fillCount then
    let ctx := setResponse ctx fillCount remainingCount avgPriceCents feeCents snapshotBoundary
    let ctx ← restoreFillObligation ctx fillCount
    .ok (recomputeResponseDomain ctx)
  else .ok ctx

def foldFill (ctx : OrderCtx) (f : FillRecord) : Except HaltReason OrderCtx :=
  match tryAccountFillForFold ctx f with
  | (.noOp, ctx) | (.applied _, ctx) | (.enriched _, ctx) => .ok ctx
  | (.halt reason _, _) => .error reason

/-- The fill's own record has usually brought the fee already; then nothing is added twice. -/
def foldFeeCorrection (ctx : OrderCtx) (fillId : FillId) (deltaFeeCents : Nat) :
    Except HaltReason OrderCtx :=
  match ctx.appliedFills.get? fillId with
  | none => .ok ctx
  | some p =>
      if p.fee.isNone then
        match checkedAdd u64Max ctx.attributedFeeCents deltaFeeCents with
        | none => .error (.feeOverflow fillId)
        | some total =>
            .ok
              { ctx with
                attributedFeeCents := total
                appliedFills := ctx.appliedFills.insert fillId { p with fee := some deltaFeeCents } }
      else .ok ctx

def foldImmediateFill (ctx : OrderCtx) (venueOrderId : VenueOrderId)
    (fillCount remainingCount : Nat) (avgPriceCents feeCents : Option Nat) :
    Except HaltReason OrderCtx := do
  let ctx ← bindForFold ctx venueOrderId
  let ctx :=
    { ctx with
      responseFillCount := some fillCount
      responseRemainingCount := some remainingCount
      responseAvgPriceCents := avgPriceCents
      responseFeeCents := feeCents }
  restoreFillObligation (ctx.noteVenueRemaining remainingCount) fillCount

/-- Evidence above the order quantity halted the live order before its obligation was raised. -/
def foldReconcileObserved (ctx : OrderCtx) (venueOrderId : VenueOrderId)
    (venueFilledQty venueRemainingQty otherMembersFilled : Nat) (shellAuthorityComplete : Bool)
    (authorityEpoch : Nat) : Except HaltReason OrderCtx := do
  let ctx ← bindForFold ctx venueOrderId
  let ctx := (ctx.noteVenueRemaining venueRemainingQty).restoreEpoch authorityEpoch
  let (memberFilled, _) ← backfillMemberQuantities ctx venueFilledQty otherMembersFilled
  if ctx.qty < memberFilled then .ok ctx
  else
    let ctx ← restoreFillObligation ctx memberFilled
    .ok (if shellAuthorityComplete then ctx.latchAuthorityComplete else ctx.clearIfLagging)

def foldOrderTerminal (ctx : OrderCtx) (venueOrderId : Option VenueOrderId) (fillObligation : Nat)
    (authorityComplete : Bool) (authorityEpoch attributedFillQty attributedFeeCents : Nat) :
    Except HaltReason OrderCtx := do
  let ctx ←
    match venueOrderId with
    | some v => bindForFold ctx v
    | none => .ok ctx
  let ctx ← restoreFillObligation ctx fillObligation
  let ctx := ctx.restoreEpoch authorityEpoch
  let ctx :=
    if authorityComplete then
      { ctx with authorityComplete := true, authorityLatchedEpoch := authorityEpoch }
    else ctx
  .ok
    { ctx with
      attributedFillQty := max attributedFillQty ctx.attributedFillQty
      attributedFeeCents := max attributedFeeCents ctx.attributedFeeCents }

/-- One record. A cancel record invalidates a latch that no generation record before it has. -/
def foldRecord (ctx : OrderCtx) (r : JournalRecord) : Except HaltReason OrderCtx :=
  match r with
  | .submitPrepared clientOrderId => .ok { ctx with clientOrderId := clientOrderId }
  | .submitResponse v fillCount remainingCount avg fee boundary =>
      foldSubmitResponse ctx v fillCount remainingCount avg fee boundary
  | .fill f | .fillCid _ f => foldFill ctx f
  | .feeCorrection fillId delta => foldFeeCorrection ctx fillId delta
  | .cancelRequested | .cancelOutcome _ | .cancelRequestedCid _ | .cancelOutcomeCid .. =>
      .ok (if ctx.authorityComplete then ctx.invalidateAuthority else ctx)
  | .immediateFillUnattributed v fillCount remainingCount avg fee =>
      foldImmediateFill ctx v fillCount remainingCount avg fee
  | .venueBound v | .venueBoundCid _ v => bindForFold ctx v
  | .obligationRaised fillObligation authorityEpoch => do
      let ctx ← restoreFillObligation ctx fillObligation
      .ok (ctx.restoreEpoch authorityEpoch).clearIfLagging
  | .authorityLatched epoch =>
      .ok { ctx.restoreEpoch epoch with authorityComplete := true, authorityLatchedEpoch := epoch }
  | .authorityInvalidated epoch => .ok { ctx.restoreEpoch epoch with authorityComplete := false }
  | .reconcileObserved v filled remaining otherMembersFilled complete epoch =>
      foldReconcileObserved ctx v filled remaining otherMembersFilled complete epoch
  | .orderTerminal _ v fillObligation complete epoch attributedFillQty attributedFeeCents =>
      foldOrderTerminal ctx v fillObligation complete epoch attributedFillQty attributedFeeCents
  | .submitStarted _ | .submitUnknown | .submitUnknownCid _ | .immediateFillUnresolved
  | .immediateFillUnresolvedCid _ | .unknownNoMatch | .unknownNoMatchCid _ | .halted _
  | .ownActionCid .. => .ok ctx

def rebuildCtxFromJournal (base : OrderCtx) (records : List JournalRecord) :
    Except HaltReason OrderCtx :=
  records.foldlM foldRecord base

/-- The records of the `AppendFsync` effects, in emission order. -/
def Effect.journalRecord? : Effect → Option JournalRecord
  | .appendFsync r => some r
  | _ => none

def journalOf (effects : List Effect) : List JournalRecord := effects.filterMap Effect.journalRecord?

/-! ## Steps the journal carries in full -/

/-- Whether a batch of fills leaves the latch written: one of them is booked, or all of them are taken
in and the batch is `complete`. -/
def settlesLatch (complete : Bool) (ctx : OrderCtx) : List FillRecord → Bool
  | [] => complete
  | f :: fills =>
      match tryAccountFill ctx f with
      | (.applied _, _) => true
      | (.halt _ effects, _) => !effects.isEmpty
      | (.noOp, ctx) | (.enriched _, ctx) => settlesLatch complete ctx fills

/-- The states that take a terminal user-order claim. -/
def takesTerminalClaim : OrderState → Bool
  | .accepted _ | .partialFill .. | .cancelPending .. | .reconcilePending .. => true
  | _ => false

/-- The states that take a reconcile result. -/
def awaitsReconcile : OrderState → Bool
  | .cancelPending .. | .reconcilePending .. => true
  | _ => false

/-- The guard of `applyUserOrderTerminalClaim`. -/
def terminalClaimRejected (ctx : OrderCtx) (venueOrderId : VenueOrderId) (filled : Nat)
    (executed : Bool) : Bool :=
  decide (ctx.venueOrderId ≠ some venueOrderId ∨ ctx.attributedFillQty ≠ filled ∨
    (executed = true ∧ filled ≠ ctx.qty) ∨ (executed = false ∧ ctx.qty < filled))

/-- The step's journal carries all that the step changes. A user-order claim notes the venue's
remaining quantity without a record, so it has to be known already. A venue row that raises nothing
clears a lagging latch in the fold only, so its batch has to write the latch. -/
def replayable (o : Order) : OrderEvent → Bool
  | .userOrderRestingClaim v remaining =>
      !(o.state = .submitUnknown && o.ctx.attributedFillQty = 0 && remaining = o.ctx.qty &&
        (bindVenueId o.ctx v).isOk) || o.ctx.lastVenueRemainingQty = some remaining
  | .userOrderTerminalClaim v filled executed =>
      !(takesTerminalClaim o.state && !terminalClaimRejected o.ctx v filled executed) ||
        o.ctx.lastVenueRemainingQty = some 0
  | .reconcileResult _ v filled remaining fills complete =>
      !(awaitsReconcile o.state && (v = none || v = o.ctx.venueOrderId) && o.ctx.authorityComplete &&
        o.ctx.attributedFillQty < o.ctx.fillObligation && filled ≤ o.ctx.fillObligation) ||
        settlesLatch complete (o.ctx.noteVenueRemaining remaining) fills
  | _ => true

end Omsrs.Lifecycle
