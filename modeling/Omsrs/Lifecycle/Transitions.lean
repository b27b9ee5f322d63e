import Omsrs.Lib.Machine
import Omsrs.Lifecycle.Terminal

/-!
# The transitions of one order

`applyEvent` follows the source arm by arm. Each handler takes the context and hands it back with the
outcome; the context of a rejected event is the one it was given.
-/

namespace Omsrs.Lifecycle
open Omsrs.Lib

/-! ## Live routing -/

/-- Route by what is left: nothing left is full coverage by fill ids, which is fill-complete
evidence. -/
def routeLiveOrFilled (ctx : OrderCtx) (venueOrderId : VenueOrderId) (effects : List Effect) :
    TransitionOutcome × OrderCtx :=
  match ctx.remainingQtyChecked with
  | none => (haltWithReason (.overFill ctx.attributedFillQty 0 ctx.qty) effects, ctx)
  | some remaining =>
      if remaining = 0 then
        let (jr, ctx) := noteAuthorityComplete ctx true
        (tryFinalizeTerminal ctx (.filled ctx.attributedFillQty 0) venueOrderId
          (pushJournal effects jr) .filled, ctx)
      else if ctx.attributedFillQty = 0 then (accept (.accepted venueOrderId) effects, ctx)
      else (accept (.partialFill venueOrderId ctx.attributedFillQty remaining) effects, ctx)

/-! ## The create response -/

/-- The cross-checks of a waiting response against the booked fills: wait, halt or go on. -/
inductive UnattributedCheck
  | wait
  | halt (reason : HaltReason)
  | resolved
deriving DecidableEq, Repr

def checkUnattributed (ctx : OrderCtx) (responseFillCount responseRemainingCount : Nat)
    (responseAvgPriceCents responseFeeCents : Option Nat) : UnattributedCheck :=
  if hasReliableBoundary ctx then
    if ctx.responseDomainQty < responseFillCount then .wait
    else if ctx.responseDomainQty ≠ responseFillCount then
      .halt (.immediateFillCrossCheckMismatch responseFillCount ctx.responseDomainQty
        responseRemainingCount (ctx.qty - ctx.responseDomainQty))
    else if ctx.qty - responseFillCount ≠ responseRemainingCount then
      .halt (.immediateFillCrossCheckMismatch responseFillCount ctx.responseDomainQty
        responseRemainingCount (ctx.qty - responseFillCount))
    else
      match (responseAvgPriceCents.or ctx.responseAvgPriceCents).bind
          (notionalAvgMismatch ctx.responseDomainNotionalCents · responseFillCount) with
      | some detail => .halt (.crossCheckMismatch detail)
      | none =>
          match feeCrossCheckMismatch (responseFeeCents.or ctx.responseFeeCents)
              ctx.responseDomainFeeCents with
          | some detail => .halt (.crossCheckMismatch detail)
          | none => .resolved
  else if ctx.attributedFillQty < responseFillCount then .wait
  else if ctx.remainingQtyChecked.isNone then .halt (.overFill ctx.attributedFillQty 0 ctx.qty)
  else .resolved

def resolveUnattributed (ctx : OrderCtx) (venueOrderId : VenueOrderId)
    (responseFillCount responseRemainingCount : Nat)
    (responseAvgPriceCents responseFeeCents : Option Nat) (effects : List Effect) :
    TransitionOutcome × OrderCtx :=
  match checkUnattributed ctx responseFillCount responseRemainingCount responseAvgPriceCents
      responseFeeCents with
  | .wait =>
      (accept (.immediateFillUnattributed venueOrderId responseFillCount responseRemainingCount
        responseAvgPriceCents responseFeeCents) effects, ctx)
  | .halt reason => (haltWithReason reason effects, ctx)
  | .resolved =>
      let ctx :=
        { ctx with
          responseAvgPriceCents := ctx.responseAvgPriceCents.or responseAvgPriceCents
          responseFeeCents := ctx.responseFeeCents.or responseFeeCents }
      routeLiveOrFilled ctx venueOrderId effects

/-- A response that counts no fills. -/
def applyEmptyResponse (ctx : OrderCtx) (venueOrderId : VenueOrderId) (remainingCount : Nat)
    (effects : List Effect) : TransitionOutcome × OrderCtx :=
  if ctx.attributedFillQty ≠ 0 then
    if remainingCount = ctx.qty then
      -- the response is a snapshot of the creation; the fills came after it
      routeLiveOrFilled ctx venueOrderId effects
    else
      (haltWithReason (.responseZeroButLocalFills ctx.attributedFillQty remainingCount) effects, ctx)
  else if remainingCount ≠ ctx.qty then
    if remainingCount = 0 then
      -- an immediate-or-cancel order that met nothing
      let (jr, ctx) := noteAuthorityComplete ctx true
      (tryFinalizeTerminal ctx .canceled venueOrderId (pushJournal effects jr) .canceled, ctx)
    else
      (haltWithReason
        (.crossCheckMismatch
          s!"fill_count=0 remaining_count={remainingCount} != order_qty={ctx.qty}") effects, ctx)
  else (accept (.accepted venueOrderId) effects, ctx)

def setResponse (ctx : OrderCtx) (fillCount remainingCount : Nat)
    (avgPriceCents feeCents : Option Nat) (snapshotBoundary : Option SnapshotBoundary) : OrderCtx :=
  { ctx with
    responseFillCount := some fillCount
    responseRemainingCount := some remainingCount
    responseAvgPriceCents := avgPriceCents
    responseFeeCents := feeCents
    responseSnapshotBoundary := snapshotBoundary }

/-- The journal of a raise by a response or a cancel outcome: the raise, then the generation it
opened. -/
def raiseEffects (before after : OrderCtx) : List Effect :=
  (if before.fillObligation < after.fillObligation then
    [.appendFsync (.obligationRaised after.fillObligation after.authorityEpoch)] else []) ++
  (if after.authorityEpoch ≠ before.authorityEpoch then
    [.appendFsync (.authorityInvalidated after.authorityEpoch)] else [])

def applySubmitResponse (ctx : OrderCtx) (venueOrderId : VenueOrderId)
    (fillCount remainingCount : Nat) (avgPriceCents feeCents : Option Nat)
    (snapshotBoundary : Option SnapshotBoundary) : TransitionOutcome × OrderCtx :=
  let effects : List Effect :=
    [.appendFsync (.submitResponse venueOrderId fillCount remainingCount avgPriceCents feeCents
      snapshotBoundary)]
  match bindVenueId ctx venueOrderId with
  | .error reason => (haltWithReason reason effects, ctx)
  | .ok (bindJr, ctx) =>
      let effects := pushJournal effects bindJr
      let ctx := ctx.noteVenueRemaining remainingCount
      if fillCount = 0 then applyEmptyResponse ctx venueOrderId remainingCount effects
      else
        let ctx := setResponse ctx fillCount remainingCount avgPriceCents feeCents snapshotBoundary
        match ctx.raiseFillObligation fillCount with
        | .error reason => (haltWithReason reason effects, ctx)
        | .ok raised =>
            let effects := effects ++ raiseEffects ctx raised
            let ctx := recomputeResponseDomain raised
            match responseDomainOverfillDetail ctx with
            | some detail => (haltWithReason (.crossCheckMismatch detail) effects, ctx)
            | none =>
                let effects :=
                  effects ++
                    [.appendFsync (.immediateFillUnattributed venueOrderId fillCount remainingCount
                        avgPriceCents feeCents),
                      .backfillFills venueOrderId]
                if 0 < ctx.attributedFillQty then
                  resolveUnattributed ctx venueOrderId fillCount remainingCount avgPriceCents
                    feeCents effects
                else
                  (accept (.immediateFillUnattributed venueOrderId fillCount remainingCount
                    avgPriceCents feeCents) effects, ctx)

def applyImmediateFillBackfill (ctx : OrderCtx) (venueOrderId : VenueOrderId)
    (responseFillCount responseRemainingCount : Nat)
    (responseAvgPriceCents responseFeeCents : Option Nat) (fills : List FillRecord) :
    TransitionOutcome × OrderCtx :=
  match bindVenueId ctx venueOrderId with
  | .error reason => (haltWithReason reason [], ctx)
  | .ok (bindJr, ctx) =>
      match accountFills (fun _ => none) ctx (pushJournal [] bindJr) fills with
      | .error (reason, effects, ctx) => (haltWithReason reason effects, ctx)
      | .ok (effects, ctx) =>
          resolveUnattributed ctx venueOrderId responseFillCount responseRemainingCount
            responseAvgPriceCents responseFeeCents effects

/-! ## Fills on open orders -/

def finalizeReconcileTarget (ctx : OrderCtx) (target : ReconcileTarget) (effects : List Effect)
    (venueOrderId : VenueOrderId) : TransitionOutcome :=
  match target.terminal with
  | .canceled => tryFinalizeTerminal ctx .canceled venueOrderId effects .canceled
  | .filled =>
      let venueRemainingQty :=
        match target.venueRemainingQty with
        | some r => r
        | none => ctx.lastVenueRemainingQty.getD (if target.venueFilledQty = ctx.qty then 0 else 1)
      tryFinalizeTerminal ctx (.filled target.venueFilledQty venueRemainingQty) venueOrderId effects
        .filled
  | .terminal => tryFinalizeTerminal ctx .terminal venueOrderId effects .terminal

/-- Evidence arrived while a terminal intent is known. -/
def afterFillTarget (ctx : OrderCtx) (venueOrderId : VenueOrderId) (target : ReconcileTarget)
    (effects : List Effect) (remaining : Nat) : TransitionOutcome × OrderCtx :=
  match noteFillEvidence ctx target.venueFilledQty with
  | .error reason => (haltWithReason reason effects, ctx)
  | .ok (jr, ctx) =>
      let effects := pushJournal effects jr
      if target.venueFilledQty < ctx.attributedFillQty then
        if ctx.attributedFillQty ≤ ctx.qty then
          -- the target is a local floor, not a venue bound: it moves up with a late fill
          (notReadyForTerminal ctx venueOrderId effects target.terminal true
            target.venueRemainingQty, ctx)
        else
          (haltWithReason
            (.crossCheckMismatch
              s!"attributed_fill_qty={ctx.attributedFillQty} > target.venue_filled_qty={target.venueFilledQty}")
            effects, ctx)
      else if ctx.attributedFillQty = target.venueFilledQty ∧
          ctx.attributedFillQty = ctx.fillObligation then
        let (jr, ctx) := noteAuthorityComplete ctx (ctx.attributedFillQty == ctx.qty)
        (finalizeReconcileTarget ctx target (pushJournal effects jr) venueOrderId, ctx)
      else
        (accept
          (.reconcilePending venueOrderId ctx.attributedFillQty remaining target
            ctx.responseFillCount ctx.responseAvgPriceCents ctx.responseFeeCents)
          effects, ctx)

/-- Evidence arrived while a cancel or a reconciliation is pending. -/
def afterFillCancelOrReconcile (ctx : OrderCtx) (venueOrderId : VenueOrderId)
    (reconcileTarget : Option ReconcileTarget) (effects : List Effect) (lastFillQty : Nat)
    (isEnrichment : Bool) : TransitionOutcome × OrderCtx :=
  match ctx.remainingQtyChecked with
  | none => (haltWithReason (.overFill ctx.attributedFillQty lastFillQty ctx.qty) effects, ctx)
  | some remaining =>
      match reconcileTarget with
      | some target => afterFillTarget ctx venueOrderId target effects remaining
      | none =>
          if remaining = 0 ∧ isEnrichment = false then
            let (jr, ctx) := noteAuthorityComplete ctx true
            (tryFinalizeTerminal ctx (.filled ctx.attributedFillQty 0) venueOrderId
              (pushJournal effects jr) .filled, ctx)
          else
            -- enrichment, an open obligation and a plain late fill all stay pending
            (accept
              (.cancelPending venueOrderId ctx.attributedFillQty remaining ctx.responseFillCount
                ctx.responseAvgPriceCents ctx.responseFeeCents none)
              effects, ctx)

def applyFillWhileOpen (state : OrderState) (ctx : OrderCtx) (f : FillRecord) :
    TransitionOutcome × OrderCtx :=
  match tryAccountFill ctx f with
  | (.noOp, ctx) => (accept state [], ctx)
  | (.halt reason effects, ctx) => (haltWithReason reason effects, ctx)
  | (.enriched effects, ctx) =>
      match state with
      | .cancelPending v _ _ _ _ _ reconcileTarget =>
          afterFillCancelOrReconcile ctx v reconcileTarget effects 0 true
      | .reconcilePending v _ _ target _ _ _ =>
          afterFillCancelOrReconcile ctx v (some target) effects 0 true
      | _ => (accept state effects, ctx)
  | (.applied effects, ctx) =>
      match state with
      | .submitStarted _ => (accept state effects, ctx)
      | .cancelPending v _ _ _ _ _ reconcileTarget =>
          afterFillCancelOrReconcile ctx v reconcileTarget effects f.qty false
      | .reconcilePending v _ _ target _ _ _ =>
          afterFillCancelOrReconcile ctx v (some target) effects f.qty false
      | _ => routeLiveOrFilled ctx (ctx.venueOrderId.getD ⟨"unknown"⟩) effects

def applyFillDedupOnly (ctx : OrderCtx) (f : FillRecord) (stay : OrderState) :
    TransitionOutcome × OrderCtx :=
  match tryAccountFill ctx f with
  | (.noOp, ctx) => (accept stay [], ctx)
  | (.halt reason effects, ctx) => (haltWithReason reason effects, ctx)
  | (.applied effects, ctx) | (.enriched effects, ctx) => (accept stay effects, ctx)

/-! ## Backfills and reconciliation -/

/-- The venue's quantities in this member's frame: what it has filled and what it can hold. -/
def backfillMemberQuantities (ctx : OrderCtx) (venueFilledQty otherMembersFilled : Nat) :
    Except HaltReason (Nat × Nat) :=
  match checkedSub venueFilledQty otherMembersFilled, checkedSub ctx.qty otherMembersFilled with
  | some filled, some capacity => .ok (filled, capacity)
  | _, _ =>
      .error (.crossCheckMismatch
        s!"other_members_filled={otherMembersFilled} exceeds venue_filled={venueFilledQty} or order_qty={ctx.qty}")

/-- Wait for the missing fills of a live order. -/
def continueReconcilePending (ctx : OrderCtx) (venueOrderId : VenueOrderId) (venueFilledQty : Nat)
    (effects : List Effect) (fromSubmitUnknown authorityComplete : Bool)
    (target : Option ReconcileTarget) : TransitionOutcome :=
  let effects :=
    if ctx.attributedFillQty < venueFilledQty then effects ++ [.backfillFills venueOrderId]
    else if fromSubmitUnknown && !authorityComplete then
      effects ++ [.backfillUnknown ctx.clientOrderId]
    else if !authorityComplete then
      effects ++ [.requestAuthorityReconcile (some venueOrderId) ctx.clientOrderId,
        .backfillFills venueOrderId]
    else effects ++ [.backfillFills venueOrderId]
  if fromSubmitUnknown && !authorityComplete then accept .submitUnknown effects
  else
    let remaining := ctx.remainingQty
    match target with
    | some t =>
        accept
          (.reconcilePending venueOrderId ctx.attributedFillQty remaining t ctx.responseFillCount
            ctx.responseAvgPriceCents ctx.responseFeeCents)
          effects
    | none =>
        if ctx.attributedFillQty = 0 then accept (.accepted venueOrderId) effects
        else accept (.partialFill venueOrderId ctx.attributedFillQty remaining) effects

/-- A single candidate that shell authority does not cover stays unmatched, so that later pages can
still show a second one. -/
def stayUnknown (ctx : OrderCtx) (fromSubmitUnknown shellAuthorityComplete : Bool)
    (o : TransitionOutcome) : TransitionOutcome :=
  if fromSubmitUnknown && !shellAuthorityComplete then
    match o with
    | .accept (.reconcilePending ..) e =>
        accept .submitUnknown
          (if e.any (fun x => x matches .backfillUnknown _) then e
          else e ++ [.backfillUnknown ctx.clientOrderId])
    | o => o
  else o

/-- The verdict of a venue row, once its evidence and fills are in. -/
def routeStatus (ctx : OrderCtx) (venueOrderId : VenueOrderId) (status : BackfillOrderStatus)
    (venueFilledQty venueRemainingQty memberFilled memberCapacity : Nat) (effects : List Effect)
    (shellAuthorityComplete fromSubmitUnknown : Bool) : TransitionOutcome :=
  match status with
  | .canceled =>
      stayUnknown ctx fromSubmitUnknown shellAuthorityComplete
        (tryFinalizeTerminal ctx .canceled venueOrderId effects .canceled)
  | .filled =>
      stayUnknown ctx fromSubmitUnknown shellAuthorityComplete
        (tryFinalizeTerminal ctx (.filled venueFilledQty venueRemainingQty) venueOrderId effects
          .filled)
  | .openOrder | .partialFill =>
      if fromSubmitUnknown && !shellAuthorityComplete then
        let effects :=
          if ctx.attributedFillQty < memberFilled then effects ++ [.backfillFills venueOrderId]
          else effects
        accept .submitUnknown (effects ++ [.backfillUnknown ctx.clientOrderId])
      else if ctx.attributedFillQty ≠ memberFilled then
        continueReconcilePending ctx venueOrderId memberFilled effects fromSubmitUnknown
          shellAuthorityComplete none
      else
        match checkedSub memberCapacity ctx.attributedFillQty with
        | none => haltWithReason (.overFill ctx.attributedFillQty 0 ctx.qty) effects
        | some remaining =>
            if venueRemainingQty ≠ remaining then
              haltWithReason
                (.crossCheckMismatch
                  s!"venue_remaining={venueRemainingQty} != local_remaining={remaining}")
                effects
            else if ctx.attributedFillQty = 0 then accept (.accepted venueOrderId) effects
            else
              accept (.partialFill venueOrderId ctx.attributedFillQty remaining) effects

def overAttributionText (ctx : OrderCtx) (venueFilledQty memberFilled otherMembersFilled : Nat) :
    String :=
  if otherMembersFilled = 0 then
    s!"attributed_fill_qty={ctx.attributedFillQty} > venue_filled_qty={venueFilledQty}"
  else s!"attributed_fill_qty={ctx.attributedFillQty} > member_filled_qty={memberFilled}"

/-- The record of a venue row, in the generation of `ctx`. -/
def observedEffect (ctx : OrderCtx) (venueOrderId : VenueOrderId)
    (venueFilledQty venueRemainingQty otherMembersFilled : Nat) (complete : Bool) : Effect :=
  .appendFsync (.reconcileObserved venueOrderId venueFilledQty venueRemainingQty otherMembersFilled
    complete ctx.authorityEpoch)

/-- The second half of a venue row: its fills, the shell's authority, the verdict. -/
def routeBackfillFills (ctx : OrderCtx) (venueOrderId : VenueOrderId) (status : BackfillOrderStatus)
    (venueFilledQty venueRemainingQty otherMembersFilled memberFilled memberCapacity : Nat)
    (effects : List Effect) (extraFills : List FillRecord)
    (shellAuthorityComplete fromSubmitUnknown : Bool) : TransitionOutcome × OrderCtx :=
  match accountFills (fun _ => none) ctx effects extraFills with
  | .error (reason, effects, ctx) => (haltWithReason reason effects, ctx)
  | .ok (effects, ctx) =>
      let (jr, ctx) := noteAuthorityComplete ctx shellAuthorityComplete
      let effects := pushJournal effects jr
      let effects :=
        if shellAuthorityComplete then
          effects ++ [observedEffect ctx venueOrderId venueFilledQty venueRemainingQty
            otherMembersFilled true]
        else effects
      if memberFilled < ctx.attributedFillQty then
        (haltWithReason
          (.crossCheckMismatch
            (overAttributionText ctx venueFilledQty memberFilled otherMembersFilled)) effects, ctx)
      else
        (routeStatus ctx venueOrderId status venueFilledQty venueRemainingQty memberFilled
          memberCapacity effects shellAuthorityComplete fromSubmitUnknown, ctx)

/-- Take in a venue row: identity, remaining, obligation, fills and, last, the shell's authority. -/
def routeFromBackfillStatus (ctx : OrderCtx) (venueOrderId : VenueOrderId)
    (status : BackfillOrderStatus) (venueFilledQty venueRemainingQty otherMembersFilled : Nat)
    (extraFills : List FillRecord) (shellAuthorityComplete fromSubmitUnknown : Bool) :
    TransitionOutcome × OrderCtx :=
  match backfillMemberQuantities ctx venueFilledQty otherMembersFilled with
  | .error reason => (haltWithReason reason [], ctx)
  | .ok (memberFilled, memberCapacity) =>
      match bindVenueId ctx venueOrderId with
      | .error reason => (haltWithReason reason [], ctx)
      | .ok (bindJr, ctx) =>
          let ctx := ctx.noteVenueRemaining venueRemainingQty
          let effects :=
            pushJournal [] bindJr ++
              [observedEffect ctx venueOrderId venueFilledQty venueRemainingQty otherMembersFilled
                false]
          match noteFillEvidence ctx memberFilled with
          | .error reason => (haltWithReason reason effects, ctx)
          | .ok (jr, ctx) =>
              routeBackfillFills ctx venueOrderId status venueFilledQty venueRemainingQty
                otherMembersFilled memberFilled memberCapacity (pushJournal effects jr) extraFills
                shellAuthorityComplete fromSubmitUnknown

/-- In an exhaustive match every fill has to carry its venue order. -/
def missingVenue (venueOrderId : VenueOrderId) (f : FillRecord) : Option HaltReason :=
  if f.venueOrderId.isNone then
    some (.fillOwnershipMismatch f.fillId venueOrderId ⟨"<missing>"⟩)
  else none

/-- Book the fills of a unique row under its authority, then route by its status. -/
def bookUniqueBackfill (ctx : OrderCtx) (r : BackfillOrderRecord) (effects : List Effect) :
    TransitionOutcome × OrderCtx :=
  match accountFills (missingVenue r.venueOrderId) ctx effects r.fills with
  | .error (reason, effects, ctx) => (haltWithReason reason effects, ctx)
  | .ok (effects, ctx) =>
      let (jr, ctx) := noteAuthorityComplete ctx true
      let (o, ctx) :=
        routeFromBackfillStatus ctx r.venueOrderId r.status r.filledQty r.remainingQty
          r.otherMembersFilled [] true true
      (o.prependEffects (pushJournal effects jr), ctx)

/-- An exhaustive, unique backfill row of this order: bind, take its evidence, book, route. -/
def applyUniqueBackfill (ctx : OrderCtx) (r : BackfillOrderRecord) :
    TransitionOutcome × OrderCtx :=
  match backfillMemberQuantities ctx r.filledQty r.otherMembersFilled with
  | .error reason => (haltWithReason reason [], ctx)
  | .ok (memberFilled, _) =>
      match bindVenueId ctx r.venueOrderId with
      | .error reason => (haltWithReason reason [], ctx)
      | .ok (bindJr, ctx) =>
          let ctx := ctx.noteVenueRemaining r.remainingQty
          let effects :=
            pushJournal [] bindJr ++
              [observedEffect ctx r.venueOrderId r.filledQty r.remainingQty r.otherMembersFilled
                false]
          match noteFillEvidence ctx memberFilled with
          | .error reason => (haltWithReason reason effects, ctx)
          | .ok (jr, ctx) =>
              let effects := pushJournal effects jr
              let (jr, ctx) := noteAuthorityComplete ctx true
              bookUniqueBackfill ctx r (pushJournal effects jr)

def applyUnknownBackfill (ctx : OrderCtx) (exhaustive : Bool) (matched : List BackfillOrderRecord) :
    TransitionOutcome × OrderCtx :=
  match matched with
  | [] =>
      if exhaustive then
        (haltWithReasonState .unknownNoMatch .unknownNoMatch
          [.appendFsync (.unknownNoMatchCid ctx.clientOrderId)], ctx)
      else (accept .submitUnknown [.backfillUnknown ctx.clientOrderId], ctx)
  | [r] =>
      if r.clientOrderId ≠ ctx.clientOrderId then
        (haltWithReason
          (.operator
            s!"backfill client_order_id mismatch: got {r.clientOrderId.id}, expected {ctx.clientOrderId.id}")
          [], ctx)
      else if !exhaustive then
        let effects : List Effect := [.backfillUnknown ctx.clientOrderId]
        let effects :=
          if decide (0 < r.filledQty) && r.fills.isEmpty then
            effects ++ [.backfillFills r.venueOrderId]
          else effects
        (accept .submitUnknown effects, ctx)
      else applyUniqueBackfill ctx r
  | _ :: _ :: _ => (haltWithReason (.ambiguousMatch matched.length) [], ctx)

/-- A reconcile result while a cancel or a reconciliation is pending. -/
def applyReconcileResult (ctx : OrderCtx) (stateVid : VenueOrderId) (status : BackfillOrderStatus)
    (eventVid : Option VenueOrderId) (filledQty remainingQty : Nat) (fills : List FillRecord)
    (authorityComplete : Bool) : TransitionOutcome × OrderCtx :=
  match resolveReconcileVenue ctx stateVid eventVid with
  | .error (reason, bindJr, ctx) => (haltWithReason reason (pushJournal [] bindJr), ctx)
  | .ok (v, bindJr, ctx) =>
      let (o, ctx) :=
        routeFromBackfillStatus ctx v status filledQty remainingQty 0 fills authorityComplete false
      (o.prependEffects (pushJournal [] bindJr), ctx)

/-! ## Cancel -/

def requestCancel (ctx : OrderCtx) (venueOrderId : VenueOrderId)
    (responseFillCount responseAvgPriceCents responseFeeCents : Option Nat) :
    TransitionOutcome × OrderCtx :=
  let (effects, ctx) := authorityInvalidateEffects ctx
  (accept
    (.cancelPending venueOrderId ctx.attributedFillQty ctx.remainingQty responseFillCount
      responseAvgPriceCents responseFeeCents none)
    (effects ++ [.appendFsync (.cancelRequestedCid ctx.clientOrderId)]), ctx)

/-- The response fields a cancel outcome carries over from the state. -/
def carryResponse (ctx : OrderCtx) (effects : List Effect)
    (responseFillCount responseAvg responseFee : Option Nat) :
    Except (HaltReason × OrderCtx) (List Effect × OrderCtx) :=
  let counted : Except (HaltReason × OrderCtx) (List Effect × OrderCtx) :=
    match responseFillCount with
    | none => .ok (effects, ctx)
    | some rc =>
        let ctx := { ctx with responseFillCount := ctx.responseFillCount.or (some rc) }
        match ctx.raiseFillObligation rc with
        | .error reason => .error (reason, ctx)
        | .ok raised => .ok (effects ++ raiseEffects ctx raised, raised)
  match counted with
  | .error e => .error e
  | .ok (effects, ctx) =>
      .ok (effects,
        { ctx with
          responseAvgPriceCents := ctx.responseAvgPriceCents.or responseAvg
          responseFeeCents := ctx.responseFeeCents.or responseFee })

/-- The target a cancel outcome carries over from the state. -/
def carryTarget (ctx : OrderCtx) (effects : List Effect) (target : Option ReconcileTarget) :
    Except (HaltReason × List Effect × OrderCtx) (List Effect × OrderCtx) :=
  match target with
  | none => .ok (effects, ctx)
  | some t =>
      match noteFillEvidence ctx t.venueFilledQty with
      | .error reason => .error (reason, effects, ctx)
      | .ok (jr, ctx) =>
          .ok (pushJournal effects jr,
            match t.venueRemainingQty with
            | some r => ctx.noteVenueRemaining r
            | none => ctx)

/-- The seven ways a cancel can be answered. None of them is authority. -/
def routeCancelOutcome (ctx : OrderCtx) (venueOrderId : VenueOrderId) (filledQty remainingQty : Nat)
    (reconcileTarget : Option ReconcileTarget) (effects : List Effect) (outcome : CancelOutcome) :
    TransitionOutcome :=
  let pending :=
    OrderState.cancelPending venueOrderId filledQty remainingQty ctx.responseFillCount
      ctx.responseAvgPriceCents ctx.responseFeeCents reconcileTarget
  match outcome with
  | .canceled => tryFinalizeTerminal ctx .canceled venueOrderId effects .canceled
  | .alreadyTerminal =>
      tryFinalizeTerminal ctx .terminal venueOrderId effects
        (if 0 < ctx.fillObligation then .filled else .canceled)
  | .accepted => accept pending effects
  | .rejected =>
      if filledQty = 0 ∧ ctx.attributedFillQty = 0 then accept (.accepted venueOrderId) effects
      else
        accept
          (.partialFill venueOrderId (max ctx.attributedFillQty filledQty) ctx.remainingQty) effects
  | .notFound | .transportUnknown | .unknown =>
      accept pending (effects ++ [.reconcileCancel (some venueOrderId)])

def applyCancelOutcome (ctx : OrderCtx) (venueOrderId : VenueOrderId) (filledQty remainingQty : Nat)
    (responseFillCount responseAvg responseFee : Option Nat)
    (reconcileTarget : Option ReconcileTarget) (outcome : CancelOutcome) :
    TransitionOutcome × OrderCtx :=
  let (effects, ctx) := authorityInvalidateEffects ctx
  let effects := effects ++ [.appendFsync (.cancelOutcomeCid ctx.clientOrderId outcome)]
  match carryResponse ctx effects responseFillCount responseAvg responseFee with
  | .error (reason, ctx) => (haltWithReason reason effects, ctx)
  | .ok (effects, ctx) =>
      match carryTarget ctx effects reconcileTarget with
      | .error (reason, effects, ctx) => (haltWithReason reason effects, ctx)
      | .ok (effects, ctx) =>
          match bindVenueId ctx venueOrderId with
          | .error reason => (haltWithReason reason effects, ctx)
          | .ok (jr, ctx) =>
              (routeCancelOutcome ctx venueOrderId filledQty remainingQty reconcileTarget
                (pushJournal effects jr) outcome, ctx)

/-! ## Local closure, own actions, frozen states -/

/-- Any evidence that the order reached the venue contradicts a local closure. -/
def submissionCloseBlocked (ctx : OrderCtx) : Bool :=
  ctx.venueOrderId.isSome || !ctx.appliedFills.isEmpty || decide (0 < ctx.attributedFillQty) ||
  decide (0 < ctx.fillObligation) || ctx.responseFillCount.isSome ||
  ctx.responseRemainingCount.isSome || ctx.responseAvgPriceCents.isSome ||
  ctx.responseFeeCents.isSome || ctx.responseSnapshotBoundary.isSome ||
  ctx.lastVenueRemainingQty.isSome || decide (0 < ctx.attributedNotionalCents) ||
  decide (0 < ctx.attributedFeeCents) || decide (0 < ctx.responseDomainQty) ||
  decide (0 < ctx.responseDomainNotionalCents) || decide (0 < ctx.responseDomainFeeCents) ||
  ctx.authorityComplete

def tryCloseSubmission (ctx : OrderCtx) (reason : SubmissionCloseReason) : TransitionOutcome :=
  if submissionCloseBlocked ctx then
    .reject (.notApplicable
      "submission close contradiction: bound venue, fill evidence, obligation, or create-response present")
  else accept (.submissionClosed reason) []

def ownActionAccept (state : OrderState) (ctx : OrderCtx) (event : OrderEvent) :
    TransitionOutcome :=
  match event with
  | .decreaseObserved remaining tsMs =>
      accept state [.appendFsync (.ownActionCid ctx.clientOrderId (.decrease remaining tsMs))]
  | .amendObserved => accept state [.appendFsync (.ownActionCid ctx.clientOrderId .amend)]
  | _ => rejectIllegal state event

/-- The re-reservation of money that a released order turns out to owe. -/
def reserveIfReleased (state : OrderState) (effects : List Effect) : List Effect :=
  if reservationHeld state = .released then effects ++ [.reserveFull] else effects

/-- On a frozen state late money is still booked, and halts; enrichment is taken in quietly. -/
def restartSafeHandle (state : OrderState) (ctx : OrderCtx) (event : OrderEvent) :
    TransitionOutcome × OrderCtx :=
  match event with
  | .decreaseObserved .. | .amendObserved => (accept state [], ctx)
  | .fill f =>
      match tryAccountFill ctx f with
      | (.noOp, ctx) => (accept state [], ctx)
      | (.halt reason effects, ctx) => (haltWithReason reason (reserveIfReleased state effects), ctx)
      | (.enriched effects, ctx) => (accept state effects, ctx)
      | (.applied effects, ctx) =>
          (haltWithReason .postTerminalFill (reserveIfReleased state effects), ctx)
  | _ =>
      (.reject (.notApplicable
        s!"restart-safe: state \"{stateName state}\" ignores event {eventName event}"), ctx)

/-! ## User-order claims -/

/-- A resting user-order frame claims a submission of unknown outcome without fills. -/
def applyUserOrderRestingClaim (state : OrderState) (ctx : OrderCtx) (venueOrderId : VenueOrderId)
    (remaining : Nat) : TransitionOutcome × OrderCtx :=
  if ctx.attributedFillQty ≠ 0 ∨ remaining ≠ ctx.qty then
    (rejectIllegal state (.userOrderRestingClaim venueOrderId remaining), ctx)
  else
    match bindVenueId ctx venueOrderId with
    | .error reason => (haltWithReason reason [], ctx)
    | .ok (bind, ctx) =>
        (accept (.accepted venueOrderId) (pushJournal [] bind), ctx.noteVenueRemaining remaining)

/-- A terminal user-order frame over a complete fill ledger is authority for this order. -/
def applyUserOrderTerminalClaim (state : OrderState) (ctx : OrderCtx) (venueOrderId : VenueOrderId)
    (filled : Nat) (executed : Bool) : TransitionOutcome × OrderCtx :=
  if ctx.venueOrderId ≠ some venueOrderId ∨ ctx.attributedFillQty ≠ filled ∨
      (executed = true ∧ filled ≠ ctx.qty) ∨ (executed = false ∧ ctx.qty < filled) then
    (rejectIllegal state (.userOrderTerminalClaim venueOrderId filled executed), ctx)
  else
    let (jr, ctx) := noteAuthorityComplete (ctx.noteVenueRemaining 0) true
    (tryFinalizeTerminal ctx (if executed then .filled filled 0 else .canceled) venueOrderId
      (pushJournal [] jr) (if executed then .filled else .canceled), ctx)

/-! ## The dispatch, one handler a state -/

def applySubmitPrepared (event : OrderEvent) : TransitionOutcome :=
  match event with
  | .startSubmit attemptId =>
      accept (.submitStarted attemptId) [.appendFsync (.submitStarted attemptId)]
  | .submitResponse .. =>
      .reject (.orderInvariantViolated
        "SubmitResponse requires SubmitStarted (Started must be fsynced before HTTP/response)")
  | .submitTimeout =>
      .reject (.orderInvariantViolated "SubmitTimeout only valid from SubmitStarted")
  | .prepareSubmit => .reject .alreadyPrepared
  | _ => rejectIllegal .submitPrepared event

def applySubmitStarted (attemptId : AttemptId) (ctx : OrderCtx) (event : OrderEvent) :
    TransitionOutcome × OrderCtx :=
  let state := OrderState.submitStarted attemptId
  match event with
  | .submitResponse venueOrderId fillCount remainingCount avgPriceCents feeCents
      snapshotBoundary =>
      applySubmitResponse ctx venueOrderId fillCount remainingCount avgPriceCents feeCents
        snapshotBoundary
  | .submitTimeout =>
      (accept .submitUnknown
        [.appendFsync (.submitUnknownCid ctx.clientOrderId), .backfillUnknown ctx.clientOrderId],
        ctx)
  | .fill f => applyFillWhileOpen state ctx f
  | .startSubmit _ => (.reject (.orderInvariantViolated "already SubmitStarted"), ctx)
  | .closeSubmission .localNotSent => (tryCloseSubmission ctx .localNotSent, ctx)
  | .closeSubmission .definiteFailure => (tryCloseSubmission ctx .definiteFailure, ctx)
  | _ => (rejectIllegal state event, ctx)

def applySubmitUnknown (ctx : OrderCtx) (event : OrderEvent) : TransitionOutcome × OrderCtx :=
  match event with
  | .unknownBackfillResult exhaustive matched => applyUnknownBackfill ctx exhaustive matched
  | .userOrderRestingClaim venueOrderId remaining =>
      applyUserOrderRestingClaim .submitUnknown ctx venueOrderId remaining
  | .requestResubmit venueIdempotentProven =>
      if venueIdempotentProven then
        (.reject (.notApplicable
          "core never emits resubmit; shell must open a new prepared attempt under proven venue-idempotency policy"),
          ctx)
      else (haltWithReason .unprovenIdempotentResubmit [], ctx)
  | .fill f => applyFillDedupOnly ctx f .submitUnknown
  | .closeSubmission .exhaustiveAbsent => (tryCloseSubmission ctx .exhaustiveAbsent, ctx)
  | _ => (rejectIllegal .submitUnknown event, ctx)

/-- `Accepted` and `Partial`. -/
def applyLive (state : OrderState) (venueOrderId : VenueOrderId) (ctx : OrderCtx)
    (event : OrderEvent) : TransitionOutcome × OrderCtx :=
  match event with
  | .userOrderTerminalClaim v filled executed =>
      applyUserOrderTerminalClaim state ctx v filled executed
  | .fill f => applyFillWhileOpen state ctx f
  | .cancelRequested =>
      requestCancel ctx venueOrderId ctx.responseFillCount ctx.responseAvgPriceCents
        ctx.responseFeeCents
  | .decreaseObserved .. | .amendObserved => (ownActionAccept state ctx event, ctx)
  | _ => (rejectIllegal state event, ctx)

def applyCancelPending (state : OrderState) (venueOrderId : VenueOrderId)
    (filledQty remainingQty : Nat) (responseFillCount responseAvg responseFee : Option Nat)
    (reconcileTarget : Option ReconcileTarget) (ctx : OrderCtx) (event : OrderEvent) :
    TransitionOutcome × OrderCtx :=
  match event with
  | .userOrderTerminalClaim v filled executed =>
      applyUserOrderTerminalClaim state ctx v filled executed
  | .cancelOutcome outcome =>
      applyCancelOutcome ctx venueOrderId filledQty remainingQty responseFillCount responseAvg
        responseFee reconcileTarget outcome
  | .fill f => applyFillWhileOpen state ctx f
  | .reconcileResult status vid filled remaining fills authorityComplete =>
      applyReconcileResult ctx venueOrderId status vid filled remaining fills authorityComplete
  | .cancelRequested => (accept state [], ctx)
  | .decreaseObserved .. | .amendObserved => (ownActionAccept state ctx event, ctx)
  | _ => (rejectIllegal state event, ctx)

def applyReconcilePending (state : OrderState) (venueOrderId : VenueOrderId) (ctx : OrderCtx)
    (event : OrderEvent) : TransitionOutcome × OrderCtx :=
  match event with
  | .userOrderTerminalClaim v filled executed =>
      applyUserOrderTerminalClaim state ctx v filled executed
  | .fill f => applyFillWhileOpen state ctx f
  | .reconcileResult status vid filled remaining fills authorityComplete =>
      applyReconcileResult ctx venueOrderId status vid filled remaining fills authorityComplete
  | .cancelRequested | .cancelOutcome _ => (accept state [], ctx)
  | .decreaseObserved .. | .amendObserved => (ownActionAccept state ctx event, ctx)
  | _ => (rejectIllegal state event, ctx)

def applyImmediateFillUnattributed (state : OrderState) (venueOrderId : VenueOrderId)
    (responseFillCount responseRemainingCount : Nat) (responseAvg responseFee : Option Nat)
    (ctx : OrderCtx) (event : OrderEvent) : TransitionOutcome × OrderCtx :=
  match event with
  | .immediateFillBackfillResult fills =>
      applyImmediateFillBackfill ctx venueOrderId responseFillCount responseRemainingCount
        responseAvg responseFee fills
  | .fill f =>
      applyImmediateFillBackfill ctx venueOrderId responseFillCount responseRemainingCount
        responseAvg responseFee [f]
  | .cancelRequested =>
      requestCancel ctx venueOrderId (some responseFillCount) responseAvg responseFee
  | .decreaseObserved .. | .amendObserved => (ownActionAccept state ctx event, ctx)
  | .backfillDeadlineElapsed =>
      (haltWithReasonState .immediateFillUnresolved .immediateFillUnresolved
        [.appendFsync (.immediateFillUnresolvedCid ctx.clientOrderId)], ctx)
  | _ => (rejectIllegal state event, ctx)

/-- The frozen states: a first close reason stands, an unmatched order may still be closed as absent,
everything else is restart-safe. -/
def applyFrozen (state : OrderState) (ctx : OrderCtx) (event : OrderEvent) :
    TransitionOutcome × OrderCtx :=
  match state, event with
  | .submissionClosed committed, .closeSubmission _ => (accept (.submissionClosed committed) [], ctx)
  | .unknownNoMatch, .closeSubmission .exhaustiveAbsent =>
      (tryCloseSubmission ctx .exhaustiveAbsent, ctx)
  | _, _ => restartSafeHandle state ctx event

/-- One event on one order. -/
def applyEvent (state : OrderState) (ctx : OrderCtx) (event : OrderEvent) :
    TransitionOutcome × OrderCtx :=
  match state with
  | .filled | .canceled | .terminal | .immediateFillUnresolved | .unknownNoMatch | .halted _
  | .submissionClosed _ => applyFrozen state ctx event
  | .new =>
      match event with
      | .prepareSubmit =>
          (accept .submitPrepared [.appendFsync (.submitPrepared ctx.clientOrderId)], ctx)
      | _ => (rejectIllegal .new event, ctx)
  | .submitPrepared => (applySubmitPrepared event, ctx)
  | .submitStarted attemptId => applySubmitStarted attemptId ctx event
  | .submitUnknown => applySubmitUnknown ctx event
  | .accepted v => applyLive state v ctx event
  | .partialFill v _ _ => applyLive state v ctx event
  | .cancelPending v filledQty remainingQty rc avg fee reconcileTarget =>
      applyCancelPending state v filledQty remainingQty rc avg fee reconcileTarget ctx event
  | .reconcilePending v _ _ _ _ _ _ => applyReconcilePending state v ctx event
  | .immediateFillUnattributed v rc remaining avg fee =>
      applyImmediateFillUnattributed state v rc remaining avg fee ctx event

/-! ## Runs of one order -/

structure Order where
  state : OrderState
  ctx : OrderCtx
deriving DecidableEq

/-- An accepted or halting event moves to its new state, a rejected one keeps the state. -/
def stepOrder (o : Order) (event : OrderEvent) : TransitionOutcome × Order :=
  let (out, ctx) := applyEvent o.state o.ctx event
  (out, ⟨out.newState.getD o.state, ctx⟩)

def lifecycle : Machine Order OrderEvent TransitionOutcome := ⟨stepOrder⟩

end Omsrs.Lifecycle
