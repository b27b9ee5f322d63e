import Omsrs.Lifecycle.Ctx

/-!
# Fill accounting

Every fill is booked here, once per `fillId`: a new id adds quantity, notional and fee, a repeated id
may only add a fee or a venue that was missing. The response domain is the part of the booked fills
that the create response's snapshot covers.
-/

namespace Omsrs.Lifecycle
open Omsrs.Lib

inductive AccountAttempt
  | noOp
  | applied (effects : List Effect)
  | enriched (effects : List Effect)
  | halt (reason : HaltReason) (effects : List Effect)
deriving DecidableEq, Repr

def FillRecord.payload (f : FillRecord) : FillPayload where
  qty := f.qty
  priceCents := f.priceCents
  fee := f.feeCents
  venueOrderId := f.venueOrderId
  tsNs := f.tsNs

/-! ## The response domain -/

/-- Only a timestamp boundary decides membership; a sequence boundary is not wired to the fills. -/
def hasReliableBoundary (ctx : OrderCtx) : Bool :=
  match ctx.responseSnapshotBoundary with
  | some (.tsNs _) => true
  | _ => false

def fillInResponseDomain (ctx : OrderCtx) (tsNs : Int) : Bool :=
  match ctx.responseSnapshotBoundary with
  | some (.tsNs boundary) => decide (tsNs ≤ boundary)
  | _ => false

def domainOverfillText (domainQty rc : Nat) : String :=
  s!"response_domain_qty={domainQty} > response_fill_count={rc}"

def responseDomainOverfillDetail (ctx : OrderCtx) : Option String :=
  match ctx.responseFillCount with
  | none => none
  | some rc =>
      if hasReliableBoundary ctx && decide (rc < ctx.responseDomainQty) then
        some (domainOverfillText ctx.responseDomainQty rc)
      else none

def accumulateResponseDomain (ctx : OrderCtx) (qty priceCents : Nat) (feeCents : Option Nat)
    (tsNs : Int) : OrderCtx :=
  if ctx.responseFillCount.isNone then ctx
  else if !hasReliableBoundary ctx then ctx
  else if !fillInResponseDomain ctx tsNs then ctx
  else
    { ctx with
      responseDomainQty := saturatingAdd u64Max ctx.responseDomainQty qty
      responseDomainNotionalCents :=
        saturatingAdd u128Max ctx.responseDomainNotionalCents (qty * priceCents)
      responseDomainFeeCents :=
        match feeCents with
        | some fee => saturatingAdd u64Max ctx.responseDomainFeeCents fee
        | none => ctx.responseDomainFeeCents }

/-- Rebuild the domain from the booked fills, in id order. -/
def recomputeResponseDomain (ctx : OrderCtx) : OrderCtx :=
  let ctx :=
    { ctx with
      responseDomainQty := 0
      responseDomainNotionalCents := 0
      responseDomainFeeCents := 0 }
  if ctx.responseFillCount.isNone || !hasReliableBoundary ctx then ctx
  else
    ctx.appliedFills.values.foldl
      (fun c p => accumulateResponseDomain c p.qty p.priceCents p.fee p.tsNs) ctx

/-! ## Booking -/

/-- Once the parent venue is known, the first sighting of a fill has to name it. -/
def firstSightingMismatch (ctx : OrderCtx) (f : FillRecord) : Option HaltReason :=
  match ctx.venueOrderId with
  | none => none
  | some expected =>
      if ctx.appliedFills.contains f.fillId then none
      else
        match f.venueOrderId with
        | some got =>
            if got = expected then none else some (.fillOwnershipMismatch f.fillId expected got)
        | none => some (.fillOwnershipMismatch f.fillId expected ⟨"<missing>"⟩)

/-- The venue of a repeated fill: `none` may become `some`, nothing else may change. The flag says
whether it did. -/
def upgradeVenue (ctx : OrderCtx) (prev : FillPayload) (f : FillRecord) :
    Except HaltReason (Option VenueOrderId × Bool) :=
  match prev.venueOrderId, f.venueOrderId with
  | none, some v =>
      match ctx.venueOrderId with
      | some bound =>
          if v ≠ bound then .error (.fillOwnershipMismatch f.fillId bound v) else .ok (some v, true)
      | none => .ok (some v, true)
  | some old, some new =>
      if old ≠ new then .error (.conflictingFillPayload f.fillId) else .ok (some old, false)
  | some _, none => .error (.conflictingFillPayload f.fillId)
  | none, none => .ok (none, false)

/-- The fee of a repeated fill: `none` may become `some`, which corrects the totals. -/
def upgradeFee (ctx : OrderCtx) (prev : FillPayload) (f : FillRecord) :
    Except HaltReason (Option Nat × Bool × List Effect × OrderCtx) :=
  match prev.fee, f.feeCents with
  | none, some fee =>
      match checkedAdd u64Max ctx.attributedFeeCents fee with
      | none => .error (.feeOverflow f.fillId)
      | some newFeeTotal =>
          let ctx :=
            if fillInResponseDomain ctx prev.tsNs && ctx.responseFillCount.isSome then
              { ctx with
                responseDomainFeeCents := saturatingAdd u64Max ctx.responseDomainFeeCents fee }
            else ctx
          .ok (some fee, true,
            [.appendFsync (.feeCorrection f.fillId fee), .accountFeeCorrection f.fillId fee],
            { ctx with attributedFeeCents := newFeeTotal })
  | some a, some b =>
      if a ≠ b then .error (.conflictingFillPayload f.fillId) else .ok (some a, false, [], ctx)
  | some _, none => .error (.conflictingFillPayload f.fillId)
  | none, none => .ok (none, false, [], ctx)

/-- A fill whose id is already booked with payload `prev`. -/
def redeliverFill (ctx : OrderCtx) (prev : FillPayload) (f : FillRecord) :
    AccountAttempt × OrderCtx :=
  if prev = f.payload then (.noOp, ctx)
  else if prev.qty ≠ f.qty ∨ prev.priceCents ≠ f.priceCents then
    (.halt (.conflictingFillPayload f.fillId) [], ctx)
  else
    match upgradeVenue ctx prev f with
    | .error reason => (.halt reason [], ctx)
    | .ok (venue, venueChanged) =>
        match upgradeFee ctx prev f with
        | .error reason => (.halt reason [], ctx)
        | .ok (fee, feeChanged, feeEffects, ctx') =>
            if !(venueChanged || feeChanged) then
              -- equal economics under another timestamp: the first one stays
              if prev.tsNs ≠ f.tsNs ∧ prev.fee = f.feeCents ∧ prev.venueOrderId = f.venueOrderId then
                (.noOp, ctx')
              else (.halt (.conflictingFillPayload f.fillId) [], ctx')
            else
              let upgraded := { prev with fee := fee, venueOrderId := venue }
              let record : FillRecord :=
                { f with tsNs := prev.tsNs, feeCents := fee, venueOrderId := venue }
              (.enriched (.appendFsync (fillJournalRecord ctx'.clientOrderId record) :: feeEffects),
                { ctx' with appliedFills := ctx'.appliedFills.insert f.fillId upgraded })

def fillEffects (ctx : OrderCtx) (f : FillRecord) : List Effect :=
  [.appendFsync (fillJournalRecord ctx.clientOrderId f),
    .accountFill f.fillId f.qty f.priceCents f.tsNs (f.feeCents.getD 0)]

/-- The context that holds the new fill, before obligation, authority and response domain follow. -/
def insertFill (ctx : OrderCtx) (f : FillRecord) (newAttr newFeeTotal : Nat) : OrderCtx :=
  { ctx with
    appliedFills := ctx.appliedFills.insert f.fillId f.payload
    attributedFillQty := newAttr
    attributedNotionalCents :=
      saturatingAdd u128Max ctx.attributedNotionalCents (f.qty * f.priceCents)
    attributedFeeCents := newFeeTotal }

/-- The tail of a live booking: a snapshot that counts less than its own domain halts, after the fill
and its records are in. -/
def settleDomain (ctx : OrderCtx) (f : FillRecord) (effects : List Effect) :
    AccountAttempt × OrderCtx :=
  let ctx := accumulateResponseDomain ctx f.qty f.priceCents f.feeCents f.tsNs
  match responseDomainOverfillDetail ctx with
  | some detail => (.halt (.crossCheckMismatch detail) effects, ctx)
  | none => (.applied effects, ctx)

/-- A fill whose id is new. In restore mode (the journal fold) the epoch is left to its records. -/
def bookFill (ctx : OrderCtx) (f : FillRecord) (restoreMode : Bool) : AccountAttempt × OrderCtx :=
  match checkedAdd u64Max ctx.attributedFillQty f.qty with
  | none => (.halt (.overFill ctx.attributedFillQty f.qty ctx.qty) [], ctx)
  | some newAttr =>
      if ctx.qty < newAttr then (.halt (.overFill ctx.attributedFillQty f.qty ctx.qty) [], ctx)
      else
        match checkedAdd u64Max ctx.attributedFeeCents (f.feeCents.getD 0) with
        | none => (.halt (.feeOverflow f.fillId) [], ctx)
        | some newFeeTotal =>
            let ctx := insertFill ctx f newAttr newFeeTotal
            if restoreMode then
              match restoreFillObligation ctx newAttr with
              | .error reason => (.halt reason [], ctx)
              | .ok ctx =>
                  (.applied [], accumulateResponseDomain ctx f.qty f.priceCents f.feeCents f.tsNs)
            else
              let ctx := ctx.invalidateAuthority
              let effects : List Effect := [.appendFsync (.authorityInvalidated ctx.authorityEpoch)]
              match noteFillEvidence ctx newAttr with
              | .error reason => (.halt reason (effects ++ fillEffects ctx f), ctx)
              | .ok (jr, ctx) => settleDomain ctx f (pushJournal effects jr ++ fillEffects ctx f)

def accountFillCore (ctx : OrderCtx) (f : FillRecord) (restoreMode : Bool) :
    AccountAttempt × OrderCtx :=
  match firstSightingMismatch ctx f with
  | some reason => (.halt reason [], ctx)
  | none =>
      match ctx.appliedFills.get? f.fillId with
      | some prev => redeliverFill ctx prev f
      | none => bookFill ctx f restoreMode

def tryAccountFill (ctx : OrderCtx) (f : FillRecord) : AccountAttempt × OrderCtx :=
  accountFillCore ctx f false

def tryAccountFillForFold (ctx : OrderCtx) (f : FillRecord) : AccountAttempt × OrderCtx :=
  accountFillCore ctx f true

/-- The loop over the fills of a backfill: effects gather until a fill is refused by `refuse` or
halts. -/
def accountFills (refuse : FillRecord → Option HaltReason) (ctx : OrderCtx)
    (effects : List Effect) :
    List FillRecord → Except (HaltReason × List Effect × OrderCtx) (List Effect × OrderCtx)
  | [] => .ok (effects, ctx)
  | f :: fills =>
      match refuse f with
      | some reason => .error (reason, effects, ctx)
      | none =>
          match tryAccountFill ctx f with
          | (.noOp, ctx) => accountFills refuse ctx effects fills
          | (.applied e, ctx) | (.enriched e, ctx) => accountFills refuse ctx (effects ++ e) fills
          | (.halt reason e, ctx) => .error (reason, effects ++ e, ctx)

end Omsrs.Lifecycle
