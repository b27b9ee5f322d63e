import Omsrs.Lifecycle.Account

/-!
# Halts and true terminals

`tryFinalizeTerminal` is the only place that releases the reservation. It reads the context alone;
when a gate fails the order waits in `reconcilePending`, when the evidence contradicts itself it
halts.
-/

namespace Omsrs.Lifecycle
open Omsrs.Lib

def accept (newState : OrderState) (effects : List Effect) : TransitionOutcome :=
  .accept newState effects

def rejectIllegal (state : OrderState) (event : OrderEvent) : TransitionOutcome :=
  .reject (.illegalTransition (stateName state) (eventName event))

/-- Every halt appends its reason and blocks new exposure. -/
def haltWithReason (reason : HaltReason) (prior : List Effect) : TransitionOutcome :=
  .halt (.halted reason) reason (prior ++ [.appendFsync (.halted reason), .haltNewExposure])

def isHaltedJournal : Effect → Bool
  | .appendFsync (.halted _) | .appendFsync (.immediateFillUnresolvedCid _)
  | .appendFsync (.unknownNoMatchCid _) => true
  | _ => false

/-- Halt into a specific state; a specialised record already in `prior` stands for the reason. -/
def haltWithReasonState (newState : OrderState) (reason : HaltReason) (prior : List Effect) :
    TransitionOutcome :=
  let prior :=
    if prior.any isHaltedJournal then prior else prior ++ [.appendFsync (.halted reason)]
  let prior :=
    if prior.any (· = .haltNewExposure) then prior else prior ++ [.haltNewExposure]
  .halt newState reason prior

/-! ## Cross-checks against the create response -/

/-- The notional has to match `avg · count` up to one cent a contract. -/
def notionalAvgMismatch (attributedNotional responseAvg fillCount : Nat) : Option String :=
  if fillCount = 0 then none
  else
    let expected := responseAvg * fillCount
    let tol := fillCount
    let diff :=
      if expected ≤ attributedNotional then attributedNotional - expected
      else expected - attributedNotional
    if tol < diff then
      some s!"avg/notional mismatch: response_avg={responseAvg} fill_count={fillCount} expected_notional={expected} attributed_notional={attributedNotional} tol=±{tol}"
    else none

def feeCrossCheckMismatch (responseFee : Option Nat) (attributedFee : Nat) : Option String :=
  match responseFee with
  | none => none
  | some resp =>
      if resp ≠ attributedFee then
        some s!"fee mismatch: response_fee_cents={resp} attributed_fee_cents={attributedFee}"
      else none

/-! ## The terminal gate -/

inductive ProposedTerminal
  | filled (venueAuthoritativeFilled venueRemainingQty : Nat)
  | canceled
  | terminal
deriving DecidableEq, Repr

namespace ProposedTerminal

def kind : ProposedTerminal → TerminalKind
  | filled .. => .filled
  | canceled => .canceled
  | terminal => .terminal

def state : ProposedTerminal → OrderState
  | filled .. => .filled
  | canceled => .canceled
  | terminal => .terminal

/-- The remaining quantity kept in the fallback target. -/
def venueRemaining (ctx : OrderCtx) : ProposedTerminal → Option Nat
  | filled _ venueRemainingQty => some venueRemainingQty
  | _ => ctx.lastVenueRemainingQty

end ProposedTerminal

/-- Wait for more evidence: backfill what is missing and ask for authority where that is what lacks. -/
def notReadyForTerminal (ctx : OrderCtx) (venueOrderId : VenueOrderId) (effects : List Effect)
    (fallbackTerminal : ReconcileTerminal) (requestAuthority : Bool)
    (venueRemainingQty : Option Nat) : TransitionOutcome :=
  let targetQty := max ctx.fillObligation ctx.attributedFillQty
  let venueRemainingQty := venueRemainingQty.or ctx.lastVenueRemainingQty
  let effects :=
    if ctx.attributedFillQty < ctx.fillObligation then effects ++ [.backfillFills venueOrderId]
    else effects
  let effects :=
    if requestAuthority || decide (ctx.fillObligation ≤ ctx.attributedFillQty) then
      let effects :=
        effects ++ [.requestAuthorityReconcile (some venueOrderId) ctx.clientOrderId]
      if requestAuthority && !effects.any (fun e => e matches .reconcileCancel _) then
        effects ++ [.reconcileCancel (some venueOrderId)]
      else effects
    else effects
  accept
    (.reconcilePending venueOrderId ctx.attributedFillQty ctx.remainingQty
      ⟨fallbackTerminal, targetQty, venueRemainingQty⟩ ctx.responseFillCount
      ctx.responseAvgPriceCents ctx.responseFeeCents)
    effects

/-- What the ownership gate finds first, in id order: a fill of another venue order, or a fill whose
venue is not known. -/
def ownershipBlock (expected : VenueOrderId) (fills : List (FillId × FillPayload)) :
    Option (Option HaltReason) :=
  fills.findSome? fun (fid, p) =>
    match p.venueOrderId with
    | some got => if got = expected then none else some (some (.fillOwnershipMismatch fid expected got))
    | none => some none

/-- The answer of a gate that does not pass. -/
inductive GateFailure
  | halt (reason : HaltReason)
  | notReady (backfill requestAuthority : Bool)
deriving DecidableEq, Repr

/-- Gate 5: every booked fill carries the bound venue. -/
def ownershipGate (ctx : OrderCtx) : Option GateFailure :=
  match ctx.venueOrderId with
  | none => none
  | some expected =>
      match ownershipBlock expected ctx.appliedFills.entries with
      | none => none
      | some (some reason) => some (.halt reason)
      | some none => some (.notReady true true)

/-- Gate 3: with a reliable boundary the response domain is closed and agrees with the response. -/
def responseDomainGate (ctx : OrderCtx) : Option GateFailure :=
  match ctx.responseFillCount with
  | none => none
  | some rc =>
      if hasReliableBoundary ctx then
        if ctx.responseDomainQty < rc then some (.notReady true true)
        else if rc < ctx.responseDomainQty then
          some (.halt (.crossCheckMismatch (domainOverfillText ctx.responseDomainQty rc)))
        else
          match ctx.responseAvgPriceCents.bind
              (notionalAvgMismatch ctx.responseDomainNotionalCents · rc) with
          | some detail => some (.halt (.crossCheckMismatch detail))
          | none =>
              match feeCrossCheckMismatch ctx.responseFeeCents ctx.responseDomainFeeCents with
              | some detail => some (.halt (.crossCheckMismatch detail))
              | none => none
      else none

/-- Gates 1, 2, 3 and 5 in the order they are tried: ownership, fresh authority, attribution equal to
the obligation, response domain. -/
def finalizeGate (ctx : OrderCtx) : Option GateFailure :=
  match ownershipGate ctx with
  | some failure => some failure
  | none =>
      if !ctx.authorityIsFresh then some (.notReady false true)
      else if ctx.attributedFillQty ≠ ctx.fillObligation then some (.notReady false false)
      else responseDomainGate ctx

/-- The unique release site. -/
def releaseTerminal (ctx : OrderCtx) (proposed : ProposedTerminal) (effects : List Effect) :
    TransitionOutcome :=
  accept proposed.state
    (effects ++
      [.appendFsync (.orderTerminal proposed.kind ctx.venueOrderId ctx.fillObligation
          ctx.authorityIsFresh ctx.authorityEpoch ctx.attributedFillQty ctx.attributedFeeCents),
        .releaseReservation])

/-- Gate 4, for `Filled` only: the venue and the attribution both cover the whole order. -/
def finalizeFilled (ctx : OrderCtx) (venueOrderId : VenueOrderId) (effects : List Effect)
    (venueAuthoritativeFilled venueRemainingQty : Nat) : TransitionOutcome :=
  if ctx.qty < venueAuthoritativeFilled then
    haltWithReason
      (.overFill ctx.attributedFillQty (venueAuthoritativeFilled - ctx.attributedFillQty) ctx.qty)
      effects
  else
    match ctx.remainingQtyChecked with
    | none => haltWithReason (.overFill ctx.attributedFillQty 0 ctx.qty) effects
    | some remaining =>
        if venueAuthoritativeFilled ≠ ctx.qty ∨ venueRemainingQty ≠ 0 ∨ remaining ≠ 0 then
          if ctx.qty < ctx.attributedFillQty then
            haltWithReason (.overFill ctx.attributedFillQty 0 ctx.qty) effects
          else
            notReadyForTerminal ctx venueOrderId effects .filled false (some venueRemainingQty)
        else releaseTerminal ctx (.filled venueAuthoritativeFilled venueRemainingQty) effects

def tryFinalizeTerminal (ctx : OrderCtx) (proposed : ProposedTerminal)
    (venueOrderId : VenueOrderId) (effects : List Effect) (fallbackTerminal : ReconcileTerminal) :
    TransitionOutcome :=
  match finalizeGate ctx with
  | some (.halt reason) => haltWithReason reason effects
  | some (.notReady backfill requestAuthority) =>
      let effects := if backfill then effects ++ [.backfillFills venueOrderId] else effects
      notReadyForTerminal ctx venueOrderId effects fallbackTerminal requestAuthority
        (proposed.venueRemaining ctx)
  | none =>
      match proposed with
      | .filled venueAuthoritativeFilled venueRemainingQty =>
          finalizeFilled ctx venueOrderId effects venueAuthoritativeFilled venueRemainingQty
      | _ => releaseTerminal ctx proposed effects

end Omsrs.Lifecycle
