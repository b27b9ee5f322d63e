import Mathlib.Data.String.Basic
import Omsrs.Lib.OrdMap

/-!
# Identities, states, events and effects of one order
-/

namespace Omsrs.Lifecycle

/-! ## Identities -/

/-- The client's order id, the recovery key of a submission with an unknown outcome. -/
structure ClientOrderId where
  id : String
deriving DecidableEq, Repr

structure VenueOrderId where
  id : String
deriving DecidableEq, Repr

/-- The authoritative fill id; quantities are booked by this key only. -/
structure FillId where
  id : String
deriving DecidableEq, Repr

structure AttemptId where
  id : String
deriving DecidableEq, Repr

instance : LinearOrder ClientOrderId :=
  .lift' ClientOrderId.id fun a b h => by cases a; cases b; simp_all

instance : LinearOrder VenueOrderId :=
  .lift' VenueOrderId.id fun a b h => by cases a; cases b; simp_all

instance : LinearOrder FillId := .lift' FillId.id fun a b h => by cases a; cases b; simp_all

inductive Side
  | buyYes
  | sellYes
deriving DecidableEq, Repr

/-! ## Order state -/

/-- Why a submission was closed locally. It says nothing about the venue. -/
inductive SubmissionCloseReason
  | localNotSent
  | definiteFailure
  | exhaustiveAbsent
deriving DecidableEq, Repr

inductive ReconcileTerminal
  | canceled
  | filled
  | terminal
deriving DecidableEq, Repr

/-- The venue's terminal intent, kept while the attribution catches up with `venueFilledQty`. -/
structure ReconcileTarget where
  terminal : ReconcileTerminal
  venueFilledQty : Nat
  venueRemainingQty : Option Nat
deriving DecidableEq, Repr

inductive HaltReason
  | immediateFillCrossCheckMismatch (responseFillCount attributedFillQty responseRemainingCount
      impliedRemaining : Nat)
  | crossCheckMismatch (detail : String)
  | immediateFillUnresolved
  | unknownNoMatch
  | unprovenIdempotentResubmit
  | postTerminalFill
  | overFill (attributedFillQty fillQty orderQty : Nat)
  | responseZeroButLocalFills (attributedFillQty remainingCount : Nat)
  | ambiguousMatch (count : Nat)
  | conflictingFillPayload (fillId : FillId)
  | feeArrivedAfterNone (fillId : FillId)
  | feeOverflow (fillId : FillId)
  | fillOwnershipMismatch (fillId : FillId) (expected got : VenueOrderId)
  | ownershipConflict (expected got : VenueOrderId)
  | obligationExceedsOrderQty (fillObligation orderQty : Nat)
  | unverifiedFillProvenance (fillId : FillId)
  | operator (detail : String)
deriving DecidableEq, Repr

inductive RejectReason
  | illegalTransition (state event : String)
  | orderInvariantViolated (detail : String)
  | alreadyPrepared
  | notApplicable (detail : String)
deriving DecidableEq, Repr

/-- The lifecycle state of one order. -/
inductive OrderState
  | new
  | submitPrepared
  | submitStarted (attemptId : AttemptId)
  | submitUnknown
  | accepted (venueOrderId : VenueOrderId)
  | partialFill (venueOrderId : VenueOrderId) (filledQty remainingQty : Nat)
  | filled
  | cancelPending (venueOrderId : VenueOrderId) (filledQty remainingQty : Nat)
      (responseFillCount responseAvgPriceCents responseFeeCents : Option Nat)
      (reconcileTarget : Option ReconcileTarget)
  | reconcilePending (venueOrderId : VenueOrderId) (filledQty remainingQty : Nat)
      (target : ReconcileTarget)
      (responseFillCount responseAvgPriceCents responseFeeCents : Option Nat)
  | canceled
  | terminal
  | immediateFillUnattributed (venueOrderId : VenueOrderId)
      (responseFillCount responseRemainingCount : Nat)
      (responseAvgPriceCents responseFeeCents : Option Nat)
  | immediateFillUnresolved
  | unknownNoMatch
  | halted (reason : HaltReason)
  | submissionClosed (reason : SubmissionCloseReason)
deriving DecidableEq, Repr

/-! ## Events -/

/-- The typed answer to a cancel request. -/
inductive CancelOutcome
  | canceled
  | accepted
  | notFound
  | alreadyTerminal
  | rejected
  | transportUnknown
  | unknown
deriving DecidableEq, Repr

/-- What is stored of a fill when it is first seen. -/
structure FillPayload where
  qty : Nat
  priceCents : Nat
  fee : Option Nat
  venueOrderId : Option VenueOrderId
  tsNs : Int
deriving DecidableEq, Repr

/-- How far the create response's snapshot of the fills reaches. -/
inductive SnapshotBoundary
  | tsNs (ts : Int)
  | seq (n : Nat)
deriving DecidableEq, Repr

structure FillRecord where
  fillId : FillId
  qty : Nat
  priceCents : Nat
  tsNs : Int
  venueOrderId : Option VenueOrderId
  feeCents : Option Nat
deriving DecidableEq, Repr

inductive BackfillOrderStatus
  | openOrder
  | partialFill
  | filled
  | canceled
deriving DecidableEq, Repr

/-- An order row of a backfill. Its quantities are the venue's, over all members of the wire. -/
structure BackfillOrderRecord where
  clientOrderId : ClientOrderId
  venueOrderId : VenueOrderId
  status : BackfillOrderStatus
  filledQty : Nat
  remainingQty : Nat
  otherMembersFilled : Nat
  fills : List FillRecord
deriving DecidableEq, Repr

inductive OrderEvent
  | prepareSubmit
  | startSubmit (attemptId : AttemptId)
  | submitResponse (venueOrderId : VenueOrderId) (fillCount remainingCount : Nat)
      (avgPriceCents feeCents : Option Nat) (snapshotBoundary : Option SnapshotBoundary)
  | submitTimeout
  | userOrderRestingClaim (venueOrderId : VenueOrderId) (remaining : Nat)
  | userOrderTerminalClaim (venueOrderId : VenueOrderId) (filled : Nat) (executed : Bool)
  | fill (f : FillRecord)
  | cancelRequested
  | cancelOutcome (outcome : CancelOutcome)
  | unknownBackfillResult (exhaustive : Bool) (matched : List BackfillOrderRecord)
  | immediateFillBackfillResult (fills : List FillRecord)
  | backfillDeadlineElapsed
  | requestResubmit (venueIdempotentProven : Bool)
  | reconcileResult (status : BackfillOrderStatus) (venueOrderId : Option VenueOrderId)
      (filledQty remainingQty : Nat) (fills : List FillRecord) (authorityComplete : Bool)
  | decreaseObserved (remaining : Nat) (tsMs : Int)
  | amendObserved
  | closeSubmission (reason : SubmissionCloseReason)
deriving DecidableEq, Repr

/-- The fills an event carries. -/
def OrderEvent.fills : OrderEvent → List FillRecord
  | .fill f => [f]
  | .unknownBackfillResult _ matched => matched.flatMap (·.fills)
  | .immediateFillBackfillResult fills | .reconcileResult _ _ _ _ fills _ => fills
  | _ => []

/-! ## Journal records and effects -/

inductive OwnActionKind
  | decrease (remaining : Nat) (tsMs : Int)
  | amend
deriving DecidableEq, Repr

inductive TerminalKind
  | filled
  | canceled
  | terminal
deriving DecidableEq, Repr

/-- The journal records of one order's own transitions. The records that carry whole transactions
(`OrderTxn`, `ExecutionTxn`, `ObservationTxn` and the wire records) wrap these and are modelled with
the transactions; the fold of this module passes over them. -/
inductive JournalRecord
  | submitPrepared (clientOrderId : ClientOrderId)
  | submitStarted (attemptId : AttemptId)
  | submitResponse (venueOrderId : VenueOrderId) (fillCount remainingCount : Nat)
      (avgPriceCents feeCents : Option Nat) (snapshotBoundary : Option SnapshotBoundary)
  | submitUnknown
  | submitUnknownCid (clientOrderId : ClientOrderId)
  | fill (f : FillRecord)
  | fillCid (clientOrderId : ClientOrderId) (f : FillRecord)
  | feeCorrection (fillId : FillId) (deltaFeeCents : Nat)
  | cancelRequested
  | cancelOutcome (outcome : CancelOutcome)
  | cancelRequestedCid (clientOrderId : ClientOrderId)
  | cancelOutcomeCid (clientOrderId : ClientOrderId) (outcome : CancelOutcome)
  | venueBoundCid (clientOrderId : ClientOrderId) (venueOrderId : VenueOrderId)
  | immediateFillUnattributed (venueOrderId : VenueOrderId) (fillCount remainingCount : Nat)
      (avgPriceCents feeCents : Option Nat)
  | immediateFillUnresolved
  | immediateFillUnresolvedCid (clientOrderId : ClientOrderId)
  | unknownNoMatch
  | unknownNoMatchCid (clientOrderId : ClientOrderId)
  | halted (reason : HaltReason)
  | venueBound (venueOrderId : VenueOrderId)
  | obligationRaised (fillObligation authorityEpoch : Nat)
  | authorityLatched (epoch : Nat)
  | authorityInvalidated (epoch : Nat)
  | reconcileObserved (venueOrderId : VenueOrderId) (venueFilledQty venueRemainingQty
      otherMembersFilled : Nat) (shellAuthorityComplete : Bool) (authorityEpoch : Nat)
  | orderTerminal (kind : TerminalKind) (venueOrderId : Option VenueOrderId) (fillObligation : Nat)
      (authorityComplete : Bool) (authorityEpoch attributedFillQty attributedFeeCents : Nat)
  | ownActionCid (clientOrderId : ClientOrderId) (kind : OwnActionKind)
deriving DecidableEq, Repr

/-- The verdict of an observation round over a wire. -/
inductive ObservationOutcome
  | conflict
  | incomplete
  | notCovered
  | rowInconsistent
  | consistent (remainingFresh : Bool)
deriving DecidableEq, Repr

/-- What a transition asks of the shell. No effect is performed here. -/
inductive Effect
  | appendFsync (r : JournalRecord)
  | backfillFills (venueOrderId : VenueOrderId)
  | backfillUnknown (clientOrderId : ClientOrderId)
  | reconcileCancel (venueOrderId : Option VenueOrderId)
  | requestAuthorityReconcile (venueOrderId : Option VenueOrderId) (clientOrderId : ClientOrderId)
  | accountFill (fillId : FillId) (qty priceCents : Nat) (tsNs : Int) (feeCents : Nat)
  | accountFeeCorrection (fillId : FillId) (deltaFeeCents : Nat)
  | releaseReservation
  | reserveFull
  | haltNewExposure
  | observation (outcome : ObservationOutcome)
deriving DecidableEq, Repr

/-- The record of a booked fill; the client id is that of the order it was booked to. -/
def fillJournalRecord (clientOrderId : ClientOrderId) (f : FillRecord) : JournalRecord :=
  .fillCid clientOrderId f

/-! ## Reservation -/

inductive ReservationHold
  | full
  | released
deriving DecidableEq, Repr

/-- The reservation is released on the true terminals and on a closed submission only. -/
def reservationHeld : OrderState → ReservationHold
  | .canceled | .filled | .terminal | .submissionClosed _ => .released
  | .new | .submitPrepared | .submitStarted _ | .submitUnknown | .accepted _ | .partialFill ..
  | .cancelPending .. | .reconcilePending .. | .immediateFillUnattributed ..
  | .immediateFillUnresolved | .unknownNoMatch | .halted _ => .full

/-- A frozen state answers further events without new I/O, late fills apart. -/
def isRestartFrozen : OrderState → Bool
  | .filled | .canceled | .terminal | .immediateFillUnresolved | .unknownNoMatch | .halted _
  | .submissionClosed _ => true
  | _ => false

/-! ## Outcomes -/

inductive TransitionOutcome
  | accept (newState : OrderState) (effects : List Effect)
  | reject (reason : RejectReason)
  | halt (newState : OrderState) (reason : HaltReason) (effects : List Effect)
deriving DecidableEq, Repr

namespace TransitionOutcome

def effects : TransitionOutcome → List Effect
  | accept _ fx | halt _ _ fx => fx
  | reject _ => []

def newState : TransitionOutcome → Option OrderState
  | accept s _ | halt s _ _ => some s
  | reject _ => none

def isReject : TransitionOutcome → Bool
  | reject _ => true
  | _ => false

def isHalt : TransitionOutcome → Bool
  | halt .. => true
  | _ => false

def prependEffects (pre : List Effect) : TransitionOutcome → TransitionOutcome
  | accept s fx => accept s (pre ++ fx)
  | halt s reason fx => halt s reason (pre ++ fx)
  | reject reason => reject reason

end TransitionOutcome

def stateName : OrderState → String
  | .new => "New"
  | .submitPrepared => "SubmitPrepared"
  | .submitStarted _ => "SubmitStarted"
  | .submitUnknown => "SubmitUnknown"
  | .accepted _ => "Accepted"
  | .partialFill .. => "Partial"
  | .filled => "Filled"
  | .cancelPending .. => "CancelPending"
  | .reconcilePending .. => "ReconcilePending"
  | .canceled => "Canceled"
  | .terminal => "Terminal"
  | .immediateFillUnattributed .. => "ImmediateFillUnattributed"
  | .immediateFillUnresolved => "ImmediateFillUnresolved"
  | .unknownNoMatch => "UnknownNoMatch"
  | .halted _ => "Halted"
  | .submissionClosed _ => "SubmissionClosed"

def eventName : OrderEvent → String
  | .prepareSubmit => "PrepareSubmit"
  | .startSubmit _ => "StartSubmit"
  | .submitResponse .. => "SubmitResponse"
  | .submitTimeout => "SubmitTimeout"
  | .userOrderRestingClaim .. => "UserOrderRestingClaim"
  | .userOrderTerminalClaim .. => "UserOrderTerminalClaim"
  | .fill _ => "Fill"
  | .cancelRequested => "CancelRequested"
  | .cancelOutcome _ => "CancelOutcome"
  | .unknownBackfillResult .. => "UnknownBackfillResult"
  | .immediateFillBackfillResult _ => "ImmediateFillBackfillResult"
  | .backfillDeadlineElapsed => "BackfillDeadlineElapsed"
  | .requestResubmit _ => "RequestResubmit"
  | .reconcileResult .. => "ReconcileResult"
  | .decreaseObserved .. => "DecreaseObserved"
  | .amendObserved => "AmendObserved"
  | .closeSubmission _ => "CloseSubmission"

end Omsrs.Lifecycle
