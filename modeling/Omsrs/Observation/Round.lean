import Omsrs.Execution.Prepare
import Omsrs.Observation.Registry

/-!
# Observation rounds

A round collects the executions the venue listed for a wire, and closes with the row the venue gave of
it. The verdict compares what was listed, what the wire holds and what the row reports; it decides what
becomes of the members and of the wire. The result is a transaction, applied like the others to what it
was prepared from.
-/

namespace Omsrs.Observation
open Omsrs.Lib Omsrs.Lifecycle Omsrs.Execution

inductive RoundError
  | foreignRow
  | membersInvalid (missing extra duplicate mismatched : List ClientOrderId)
  /-- The next sequence number does not fit its word; the source's addition panics. -/
  | sequenceOverflow
deriving DecidableEq, Repr

inductive ObservationApplyMismatch
  | wireGeneration (expected found : Nat)
  | targets (expected found : List ClientOrderId)
  | member (mismatch : ApplyMismatch)
deriving DecidableEq, Repr

structure ObservationRound where
  ledger : LedgerId
  wire : VenueOrderId
  outcomes : List ExecutionOutcome
  page : Option PageMeta
deriving DecidableEq

/-- The transaction of a round. Its members are expected to be what they were at `preparedMembers`. -/
structure ObservationTransaction where
  outcome : ObservationOutcome
  journal : Option Record
  effects : List Effect
  preparedMembers : List OrderRow
  expectedInventoryGeneration : Nat
  expectedWireGeneration : Nat
  ledger : LedgerId
  wire : VenueOrderId
  membersAfter : List MemberAfter
  wireAfter : WireState
deriving DecidableEq

/-! ## The members of a round -/

/-- The ids that came before, in the order of their repetitions. -/
def duplicates (seen : List ClientOrderId) : List ClientOrderId → List ClientOrderId
  | [] => []
  | cid :: cids => if cid ∈ seen then cid :: duplicates seen cids else duplicates (cid :: seen) cids

def memberMismatched (ledger : LedgerId) (row : OrderRow) : Bool :=
  decide (row.ledger ≠ ledger) || decide (row.ctx.market ≠ ledger.market) ||
    decide (row.ledger.market ≠ ledger.market)

/-- The rows are those of the members that are not over, each once and on this ledger. -/
def checkMembers (ledger : LedgerId) (ws : WireState) (members : List OrderRow) :
    Except RoundError Unit :=
  let expected := ws.nonTerminalCids
  let found := members.map (·.ctx.clientOrderId)
  let missing := expected.filter (· ∉ found)
  let extra := found.filter (· ∉ expected)
  let duplicate := duplicates [] found
  let mismatched := (members.filter (memberMismatched ledger)).map (·.ctx.clientOrderId)
  if missing = [] ∧ extra = [] ∧ duplicate = [] ∧ mismatched = [] then .ok ()
  else .error (.membersInvalid missing extra duplicate mismatched)

/-! ## The verdict -/

def isConflict : InventoryDisposition → Bool
  | .conflict _ => true
  | _ => false

/-- An outcome stands for a listed execution where it has an entry, or contradicts one. -/
def listed (o : ExecutionOutcome) : Bool :=
  decide (o.order ≠ .ignored .zeroQty) &&
    (o.entryAfter.isSome || isConflict o.inventory)

def pageIds (outcomes : List ExecutionOutcome) : FillSet :=
  outcomes.foldl
    (fun p o => if listed o then p.insert o.evidence.executionId () else p) .empty

def hasConflict (outcomes : List ExecutionOutcome) : Bool :=
  outcomes.any fun o => isConflict o.inventory || o.conflict.isSome

def pageComplete : Option PageMeta → Bool
  | some p => p.exhaustive && decide (p.parseFailures = 0)
  | none => false

/-- The highest filled quantity the venue reported of the wire. -/
def venueFilled (ws : WireState) (row : RowEvidence) : Nat := max ws.filledHw row.filled

/-- The row's remaining quantity is of this generation and of what the wire holds. -/
def remainingFresh (ws : WireState) (inv : MarketInventory) (row : RowEvidence) : Bool :=
  decide (row.filled = ws.heldQty inv) && decide (ws.generation = 0) && decide (row.marker = 0)

def verdict (round : ObservationRound) (ws : WireState) (inv : MarketInventory) (row : RowEvidence) :
    ObservationOutcome :=
  if hasConflict round.outcomes then .conflict
  else if !pageComplete round.page then .incomplete
  else if pageIds round.outcomes ≠ ws.held then .notCovered
  else if ws.heldQty inv < venueFilled ws row then .rowInconsistent
  else .consistent (remainingFresh ws inv row)

/-! ## What becomes of a member -/

def venueFromState : OrderState → Option VenueOrderId
  | .accepted v | .partialFill v .. | .cancelPending v .. | .reconcilePending v ..
  | .immediateFillUnattributed v .. => some v
  | _ => none

def liveWithRemaining (state : OrderState) (ctx : OrderCtx) (remaining : Nat) : OrderState :=
  match (venueFromState state).or ctx.venueOrderId with
  | none => state
  | some v =>
      if ctx.attributedFillQty = 0 ∧ remaining = ctx.qty then .accepted v
      else .partialFill v ctx.attributedFillQty remaining

/-- A member while the round is closed. -/
structure MemberScratch where
  state : OrderState
  ctx : OrderCtx
  effects : List Effect
deriving DecidableEq

/-- What a transition leaves of a member; a rejected one leaves it as it is. -/
def MemberScratch.apply (m : MemberScratch) (t : TransitionOutcome) : MemberScratch :=
  { m with state := t.newState.getD m.state, effects := m.effects ++ t.effects }

/-- No proof: the member asks for authority. A sole member also answers for all the venue filled. -/
def askMember (single : Bool) (filled : Nat) (row : OrderRow) : MemberScratch :=
  let m : MemberScratch :=
    ⟨row.state, row.ctx,
      [.requestAuthorityReconcile (row.ctx.venueOrderId.or (venueFromState row.state))
        row.ctx.clientOrderId]⟩
  if single then
    match row.ctx.raiseFillObligation filled with
    | .ok ctx =>
        { m with
          ctx := ctx
          effects :=
            if row.ctx.fillObligation < ctx.fillObligation then
              m.effects ++ [.appendFsync (.obligationRaised ctx.fillObligation ctx.authorityEpoch)]
            else m.effects }
    | .error reason => m.apply (haltWithReason reason [])
  else m

def capText (remaining cap : Nat) : String := s!"live remaining {remaining} > qty-attributed {cap}"

/-- A resting row of the current member: its remaining quantity is taken over where it is fresh. -/
def restMember (single fresh : Bool) (remaining : Nat) (m : MemberScratch) : MemberScratch :=
  if fresh then
    let cap := saturatingSub m.ctx.qty m.ctx.attributedFillQty
    if single && decide (cap < remaining) then
      m.apply (haltWithReason (.crossCheckMismatch (capText remaining cap)) [])
    else
      let ctx := m.ctx.noteVenueRemaining remaining
      { m with ctx := ctx, state := liveWithRemaining m.state ctx remaining }
  else m

/-- The wire is covered: the member's authority is complete, and the row says how it goes on. -/
def coverMember (round : ObservationRound) (ws : WireState) (row : RowEvidence) (fresh : Bool)
    (order : OrderRow) : MemberScratch :=
  let single := ws.members.length == 1
  let isCurrent := decide (ws.currentCid = some order.ctx.clientOrderId)
  let filled := venueFilled ws row
  let vid := (order.ctx.venueOrderId.or (venueFromState order.state)).getD round.wire
  let ctx := order.ctx.latchAuthorityComplete
  let m : MemberScratch := ⟨order.state, ctx, [.appendFsync (.authorityLatched ctx.authorityEpoch)]⟩
  let finalize := fun proposed fallback => m.apply (tryFinalizeTerminal ctx proposed vid [] fallback)
  match row.status with
  | .canceled => if isCurrent then finalize .canceled .canceled else finalize .terminal .terminal
  | .filled =>
      if single && decide (filled = ctx.qty) && decide (row.remaining = 0) then
        finalize (.filled filled 0) .filled
      else finalize .terminal .terminal
  | .openOrder | .partialFill =>
      if !isCurrent then finalize .terminal .terminal else restMember single fresh row.remaining m

/-- What the round does to a member; a member that is frozen, or in conflict, stays as it is. -/
def closeMember (round : ObservationRound) (ws : WireState) (row : RowEvidence)
    (outcome : ObservationOutcome) (order : OrderRow) : MemberScratch :=
  let untouched : MemberScratch := ⟨order.state, order.ctx, []⟩
  match outcome with
  | .conflict => untouched
  | .incomplete | .notCovered | .rowInconsistent =>
      if isRestartFrozen order.state then untouched
      else askMember (ws.members.length == 1) (venueFilled ws row) order
  | .consistent fresh =>
      if isRestartFrozen order.state then untouched else coverMember round ws row fresh order

/-! ## What becomes of the wire -/

def stickyStatus (old new : BackfillOrderStatus) : BackfillOrderStatus :=
  match old with
  | .filled | .canceled => old
  | _ => new

def isClosed (status : BackfillOrderStatus) : Bool :=
  decide (status = .filled) || decide (status = .canceled)

def isConsistent : ObservationOutcome → Bool
  | .consistent _ => true
  | _ => false

/-- The members that ended in the round. -/
def closeRoles (after : List MemberAfter) (members : List Member) : List Member :=
  members.map fun m =>
    match after.find? (·.clientOrderId = m.cid) with
    | some a => if isTerminalState a.stateAfter then { m with role := .terminal } else m
    | none => m

/-- The wire after the round, its hold apart. -/
def closeWire (ws : WireState) (row : RowEvidence) (outcome : ObservationOutcome)
    (after : List MemberAfter) (pending : Bool) : WireState :=
  let status := stickyStatus ws.status row.status
  { ws with
    members := closeRoles after ws.members
    filledHw := venueFilled ws row
    status := status
    tracked := !isConsistent outcome || pending
    last := some outcome
    remainingObservation :=
      if outcome = .consistent true then some ⟨row.remaining, ws.held, ws.generation⟩ else none
    resolved :=
      if ws.kind = .venueOnly then isClosed status && isConsistent outcome
      else ws.resolved }

/-- A round that closed all members of the wire: an amended generation is never proved resting again,
so its hold goes with the last of them. -/
def allClosed (ws : WireState) (row : RowEvidence) (outcome : ObservationOutcome) (pending : Bool)
    (membersAfter : List Member) : Bool :=
  ws.authorityHold && isClosed row.status && isConsistent outcome && !pending &&
    !membersAfter.isEmpty && membersAfter.all fun m => decide (m.role = .terminal)

def observeWire (ws : WireState) (row : RowEvidence) (outcome : ObservationOutcome)
    (after : List MemberAfter) (pending : Bool) : WireState :=
  let closed := closeWire ws row outcome after pending
  { closed with
    authorityHold :=
      ws.authorityHold && decide (outcome ≠ .consistent true) &&
        !allClosed ws row outcome pending closed.members }

/-! ## Rounds -/

namespace ObservationRound

def begin (ledger : LedgerId) (wire : VenueOrderId) : ObservationRound := ⟨ledger, wire, [], none⟩

/-- Only executions of the wire are listed in its round. -/
def record (round : ObservationRound) (o : ExecutionOutcome) : Except RoundError ObservationRound :=
  if o.evidence.venueOrderId.or (o.entryAfter.bind (·.venueOrderId)) = some round.wire then
    .ok { round with outcomes := round.outcomes ++ [o] }
  else .error .foreignRow

def setPage (round : ObservationRound) (p : PageMeta) : ObservationRound := { round with page := some p }

/-- The members the round changed, with their next sequence numbers. -/
def membersAfter : List (OrderRow × MemberScratch) → Except RoundError (List MemberAfter)
  | [] => .ok []
  | (order, m) :: rest => do
      let after ← membersAfter rest
      if m.state ≠ order.state ∨ m.ctx ≠ order.ctx then
        match order.cursor.next with
        | .ok seq => .ok (⟨order.ctx.clientOrderId, seq, m.state, m.ctx⟩ :: after)
        | .error _ => .error .sequenceOverflow
      else .ok after

def isPending (m : MemberScratch) : Bool := m.state matches .reconcilePending ..

def finish (round : ObservationRound) (r : WireRegistry) (inv : MarketInventory)
    (members : List OrderRow) (row : RowEvidence) : Except RoundError ObservationTransaction :=
  if row.ledger ≠ round.ledger ∨ row.wire ≠ round.wire then .error .foreignRow
  else do
    let ws := r.ensure round.ledger round.wire
    checkMembers round.ledger ws members
    let outcome := verdict round ws inv row
    let scratches := members.map fun order => (order, closeMember round ws row outcome order)
    let after ← membersAfter scratches
    let wireAfter :=
      observeWire ws row outcome after (scratches.any fun (_, m) => isPending m)
    let journal :=
      if after = [] ∧ wireAfter = ws then none
      else
        some (.observationTxn
          { ledger := round.ledger
            wire := round.wire
            row := row
            page := round.page
            pageIds := pageIds round.outcomes
            outcome := outcome
            inventoryGenerationBefore := inv.generation
            wireGenerationBefore := ws.generation
            membersAfter := after
            wireAfter := wireAfter })
    .ok
      { outcome := outcome
        journal := journal
        effects := .observation outcome :: scratches.flatMap (·.2.effects)
        preparedMembers := members
        expectedInventoryGeneration := inv.generation
        expectedWireGeneration := ws.generation
        ledger := round.ledger
        wire := round.wire
        membersAfter := after
        wireAfter := wireAfter }

end ObservationRound

/-! ## Applying a round's transaction -/

namespace ObservationTransaction

def preparedCids (t : ObservationTransaction) : List ClientOrderId :=
  t.preparedMembers.map (·.ctx.clientOrderId)

/-- A target is what its member was when the round was closed. -/
def checkTargets (t : ObservationTransaction) (found : List ClientOrderId) :
    List OrderRow → Except ObservationApplyMismatch Unit
  | [] => .ok ()
  | target :: targets =>
      match t.preparedMembers.find? (·.ctx.clientOrderId = target.ctx.clientOrderId) with
      | none => .error (.targets t.preparedCids found)
      | some prepared =>
          match checkTarget prepared target with
          | .error mismatch => .error (.member mismatch)
          | .ok () => t.checkTargets found targets

/-- What the round leaves of a target. -/
def advance (t : ObservationTransaction) (target : OrderRow) : OrderRow :=
  match t.membersAfter.find? (·.clientOrderId = target.ctx.clientOrderId) with
  | some a => { target with cursor := ⟨a.seq⟩, state := a.stateAfter, ctx := a.ctxAfter }
  | none => target

/-- The targets are the members, in any order. -/
def apply (t : ObservationTransaction) (targets : List OrderRow) (r : WireRegistry)
    (inv : MarketInventory) :
    Except ObservationApplyMismatch (ObservationOutcome × List OrderRow × WireRegistry) :=
  let found := targets.map (·.ctx.clientOrderId)
  if !found.isPerm t.preparedCids || !decide found.Nodup then
    .error (.targets t.preparedCids found)
  else do
    t.checkTargets found targets
    if inv.generation ≠ t.expectedInventoryGeneration then
      .error (.member (.inventoryGeneration t.expectedInventoryGeneration inv.generation))
    else
      let foundGen := r.marker t.ledger t.wire
      if foundGen ≠ t.expectedWireGeneration then
        .error (.wireGeneration t.expectedWireGeneration foundGen)
      else .ok (t.outcome, targets.map t.advance, r.set t.ledger t.wire t.wireAfter)

end ObservationTransaction

end Omsrs.Observation
