import Omsrs.Execution.Inventory

/-!
# The registry of wires

What the journal says of every wire, folded record by record, and the questions the shell asks of it:
where an execution goes, how much of an order is still working, whether a ledger may trade.
-/

namespace Omsrs.Observation
open Omsrs.Lib Omsrs.Lifecycle Omsrs.Execution

/-! ## The registry -/

structure WireKey where
  ledger : LedgerId
  wire : VenueOrderId
deriving DecidableEq, Repr

instance : LinearOrder WireKey :=
  .lift' (fun k => toLex (k.ledger, k.wire)) fun a b h => by
    cases a
    cases b
    simpa using h

/-- The place of a transaction in the sequence of its order. -/
structure TxnKey where
  ledger : LedgerId
  clientOrderId : ClientOrderId
  seq : Nat
deriving DecidableEq, Repr

instance : LinearOrder TxnKey :=
  .lift' (fun k => toLex (k.ledger, toLex (k.clientOrderId, k.seq))) fun a b h => by
    cases a
    cases b
    simpa using h

structure WireRegistry where
  wires : OrdMap WireKey WireState
  idIndex : OrdMap VenueOrderId FillSet
  seenOrder : OrdMap TxnKey OrderTxnRecord
deriving DecidableEq

namespace WireState

def hasMember (ws : WireState) (cid : ClientOrderId) : Bool := ws.members.any (·.cid = cid)

/-- Give the first member with this id another role. -/
def setRole (role : MemberRole) (cid : ClientOrderId) : List Member → List Member
  | [] => []
  | m :: members =>
      if m.cid = cid then { m with role := role } :: members else m :: setRole role cid members

def terminalize (ws : WireState) (cid : ClientOrderId) : WireState :=
  { ws with members := setRole .terminal cid ws.members }

/-- A new member becomes the current one. The first member of a wire makes it a scoped one, tracked
where it holds executions that were never resolved. -/
def bind (pos : Nat) (cid : ClientOrderId) (ws : WireState) : WireState :=
  if ws.hasMember cid then ws
  else
    let first := ws.members.isEmpty
    { ws with
      members :=
        ws.members.map (fun m => if m.role ≠ .terminal then { m with role := .superseded } else m) ++
          [⟨cid, .current, pos⟩]
      kind := .scoped
      tracked := if first then !ws.held.isEmpty && !ws.resolved else ws.tracked }

/-- An own action opens a new generation of the wire: what was proved of the one before is gone. -/
def bump (ws : WireState) : WireState :=
  { ws with
    generation := saturatingAdd u64Max ws.generation 1
    remainingObservation := none
    provedCurrentCid := none }

/-- Hold an execution. A new one that nobody owns is evidence that is owed. -/
def hold (id : FillId) (entry : InventoryEntry) (ws : WireState) : WireState :=
  let newly := !ws.held.contains id
  let ws := { ws with held := ws.held.insert id () }
  if newly && entry.owner.isNone then
    match ws.kind with
    | .venueOnly => { ws with resolved := false }
    | .scoped => { ws with tracked := true }
  else ws

/-- Admit a user-order frame. -/
def receive (pos : Nat) (e : UserOrderEvidence) (ws : WireState) : WireState :=
  { ws with
    latestUserOrder := some e
    latestUserOrderRevision := saturatingAdd u64Max pos 1
    observedExchangeIndex := some e.exchangeIndex }

/-- The authority over the wire is invalidated. -/
def holdAuthority (pos : Nat) (ws : WireState) : WireState :=
  { ws with authorityHold := true, authorityHoldRevision := saturatingAdd u64Max pos 1 }

def setLineage (lineage : Option AmendLineage) (ws : WireState) : WireState :=
  { ws with amendLineage := lineage }

/-- The executed quantity of the executions a wire holds. -/
def heldQty (ws : WireState) (inv : MarketInventory) : Nat :=
  ((ws.held.keys.map fun id => ((inv.get id).map (·.qty)).getD 0)).foldl (saturatingAdd u64Max) 0

/-- The same, where it fits in its word. -/
def checkedHeldQty (ws : WireState) (inv : MarketInventory) : Option Nat :=
  (ws.held.keys.map fun id => ((inv.get id).map (·.qty)).getD 0).foldlM (checkedAdd u64Max) 0

end WireState

/-- A saturating subtraction of machine integers is the subtraction of natural numbers. -/
def saturatingSub (a b : Nat) : Nat := a - b

/-- The states in which an order is over for its wire. -/
def isTerminalState : OrderState → Bool
  | .filled | .canceled | .terminal | .halted _ | .immediateFillUnresolved | .unknownNoMatch => true
  | _ => false

namespace WireRegistry

def new : WireRegistry := ⟨.empty, .empty, .empty⟩

def get (r : WireRegistry) (ledger : LedgerId) (wire : VenueOrderId) : Option WireState :=
  r.wires.get? ⟨ledger, wire⟩

def set (r : WireRegistry) (ledger : LedgerId) (wire : VenueOrderId) (ws : WireState) : WireRegistry :=
  { r with wires := r.wires.insert ⟨ledger, wire⟩ ws }

/-- The wire, or a venue-only one where there is none. -/
def ensure (r : WireRegistry) (ledger : LedgerId) (wire : VenueOrderId) : WireState :=
  (r.get ledger wire).getD .venueOnly

def marker (r : WireRegistry) (ledger : LedgerId) (wire : VenueOrderId) : Nat :=
  ((r.get ledger wire).map (·.generation)).getD 0

/-! ## Clients -/

def matchesClient (cid : ClientOrderId) (ws : WireState) : Bool :=
  ws.hasMember cid ||
    match ws.amendLineage with
    | some l => decide (l.oldCid = cid) || decide (l.newCid = cid)
    | none => false

/-- The unique wire of a member or of a lineage client that is not bound yet. -/
def wireForClient (r : WireRegistry) (ledger : LedgerId) (cid : ClientOrderId) : Option VenueOrderId :=
  match r.wires.entries.filter fun (k, ws) => decide (k.ledger = ledger) && matchesClient cid ws with
  | [(k, _)] => some k.wire
  | _ => none

def hasClient (r : WireRegistry) (ledger : LedgerId) (cid : ClientOrderId) : Bool :=
  r.wires.entries.any fun (k, ws) => decide (k.ledger = ledger) && matchesClient cid ws

/-! ## Folding the record of an order -/

/-- The latest frame of the wire is the admitted end of the order, later than the hold and at the
order's own attribution. -/
def provesEnd (o : OrderTxnRecord) (wire : VenueOrderId) (ws : WireState) : Bool :=
  ws.authorityHold && decide (0 < ws.generation) && ws.amendLineage.isNone &&
    decide (ws.authorityHoldRevision < ws.latestUserOrderRevision) &&
    decide (ws.currentCid = some o.clientOrderId) &&
    decide (ws.provedCurrentCid = some o.clientOrderId) &&
    match ws.latestUserOrder with
    | none => false
    | some e =>
        decide (e.wire = wire) && decide (e.market = o.ledger.market) &&
          decide (e.clientOrderId = o.clientOrderId) &&
          decide (ws.observedExchangeIndex = some e.exchangeIndex) &&
          (decide (e.status = .canceled) || decide (e.status = .executed)) &&
          (decide (o.event ≠ "Fill") || decide (e.status = .executed)) &&
          decide (e.filled = o.ctxAfter.attributedFillQty)

/-- The wire whose hold an order's end may clear. The venue's terminal claim ends an order, and so does
the fill that completes it. -/
def terminalHoldWire (r : WireRegistry) (o : OrderTxnRecord) : Option VenueOrderId :=
  if (decide (o.event = "UserOrderTerminalClaim") ||
        decide (o.event = "Fill") && decide (o.stateAfter = .filled)) &&
      (decide (o.stateAfter = .canceled) || decide (o.stateAfter = .filled) ||
        decide (o.stateAfter = .terminal)) then
    o.ctxAfter.venueOrderId.filter fun wire =>
      match r.get o.ledger wire with
      | some ws => provesEnd o wire ws
      | none => false
  else none

def bindMember (r : WireRegistry) (pos : Nat) (ledger : LedgerId) (wire : VenueOrderId)
    (cid : ClientOrderId) : WireRegistry :=
  r.set ledger wire ((r.ensure ledger wire).bind pos cid)

def terminalizeCid (r : WireRegistry) (ledger : LedgerId) (cid : ClientOrderId) : WireRegistry :=
  { r with
    wires := r.wires.mapValues fun k ws => if k.ledger = ledger then ws.terminalize cid else ws }

def bumpGeneration (r : WireRegistry) (ledger : LedgerId) (cid : ClientOrderId) : WireRegistry :=
  { r with
    wires := r.wires.mapValues fun k ws =>
      if k.ledger = ledger && ws.hasMember cid then ws.bump else ws }

def foldCore (pos : Nat) (o : OrderTxnRecord) (r : WireRegistry) : JournalRecord → WireRegistry
  | .venueBoundCid cid wire => r.bindMember pos o.ledger wire cid
  | .orderTerminal .. | .halted _ => r.terminalizeCid o.ledger o.clientOrderId
  | .ownActionCid cid _ => r.bumpGeneration o.ledger cid
  | _ => r

/-- The hold is cleared where the order is over and no other one is current. -/
def dischargeEnd (o : OrderTxnRecord) (ws : WireState) : WireState :=
  if (ws.members.any fun m => decide (m.cid = o.clientOrderId) && decide (m.role = .terminal)) &&
      ws.members.all fun m => decide (m.role ≠ .current) then
    { ws with authorityHold := false }
  else ws

/-- A record is folded once; another one in its place is an error. -/
def foldOrderPart (r : WireRegistry) (pos : Nat) (o : OrderTxnRecord) :
    Except RebuildError WireRegistry :=
  match r.seenOrder.get? ⟨o.ledger, o.clientOrderId, o.seq⟩ with
  | some prev => if prev ≠ o then .error (.divergent o.clientOrderId o.seq) else .ok r
  | none =>
      let r := { r with seenOrder := r.seenOrder.insert ⟨o.ledger, o.clientOrderId, o.seq⟩ o }
      let holdWire := r.terminalHoldWire o
      let r := o.coreRecords.foldl (foldCore pos o) r
      match holdWire with
      | some wire => .ok { r with wires := r.wires.modify ⟨o.ledger, wire⟩ (dischargeEnd o) }
      | none => .ok r

/-! ## Folding executions and observations -/

/-- An execution is indexed under the venue order its entry names, else the one its evidence names. -/
def indexExecution (r : WireRegistry) (o : ExecutionOutcome) : WireRegistry :=
  match (o.entryAfter.bind (·.venueOrderId)).or o.evidence.venueOrderId with
  | some wire =>
      { r with
        idIndex := r.idIndex.insert wire
          (((r.idIndex.get? wire).getD .empty).insert o.evidence.executionId ()) }
  | none => r

def foldExecution (ledger : LedgerId) (r : WireRegistry) (o : ExecutionOutcome) : WireRegistry :=
  let r := r.indexExecution o
  match o.inventory, o.entryAfter with
  | .ingested _, some entry | .upgraded, some entry =>
      match entry.venueOrderId with
      | some wire =>
          r.set ledger wire ((r.ensure ledger wire).hold o.evidence.executionId entry)
      | none => r
  | _, _ => r

def foldExecutions (r : WireRegistry) (ledger : LedgerId) (executions : List ExecutionOutcome) :
    WireRegistry :=
  executions.foldl (foldExecution ledger) r

def foldObservation (r : WireRegistry) (t : ObservationTxnRecord) : WireRegistry :=
  t.membersAfter.foldl
    (fun r m =>
      if isTerminalState m.stateAfter then
        { r with wires := r.wires.modify ⟨t.ledger, t.wire⟩ (·.terminalize m.clientOrderId) }
      else r)
    (r.set t.ledger t.wire t.wireAfter)

/-! ## Folding the journal -/

def fold (r : WireRegistry) (pos : Nat) : Record → Except RebuildError WireRegistry
  | .orderTxn o => r.foldOrderPart pos o
  | .executionTxn e => do
      let r ← match e.order with
        | some o => r.foldOrderPart pos o
        | none => .ok r
      .ok (r.foldExecutions e.ledger e.executions)
  | .observationTxn t => .ok (r.foldObservation t)
  | .amendLineage ledger wire lineage =>
      .ok (r.set ledger wire ((r.ensure ledger wire).setLineage lineage))
  | .userOrderReceived ledger wire evidence =>
      .ok (r.set ledger wire ((r.ensure ledger wire).receive pos evidence))
  | .orderAuthorityHold ledger wire =>
      .ok (r.set ledger wire ((r.ensure ledger wire).holdAuthority pos))
  | .orderStateTxn t => .ok (r.set t.ledger t.wire t.wireAfter)
  | .restOrderProofTxn t => .ok (r.set t.ledger t.wire t.wireAfter)
  | .core _ | .userOrderQuarantined .. | .userOrderStaged .. => .ok r

/-- The registry of a journal; a record's position is its index. -/
def rebuild (records : List Record) : Except RebuildError WireRegistry :=
  records.zipIdx.foldlM (fun r (rec, pos) => r.fold pos rec) new

/-! ## Routing an execution -/

inductive Route
  | existingOwner (cid : ClientOrderId)
  | unownedUnique (cid : ClientOrderId)
  | unownedAmbiguous
  | newUnique (cid : ClientOrderId)
  | newAmbiguous
  | venueOnly
deriving DecidableEq, Repr

def route (r : WireRegistry) (ledger : LedgerId) (wire : VenueOrderId) (id : FillId)
    (inv : MarketInventory) : Route :=
  let entry := inv.get id
  match entry.bind (·.owner) with
  | some cid => .existingOwner cid
  | none =>
      match ((r.get ledger wire).map (·.members)).getD [] with
      | [] => .venueOnly
      | [m] => if entry.isSome then .unownedUnique m.cid else .newUnique m.cid
      | _ => if entry.isSome then .unownedAmbiguous else .newAmbiguous

/-! ## The working quantity -/

inductive WorkingView
  | known (remaining : Nat)
  | unresolved
deriving DecidableEq, Repr

/-- The remaining quantity is known where it was proved of this generation, over the executions the
wire holds, for its current member. -/
def wireView (ws : WireState) : WorkingView :=
  if ws.authorityHold then .unresolved
  else
    match ws.remainingObservation, ws.last with
    | some obs, some (.consistent true) =>
        if obs.covered = ws.held ∧ obs.generation = ws.generation ∧
            (ws.generation = 0 ∨ ws.provedCurrentCid = ws.currentCid) then
          .known obs.remaining
        else .unresolved
    | _, _ => .unresolved

def workingView (r : WireRegistry) (ledger : LedgerId) (wire : VenueOrderId) : WorkingView :=
  match r.get ledger wire with
  | some ws => wireView ws
  | none => .unresolved

/-- The view of the first wire that has the client as a member, where it is the current one. -/
def memberWorkingView (r : WireRegistry) (ledger : LedgerId) (cid : ClientOrderId) : WorkingView :=
  match r.wires.entries.find? fun (k, ws) => decide (k.ledger = ledger) && ws.hasMember cid with
  | none => .unresolved
  | some (k, ws) =>
      match ws.members.find? (·.cid = cid) with
      | some m => if m.role ≠ .current then .unresolved else r.workingView k.ledger k.wire
      | none => .unresolved

/-! ## Readiness -/

inductive Readiness
  | ready
  | unresolved (memberDebt wireResidual unresolvedVenueOnly trackedScoped : Nat)
  | conflict
deriving DecidableEq, Repr

inductive MemberMismatchReason
  | wrongCid
  | foreignScope
  | foreignMarket
deriving DecidableEq, Repr

inductive ReadinessError
  | missingMember (cid : ClientOrderId)
  | memberMismatch (cid : ClientOrderId) (reason : MemberMismatchReason)
deriving DecidableEq, Repr

/-- The sums over the wires of a ledger. -/
structure Tally where
  memberDebt : Nat
  wireResidual : Nat
  unresolvedVenueOnly : Nat
  trackedScoped : Nat
  unresolved : Bool
deriving DecidableEq, Repr

/-- What a member's evidence says it still lacks. -/
def orderDebt (ctx : OrderCtx) : Nat := saturatingSub ctx.fillObligation ctx.attributedFillQty

/-- The member's order, as the shell looks it up. -/
def checkMember (ledger : LedgerId) (lookup : ClientOrderId → Option OrderRow) (m : Member) :
    Except ReadinessError OrderRow :=
  match lookup m.cid with
  | none => .error (.missingMember m.cid)
  | some row =>
      if row.ctx.clientOrderId ≠ m.cid then .error (.memberMismatch m.cid .wrongCid)
      else if row.ledger.scope ≠ ledger.scope then .error (.memberMismatch m.cid .foreignScope)
      else if row.ledger.market ≠ ledger.market ∨ row.ctx.market ≠ ledger.market then
        .error (.memberMismatch m.cid .foreignMarket)
      else .ok row

/-- The debts of the members of one wire. -/
def memberDebts (ledger : LedgerId) (lookup : ClientOrderId → Option OrderRow) (ws : WireState) :
    Except ReadinessError (List Nat) :=
  ws.members.mapM fun m => do
    let row ← checkMember ledger lookup m
    .ok (orderDebt row.ctx)

/-- What the venue reported of a wire and neither its executions nor its members explain. -/
def residual (ws : WireState) (inv : MarketInventory) (debts : List Nat) : Nat :=
  saturatingSub (saturatingSub ws.filledHw (ws.heldQty inv))
    (debts.foldl (saturatingAdd u64Max) 0)

def Tally.add (tally : Tally) (ws : WireState) (inv : MarketInventory) (debts : List Nat) : Tally :=
  let tally :=
    { tally with
      memberDebt := debts.foldl (saturatingAdd u64Max) tally.memberDebt
      wireResidual := saturatingAdd u64Max tally.wireResidual (residual ws inv debts) }
  match ws.kind with
  | .venueOnly =>
      if !ws.resolved then
        { tally with unresolvedVenueOnly := tally.unresolvedVenueOnly + 1, unresolved := true }
      else tally
  | .scoped =>
      if ws.tracked then
        { tally with trackedScoped := tally.trackedScoped + 1, unresolved := true }
      else tally

/-- The wires of a ledger, in the order of their ids. -/
def wiresOf (r : WireRegistry) (ledger : LedgerId) : List WireState :=
  (r.wires.entries.filter fun (k, _) => decide (k.ledger = ledger)).map (·.2)

def tally (r : WireRegistry) (ledger : LedgerId) (lookup : ClientOrderId → Option OrderRow)
    (inv : MarketInventory) : Except ReadinessError Tally :=
  (r.wiresOf ledger).foldlM
    (fun t ws => do
      let debts ← memberDebts ledger lookup ws
      .ok (t.add ws inv debts))
    ⟨0, 0, 0, 0, false⟩

def readiness (r : WireRegistry) (ledger : LedgerId) (lookup : ClientOrderId → Option OrderRow)
    (inv : MarketInventory) : Except ReadinessError Readiness :=
  if inv.ledger = ledger ∧ ¬ inv.conflicts.isEmpty then .ok .conflict
  else do
    let t ← r.tally ledger lookup inv
    if t.unresolved then
      .ok (.unresolved t.memberDebt t.wireResidual t.unresolvedVenueOnly t.trackedScoped)
    else .ok .ready

end WireRegistry

end Omsrs.Observation
