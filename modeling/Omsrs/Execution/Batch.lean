import Omsrs.Execution.Prepare

/-!
# Batches of evidence for one order

Each evidence is judged against the inventory, the order's booked fills and the batch so far. What is
admitted goes to the core in one event, and the core's answer decides the attribution.
-/

namespace Omsrs.Execution
open Omsrs.Lib Omsrs.Lifecycle Omsrs.Observation

/-! ## The checks of the call -/

def unequalText (field : String) (a b : String) : String := s!"{field} both Some unequal: {a} vs {b}"

/-- Both missing, both equal, or only the evidence has it; otherwise the text of the mismatch. -/
def optionMismatch {α : Type} [DecidableEq α] (field : String) (show1 : α → String) :
    Option α → Option α → Option String
  | some a, some b => if a ≠ b then some (unequalText field (show1 a) (show1 b)) else none
  | some _, none => some s!"{field}: event Some vs evidence None"
  | none, _ => none

def debugId (type id : String) : String :=
  let quoted := id.quote
  s!"{type}({quoted})"

def debugFillId (f : FillId) : String := debugId "FillId" f.id

def debugVenueOrderId (v : VenueOrderId) : String := debugId "VenueOrderId" v.id

def fieldText (field a b : String) : String := s!"{field}: event {a} vs evidence {b}"

def evidenceMismatch (f : FillRecord) (e : ExecutionEvidence) : Option String :=
  if f.fillId ≠ e.executionId then
    some (fieldText "execution_id" (debugFillId f.fillId) (debugFillId e.executionId))
  else if f.qty ≠ e.qty then some (fieldText "qty" (toString f.qty) (toString e.qty))
  else if f.priceCents ≠ e.priceCents then
    some (fieldText "price_cents" (toString f.priceCents) (toString e.priceCents))
  else
    match optionMismatch "venue_order_id" debugVenueOrderId f.venueOrderId e.venueOrderId with
    | some detail => some detail
    | none => optionMismatch "fee_cents" (toString ·) f.feeCents e.feeCents

/-- The first mismatch from position `i` on. -/
def checkPositions (i : Nat) : List FillRecord → List ExecutionEvidence → Except PrepareError Unit
  | f :: fills, e :: evidences =>
      match evidenceMismatch f e with
      | some detail => .error (.evidenceFillMismatch i detail)
      | none => checkPositions (i + 1) fills evidences
  | _, _ => .ok ()

def lengthText (fills evidences : Nat) : String :=
  s!"length mismatch: event fills {fills} vs evidences {evidences}"

def checkEvidenceMatchesFills (fills : List FillRecord) (evidences : List ExecutionEvidence) :
    Except PrepareError Unit :=
  if fills.length ≠ evidences.length then
    .error (.evidenceFillMismatch 0 (lengthText fills.length evidences.length))
  else checkPositions 0 fills evidences

/-- An empty batch passes; structured events may carry no fills. -/
def checkBatchLedger (inv : MarketInventory) : List ExecutionEvidence → Except PrepareError Unit
  | [] => .ok ()
  | e :: evidences =>
      if evidences.any (fun e' => decide (evidenceLedger e' ≠ evidenceLedger e)) then
        .error .mixedLedgerBatch
      else if evidenceLedger e ≠ inv.ledger then .error (.foreignLedger inv.ledger (evidenceLedger e))
      else .ok ()

/-! ## The staged payloads -/

structure StagedPayload where
  side : Side
  qty : Nat
  priceCents : Nat
  firstSeenTsNs : Int
  venueOrderId : Option VenueOrderId
  claimedClientOrderId : Option ClientOrderId
  feeCents : Option Nat
  source : ExecutionSource
deriving DecidableEq, Repr

abbrev Staging := OrdMap FillId StagedPayload

namespace StagedPayload

def toEntry (s : StagedPayload) (owner : Option ClientOrderId) (provenance : InventoryProvenance) :
    InventoryEntry where
  side := s.side
  qty := s.qty
  priceCents := s.priceCents
  firstSeenTsNs := s.firstSeenTsNs
  venueOrderId := s.venueOrderId
  claimedClientOrderId := s.claimedClientOrderId
  owner := owner
  feeCents := s.feeCents
  source := s.source
  provenance := provenance

def asFillRecord (s : StagedPayload) (id : FillId) : FillRecord where
  fillId := id
  qty := s.qty
  priceCents := s.priceCents
  tsNs := s.firstSeenTsNs
  venueOrderId := s.venueOrderId
  feeCents := s.feeCents

/-- A repeated evidence adds what was missing. -/
def merge (s : StagedPayload) (e : ExecutionEvidence) : StagedPayload :=
  { s with
    venueOrderId := fillIn s.venueOrderId e.venueOrderId
    feeCents := fillIn s.feeCents e.feeCents
    claimedClientOrderId := fillIn s.claimedClientOrderId e.claimedClientOrderId }

end StagedPayload

/-- A first evidence, completed by what the inventory (`p`) and the order (`q`) know already. -/
def stageEvidence (e : ExecutionEvidence) (p : Option InventoryEntry) (q : Option FillPayload) :
    StagedPayload where
  side := e.side
  qty := e.qty
  priceCents := e.priceCents
  firstSeenTsNs := ((p.map (·.firstSeenTsNs)).or (q.map (·.tsNs))).getD e.tsNs
  venueOrderId := ((p.bind (·.venueOrderId)).or (q.bind (·.venueOrderId))).or e.venueOrderId
  claimedClientOrderId := e.claimedClientOrderId
  feeCents := ((p.bind (·.feeCents)).or (q.bind (·.fee))).or e.feeCents
  source := e.source

/-! ## Disagreement between the evidence, the batch, the inventory and the order -/

def disagreesStaged (e : ExecutionEvidence) (s : StagedPayload) : Bool :=
  decide (e.side ≠ s.side) ||
    coreDisagreeQtyPriceVenue e.qty e.priceCents e.venueOrderId s.qty s.priceCents s.venueOrderId

def disagreesEntry (e : ExecutionEvidence) (p : InventoryEntry) : Bool :=
  decide (e.side ≠ p.side) ||
    coreDisagreeQtyPriceVenue e.qty e.priceCents e.venueOrderId p.qty p.priceCents p.venueOrderId

def disagreesApplied (e : ExecutionEvidence) (q : FillPayload) : Bool :=
  coreDisagreeQtyPriceVenue e.qty e.priceCents e.venueOrderId q.qty q.priceCents q.venueOrderId

def stagedDisagreesEntry (s : StagedPayload) (p : InventoryEntry) : Bool :=
  decide (s.side ≠ p.side) ||
    coreDisagreeQtyPriceVenue s.qty s.priceCents s.venueOrderId p.qty p.priceCents p.venueOrderId

def stagedDisagreesApplied (s : StagedPayload) (q : FillPayload) : Bool :=
  coreDisagreeQtyPriceVenue s.qty s.priceCents s.venueOrderId q.qty q.priceCents q.venueOrderId

def entryDisagreesApplied (p : InventoryEntry) (q : FillPayload) : Bool :=
  coreDisagreeQtyPriceVenue p.qty p.priceCents p.venueOrderId q.qty q.priceCents q.venueOrderId

def anyPair {α β : Type} (f : α → β → Bool) (a : Option α) (b : Option β) : Bool :=
  a.any fun a => b.any (f a)

/-- Any two of evidence, staged payload, entry and booked payload disagree. -/
def coreHit (e : ExecutionEvidence) (s : Option StagedPayload) (p : Option InventoryEntry)
    (q : Option FillPayload) : Bool :=
  s.any (disagreesStaged e) || p.any (disagreesEntry e) || q.any (disagreesApplied e) ||
    anyPair stagedDisagreesEntry s p || anyPair stagedDisagreesApplied s q ||
    anyPair entryDisagreesApplied p q

def feeHit (e : ExecutionEvidence) (s : Option StagedPayload) (p : Option InventoryEntry)
    (q : Option FillPayload) : Bool :=
  let feeS := s.bind (·.feeCents)
  let feeP := p.bind (·.feeCents)
  let feeQ := q.bind (·.fee)
  feeConflict e.feeCents feeS || feeConflict e.feeCents feeP || feeConflict e.feeCents feeQ ||
    feeConflict feeS feeP || feeConflict feeS feeQ || feeConflict feeP feeQ

def buildConflictWitness (staged : Option StagedPayload) (entry : Option InventoryEntry)
    (q : Option (ClientOrderId × FillPayload)) : ConflictWitness :=
  match staged, entry, q with
  | some s, _, _ => .staged (s.toEntry none .noRow)
  | none, some e, some (cid, p) => .both e cid p
  | none, some e, none => .entry e
  | none, none, some (cid, p) => .orderApplied cid p
  | none, none, none =>
      .staged ⟨.buyYes, 0, 0, 0, none, none, none, none, .wsFill, .noRow⟩

/-! ## Adjudication -/

/-- The verdict on an evidence before the core is asked. -/
inductive PreCore
  | ignoredZero
  | refused (order : OrderDisposition) (inventory : InventoryDisposition)
      (entryAfter : Option InventoryEntry) (conflict : Option ConflictFact)
  | admitted (staged : StagedPayload)
deriving DecidableEq, Repr

def refuseConflict (order : OrderDisposition) (p : Option InventoryEntry) (fact : ConflictFact) :
    PreCore :=
  .refused order (.conflict fact.conflictClass) p (some fact)

/-- A row of another ledger: the evidence is judged as if there was no row, and refused by it. -/
def adjudicateForeign (refusal : RefusalReason) (inv : MarketInventory) (staging : Staging)
    (e : ExecutionEvidence) : PreCore × Staging :=
  let id := e.executionId
  let p := inv.get id
  let s := staging.get? id
  let refuse := PreCore.refused (.refused refusal)
  let witness := buildConflictWitness s p none
  if e.qty = 0 then (.ignoredZero, staging)
  else if coreHit e s p none then
    (refuseConflict (.refused refusal) p ⟨id, .core, witness, e⟩, staging)
  else if feeHit e s p none then
    (refuseConflict (.refused refusal) p ⟨id, .fee, witness, e⟩, staging)
  else
    match s, p with
    | some sp, _ => (refuse .duplicate p none, staging.insert id (sp.merge e))
    | none, some pEntry =>
        -- upgraded from the entry before the batch, also where the batch upgraded it already
        let entry :=
          { pEntry with
            venueOrderId := fillIn pEntry.venueOrderId e.venueOrderId
            feeCents := fillIn pEntry.feeCents e.feeCents }
        if fillsIn pEntry.venueOrderId e.venueOrderId || fillsIn pEntry.feeCents e.feeCents then
          (refuse .upgraded (some entry) none, staging)
        else (refuse .duplicate (some pEntry) none, staging)
    | none, none =>
        let staged := stageEvidence e none none
        (refuse (.ingested .rowForeign) (some (staged.toEntry none .rowForeign)) none,
          staging.insert id staged)

/-- The entry's owner, when it is another order than `cid`. -/
def otherOwner (cid : ClientOrderId) (p : Option InventoryEntry) : Option ClientOrderId :=
  (p.bind (·.owner)).filter (· ≠ cid)

def adjudicateRow (order : OrderRow) (inv : MarketInventory) (staging : Staging)
    (e : ExecutionEvidence) : PreCore × Staging :=
  let id := e.executionId
  let p := inv.get id
  let q := order.ctx.appliedFills.get? id
  let s := staging.get? id
  let witness := buildConflictWitness s p (q.map fun qp => (order.ctx.clientOrderId, qp))
  if e.qty = 0 then (.ignoredZero, staging)
  else if coreHit e s p q then
    (refuseConflict (.refused (.conflictingExecution .core)) p ⟨id, .core, witness, e⟩, staging)
  else
    match otherOwner order.ctx.clientOrderId p, p with
    | some owner, some pEntry =>
        (refuseConflict (.refused (.duplicateOtherOwner owner)) p
          ⟨id, .ownership, .entry pEntry, e⟩, staging)
    | _, _ =>
        if feeHit e s p q then
          (refuseConflict (.refused .feeConflict) p ⟨id, .fee, witness, e⟩, staging)
        else
          match s with
          | some sp =>
              (.refused (.refused .inBatchDuplicate) .duplicate p none, staging.insert id (sp.merge e))
          | none =>
              let staged := stageEvidence e p q
              (.admitted staged, staging.insert id staged)

/-- One pass over the evidences, oldest first. -/
def adjudicateAll (judge : Staging → ExecutionEvidence → PreCore × Staging) (staging : Staging) :
    List ExecutionEvidence → List (ExecutionEvidence × PreCore) × Staging
  | [] => ([], staging)
  | e :: evidences =>
      let (pc, staging) := judge staging e
      let (pre, staging) := adjudicateAll judge staging evidences
      ((e, pc) :: pre, staging)

/-- The admitted evidences of the other side are taken out of the batch again; what was staged of them
goes to the inventory alone. -/
def crossCheckSide (order : OrderRow) (inv : MarketInventory) (staging : Staging) :
    List (ExecutionEvidence × PreCore) → List (ExecutionEvidence × PreCore) × Staging
  | [] => ([], staging)
  | (e, pc) :: pre =>
      match pc with
      | .admitted _ =>
          if order.ctx.side ≠ e.side then
            let refusal := RefusalReason.sideMismatch order.ctx.side e.side
            let (inventory, entryAfter) :=
              match inv.get e.executionId, staging.get? e.executionId with
              | some p, _ => (InventoryDisposition.duplicate, some p)
              | none, some sp =>
                  (.ingested (.refused refusal), some (sp.toEntry none (.refused refusal)))
              | none, none => (.unchanged, none)
            let (pre, staging) := crossCheckSide order inv (staging.erase e.executionId) pre
            ((e, .refused (.refused refusal) inventory entryAfter none) :: pre, staging)
          else
            let (pre, staging) := crossCheckSide order inv staging pre
            ((e, pc) :: pre, staging)
      | _ =>
          let (pre, staging) := crossCheckSide order inv staging pre
          ((e, pc) :: pre, staging)

def rowForeign (order : OrderRow) (inv : MarketInventory) : Bool :=
  decide (order.ledger ≠ inv.ledger) || decide (order.ctx.market ≠ order.ledger.market)

def foreignRefusal (order : OrderRow) (inv : MarketInventory) : RefusalReason :=
  .rowForeign order.ledger order.ctx.market inv.ledger

def adjudicate (order : OrderRow) (inv : MarketInventory) (evidences : List ExecutionEvidence) :
    List (ExecutionEvidence × PreCore) × Staging :=
  if rowForeign order inv then
    adjudicateAll (adjudicateForeign (foreignRefusal order inv) inv) .empty evidences
  else
    let (pre, staging) := adjudicateAll (adjudicateRow order inv) .empty evidences
    crossCheckSide order inv staging pre

/-! ## The core call -/

def admittedFills (staging : Staging) (pre : List (ExecutionEvidence × PreCore)) :
    List (FillId × StagedPayload) :=
  pre.filterMap fun (e, pc) =>
    match pc with
    | .admitted staged => some (e.executionId, (staging.get? e.executionId).getD staged)
    | _ => none

def admittedAt (pre : List (ExecutionEvidence × PreCore)) : List Nat :=
  pre.zipIdx.filterMap fun ((_, pc), i) =>
    match pc with
    | .admitted _ => some i
    | _ => none

def PreCore.isSideMismatch : PreCore → Bool
  | .refused (.refused (.sideMismatch ..)) _ _ _ => true
  | _ => false

def allSideMismatch (pre : List (ExecutionEvidence × PreCore)) : Bool :=
  pre.all (fun (_, pc) => pc.isSideMismatch || decide (pc = .ignoredZero)) &&
    pre.any fun (_, pc) => pc.isSideMismatch

def isStructured : OrderEvent → Bool
  | .immediateFillBackfillResult _ | .unknownBackfillResult .. | .reconcileResult .. => true
  | _ => false

/-- The record of `matched` that held the fill at the flattened position `i`, else the last one. -/
def placeOf (i : Nat) : List BackfillOrderRecord → Nat
  | [] => 0
  | [_] => 0
  | m :: matched => if i < m.fills.length then 0 else placeOf (i - m.fills.length) matched + 1

def rebuildEventWithFills (event : OrderEvent) (admitted : List (FillId × StagedPayload))
    (positions : List Nat) : OrderEvent :=
  let fills := admitted.map fun (id, s) => s.asFillRecord id
  match event with
  | .fill f => .fill (fills.head?.getD f)
  | .immediateFillBackfillResult _ => .immediateFillBackfillResult fills
  | .unknownBackfillResult exhaustive matched =>
      let placed := (positions.zip fills).map fun (i, f) => (placeOf i matched, f)
      .unknownBackfillResult exhaustive
        (matched.zipIdx.map fun (m, ri) =>
          { m with fills := (placed.filter (·.1 = ri)).map (·.2) })
  | .reconcileResult status venueOrderId filledQty remainingQty _ authorityComplete =>
      .reconcileResult status venueOrderId filledQty remainingQty fills authorityComplete
  | other => other

/-- The answer of the core, where it is asked: one halt for a batch that is all of the other side, and
nothing for a foreign row, a frozen row of the other side or a fill that was refused. -/
def batchCore (order : OrderRow) (inv : MarketInventory) (event : OrderEvent)
    (pre : List (ExecutionEvidence × PreCore)) (staging : Staging) :
    Option (TransitionOutcome × OrderCtx) :=
  let admitted := admittedFills staging pre
  if rowForeign order inv then none
  else if allSideMismatch pre then
    if isRestartFrozen order.state then none
    else
      some (haltWithReason (.crossCheckMismatch "execution side mismatch with order ctx.side") [],
        order.ctx)
  else if !admitted.isEmpty || isStructured event then
    some (applyEvent order.state order.ctx (rebuildEventWithFills event admitted (admittedAt pre)))
  else none

/-! ## Outcomes -/

/-- What the outcomes of a batch are computed from. -/
structure Settlement where
  order : OrderRow
  inv : MarketInventory
  staging : Staging
  ctxAfter : OrderCtx
  batchOutcome : BatchOutcome

/-- A newly ingested execution of a foreign row is published as it was staged in the end. -/
def publishStaged (staging : Staging) (id : FillId) (inventory : InventoryDisposition)
    (entryAfter : Option InventoryEntry) : Option InventoryEntry :=
  match inventory, staging.get? id with
  | .ingested .rowForeign, some sp =>
      entryAfter.map fun ent =>
        { ent with
          venueOrderId := sp.venueOrderId
          feeCents := sp.feeCents
          claimedClientOrderId := sp.claimedClientOrderId }
  | _, _ => entryAfter

def InventoryDisposition.writes : InventoryDisposition → Bool
  | .ingested _ | .upgraded => true
  | .duplicate | .conflict _ | .unchanged => false

def admittedOrder (st : Settlement) (id : FillId) : OrderDisposition :=
  let before := st.order.ctx.appliedFills.get? id
  let after := st.ctxAfter.appliedFills.get? id
  if after.isNone then .notAttributedByOrder st.batchOutcome
  else if before.isNone then
    if st.batchOutcome = .halt .postTerminalFill then .lateBooked else .attributed
  else if before ≠ after then .enriched
  else .duplicate

def isAttribution : OrderDisposition → Bool
  | .attributed | .lateBooked | .duplicate | .enriched => true
  | .ignored _ | .notAttributedByOrder _ | .noRow | .refused _ => false

def admittedProvenance : OrderDisposition → InventoryProvenance
  | .duplicate | .enriched => .recovered
  | .attributed | .ignored _ => .attributed
  | .lateBooked => .lateBooked
  | .notAttributedByOrder o => .notAttributedByOrder o
  | .refused r => .refused r
  | .noRow => .noRow

def ownerFor (disposition : OrderDisposition) (cid : ClientOrderId) (foreign inAfter : Bool) :
    Option ClientOrderId :=
  if foreign || !inAfter then none
  else if isAttribution disposition then some cid
  else none

/-- The outcome of one evidence, and the entry planned for its execution. -/
def settleAdmitted (st : Settlement) (e : ExecutionEvidence) (staged : StagedPayload) :
    ExecutionOutcome × Option InventoryEntry :=
  let id := e.executionId
  let cid := st.order.ctx.clientOrderId
  let inAfter := st.ctxAfter.appliedFills.contains id
  let disposition := admittedOrder st id
  let final := (st.staging.get? id).getD staged
  match st.inv.get id with
  | none =>
      let provenance := admittedProvenance disposition
      let entry : InventoryEntry :=
        { side := final.side
          qty := final.qty
          priceCents := final.priceCents
          firstSeenTsNs := e.tsNs
          venueOrderId := final.venueOrderId
          claimedClientOrderId := e.claimedClientOrderId
          owner := ownerFor disposition cid false inAfter
          feeCents := final.feeCents
          source := e.source
          provenance := provenance }
      (⟨e, disposition, .ingested provenance, some entry, none⟩, some entry)
  | some p =>
      let takes := p.owner.isNone && inAfter && isAttribution disposition
      let entry :=
        { p with
          owner := if takes then some cid else p.owner
          venueOrderId := fillIn p.venueOrderId final.venueOrderId
          feeCents := fillIn p.feeCents final.feeCents }
      if takes || fillsIn p.venueOrderId final.venueOrderId || fillsIn p.feeCents final.feeCents then
        (⟨e, disposition, .upgraded, some entry, none⟩, some entry)
      else (⟨e, disposition, .duplicate, some entry, none⟩, none)

def settle (st : Settlement) : ExecutionEvidence × PreCore → ExecutionOutcome × Option InventoryEntry
  | (e, .ignoredZero) => (⟨e, .ignored .zeroQty, .unchanged, none, none⟩, none)
  | (e, .refused order inventory entryAfter conflict) =>
      let entryAfter := publishStaged st.staging e.executionId inventory entryAfter
      (⟨e, order, inventory, entryAfter, conflict⟩, if inventory.writes then entryAfter else none)
  | (e, .admitted staged) => settleAdmitted st e staged

/-- The entries a list of settled evidences plans, oldest first. -/
def plannedWrites (settled : List (ExecutionOutcome × Option InventoryEntry)) :
    List (FillId × InventoryEntry) :=
  settled.filterMap fun (o, entry) => entry.map fun entry => (o.evidence.executionId, entry)

/-- The conflicts of a batch, oldest first. -/
def plannedFacts (pre : List (ExecutionEvidence × PreCore)) : List (FillId × ConflictFact) :=
  pre.filterMap fun (_, pc) =>
    match pc with
    | .refused _ _ _ (some fact) => some (fact.executionId, fact)
    | _ => none

/-! ## The transaction -/

/-- The order's record and what it leaves, when the core changed anything. -/
def orderPart (order : OrderRow) (event : OrderEvent) :
    Option (TransitionOutcome × OrderCtx) →
      Except PrepareError (Option (OrderTxnRecord × OrderAfter))
  | none => .ok none
  | some (t, ctxAfter) =>
      let stateAfter := stateAfterTransition t order.state
      if orderChanged order t stateAfter ctxAfter then do
        let seq ← order.cursor.next
        .ok (some (orderRecord order event t seq stateAfter ctxAfter, ⟨stateAfter, ctxAfter, seq⟩))
      else .ok none

def prepareExecutionBatch (order : OrderRow) (inv : MarketInventory) (event : OrderEvent)
    (evidences : List ExecutionEvidence) : Except PrepareError ExecutionTransaction := do
  checkEvidenceMatchesFills event.fills evidences
  checkBatchLedger inv evidences
  let (pre, staging) := adjudicate order inv evidences
  let core := batchCore order inv event pre staging
  let st : Settlement :=
    { order := order
      inv := inv
      staging := staging
      ctxAfter := (core.map (·.2)).getD order.ctx
      batchOutcome := (core.map fun c => outcomeFromTransition c.1).getD .accept }
  let settled := pre.map (settle st)
  let part ← orderPart order event core
  .ok
    { outcomes := settled.map (·.1)
      journal := executionJournal inv (settled.map (·.1)) (part.map (·.1))
      effects := (core.map fun c => nonJournal c.1.effects).getD []
      preparedInventoryLedger := inv.ledger
      expectedGeneration := inv.generation
      preparedOrder := some order
      after := part.map (·.2)
      plannedEntries := OrdMap.empty.insertAll (plannedWrites settled)
      plannedConflicts := OrdMap.empty.insertAll (plannedFacts pre) }

/-- One evidence, for a row or without one. -/
def prepareExecution (order : Option OrderRow) (inv : MarketInventory) (e : ExecutionEvidence) :
    Except PrepareError ExecutionTransaction :=
  match order with
  | none => prepareExecutionNorow inv e
  | some row =>
      prepareExecutionBatch row inv
        (.fill ⟨e.executionId, e.qty, e.priceCents, e.tsNs, e.venueOrderId, e.feeCents⟩) [e]

end Omsrs.Execution
