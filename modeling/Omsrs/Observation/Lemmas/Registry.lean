import Omsrs.Execution.Lemmas.Install
import Omsrs.Observation.Registry

/-!
# Each wire folds the journal on its own

Folding a record changes a wire as if the wire were alone: what it becomes depends on the record, the
record's position and the wire before.
-/

namespace Omsrs.Observation
open Omsrs.Lib Omsrs.Lifecycle Omsrs.Execution

namespace WireRegistry

/-! ## Reading a wire back -/

@[simp] theorem get_set (r : WireRegistry) (l l' : LedgerId) (w w' : VenueOrderId) (ws : WireState) :
    (r.set l w ws).get l' w' = if l' = l ∧ w' = w then some ws else r.get l' w' := by
  simp only [get, set, OrdMap.get?_insert, WireKey.mk.injEq]

theorem ensure_set (r : WireRegistry) (l l' : LedgerId) (w w' : VenueOrderId) (ws : WireState) :
    (r.set l w ws).ensure l' w' = if l' = l ∧ w' = w then ws else r.ensure l' w' := by
  simp only [ensure, get_set]
  split <;> rfl

@[simp] theorem ensure_set_self (r : WireRegistry) (l : LedgerId) (w : VenueOrderId) (ws : WireState) :
    (r.set l w ws).ensure l w = ws := by simp [ensure_set]

theorem ensure_of_get {r : WireRegistry} {l : LedgerId} {w : VenueOrderId} {ws : WireState}
    (h : r.get l w = some ws) : r.ensure l w = ws := by simp [ensure, h]

@[simp] theorem ensure_new (l : LedgerId) (w : VenueOrderId) : new.ensure l w = .venueOnly := rfl

end WireRegistry

/-! ## Members -/

namespace WireState

@[simp] theorem terminalize_venueOnly (cid : ClientOrderId) : venueOnly.terminalize cid = venueOnly :=
  rfl

@[simp] theorem hasMember_venueOnly (cid : ClientOrderId) : venueOnly.hasMember cid = false := rfl

/-! ## What a core record does to a wire -/

/-- What a core record of the transaction `o` does to the wire `l`, `w`. -/
def core (pos : Nat) (o : OrderTxnRecord) (l : LedgerId) (w : VenueOrderId) (ws : WireState) :
    JournalRecord → WireState
  | .venueBoundCid cid wire => if l = o.ledger ∧ w = wire then ws.bind pos cid else ws
  | .orderTerminal .. | .halted _ => if l = o.ledger then ws.terminalize o.clientOrderId else ws
  | .ownActionCid cid _ => if l = o.ledger && ws.hasMember cid then ws.bump else ws
  | _ => ws

end WireState

namespace WireRegistry

theorem ensure_mapValues (r : WireRegistry) (f : WireKey → WireState → WireState) (l : LedgerId)
    (w : VenueOrderId) (hf : f ⟨l, w⟩ .venueOnly = .venueOnly) :
    WireRegistry.ensure { r with wires := r.wires.mapValues f } l w = f ⟨l, w⟩ (r.ensure l w) := by
  simp only [ensure, get, OrdMap.get?_mapValues]
  cases r.wires.get? ⟨l, w⟩ with
  | none => exact hf.symm
  | some ws => rfl

theorem ensure_foldCore (r : WireRegistry) (pos : Nat) (o : OrderTxnRecord) (rec : JournalRecord)
    (l : LedgerId) (w : VenueOrderId) :
    (foldCore pos o r rec).ensure l w = (r.ensure l w).core pos o l w rec := by
  cases rec with
  | venueBoundCid cid wire =>
      simp only [foldCore, bindMember, WireState.core, ensure_set]
      split
      · rename_i h
        rw [h.1, h.2]
      · rfl
  | orderTerminal _ _ _ _ _ _ _ =>
      simp only [foldCore, terminalizeCid, WireState.core]
      rw [ensure_mapValues _ _ _ _ (by simp)]
  | halted _ =>
      simp only [foldCore, terminalizeCid, WireState.core]
      rw [ensure_mapValues _ _ _ _ (by simp)]
  | ownActionCid cid _ =>
      simp only [foldCore, bumpGeneration, WireState.core]
      rw [ensure_mapValues _ _ _ _ (by simp)]
  | _ => rfl

theorem ensure_foldCores (r : WireRegistry) (pos : Nat) (o : OrderTxnRecord) (recs : List JournalRecord)
    (l : LedgerId) (w : VenueOrderId) :
    (recs.foldl (foldCore pos o) r).ensure l w =
      recs.foldl (WireState.core pos o l w) (r.ensure l w) := by
  induction recs generalizing r with
  | nil => rfl
  | cons rec recs ih => rw [List.foldl_cons, ih, ensure_foldCore, List.foldl_cons]

/-! ## The end of an order -/

/-- The wire on which a record ends its order in one of the two ways that may clear a hold. -/
def endedWire (o : OrderTxnRecord) : Option VenueOrderId :=
  if (decide (o.event = "UserOrderTerminalClaim") ||
        decide (o.event = "Fill") && decide (o.stateAfter = .filled)) &&
      (decide (o.stateAfter = .canceled) || decide (o.stateAfter = .filled) ||
        decide (o.stateAfter = .terminal)) then
    o.ctxAfter.venueOrderId
  else none

theorem terminalHoldWire_iff {r : WireRegistry} {o : OrderTxnRecord} {w : VenueOrderId} :
    r.terminalHoldWire o = some w ↔
      endedWire o = some w ∧ provesEnd o w (r.ensure o.ledger w) = true := by
  simp only [terminalHoldWire, endedWire]
  split
  · rw [Option.filter_eq_some_iff]
    refine and_congr_right fun _ => ?_
    simp only [ensure]
    cases r.get o.ledger w <;> rfl
  · simp

end WireRegistry

/-! ## What a record does to a wire -/

namespace WireState
open WireRegistry

/-- The record of an order, on the wire `l`, `w`. The hold is judged on the wire before it. -/
def foldOrder (pos : Nat) (o : OrderTxnRecord) (l : LedgerId) (w : VenueOrderId) (ws : WireState) :
    WireState :=
  let after := o.coreRecords.foldl (core pos o l w) ws
  if l = o.ledger ∧ endedWire o = some w ∧ provesEnd o w ws then dischargeEnd o after else after

/-- An execution, on the wire `l`, `w`. -/
def foldExecution (ledger : LedgerId) (l : LedgerId) (w : VenueOrderId) (ws : WireState)
    (o : ExecutionOutcome) : WireState :=
  match o.write with
  | some (id, entry) =>
      if l = ledger ∧ entry.venueOrderId = some w then ws.hold id entry else ws
  | none => ws

/-- An observation's record leaves the wire it has computed. -/
def observed (t : ObservationTxnRecord) : WireState :=
  t.membersAfter.foldl
    (fun ws m => if isTerminalState m.stateAfter then ws.terminalize m.clientOrderId else ws) t.wireAfter

/-- What a record does to the wire `l`, `w`; `isNew` says that its order part was not seen before. -/
def fold (isNew : Bool) (pos : Nat) (l : LedgerId) (w : VenueOrderId) (ws : WireState) :
    Record → WireState
  | .orderTxn o => if isNew then ws.foldOrder pos o l w else ws
  | .executionTxn e =>
      e.executions.foldl (foldExecution e.ledger l w)
        (match e.order with
        | some o => if isNew then ws.foldOrder pos o l w else ws
        | none => ws)
  | .observationTxn t => if l = t.ledger ∧ w = t.wire then observed t else ws
  | .amendLineage ledger wire lineage =>
      if l = ledger ∧ w = wire then ws.setLineage lineage else ws
  | .userOrderReceived ledger wire e => if l = ledger ∧ w = wire then ws.receive pos e else ws
  | .orderAuthorityHold ledger wire => if l = ledger ∧ w = wire then ws.holdAuthority pos else ws
  | .orderStateTxn t => if l = t.ledger ∧ w = t.wire then t.wireAfter else ws
  | .restOrderProofTxn t => if l = t.ledger ∧ w = t.wire then t.wireAfter else ws
  | .core _ | .userOrderQuarantined .. | .userOrderStaged .. => ws

end WireState

namespace WireRegistry

/-- The place of a record's order part in the sequence of its order. -/
def txnKey (o : OrderTxnRecord) : TxnKey := ⟨o.ledger, o.clientOrderId, o.seq⟩

def orderPart : Record → Option OrderTxnRecord
  | .orderTxn o => some o
  | .executionTxn e => e.order
  | _ => none

/-- The order part of a record was not seen before. -/
def isNew (r : WireRegistry) (rec : Record) : Bool :=
  (orderPart rec).all fun o => (r.seenOrder.get? (txnKey o)).isNone

theorem ensure_modify (r : WireRegistry) (f : WireState → WireState) (l l' : LedgerId)
    (w w' : VenueOrderId) (hf : f .venueOnly = .venueOnly) :
    WireRegistry.ensure { r with wires := r.wires.modify ⟨l, w⟩ f } l' w' =
      if l' = l ∧ w' = w then f (r.ensure l' w') else r.ensure l' w' := by
  simp only [ensure, get, OrdMap.get?_modify, WireKey.mk.injEq]
  split
  · rename_i h
    rw [h.1, h.2]
    cases r.wires.get? ⟨l, w⟩ with
    | none => exact hf.symm
    | some ws => rfl
  · rfl

/-- Folding the order part: a record that was seen changes nothing, a new one is folded on every wire
and remembered. -/
theorem foldOrderPart_ok {r r' : WireRegistry} {pos : Nat} {o : OrderTxnRecord}
    (h : r.foldOrderPart pos o = .ok r') :
    (r.seenOrder.get? (txnKey o) = some o ∧ r' = r) ∨
      (r.seenOrder.get? (txnKey o) = none ∧ r'.seenOrder = r.seenOrder.insert (txnKey o) o ∧
        ∀ l w, r'.ensure l w = (r.ensure l w).foldOrder pos o l w) := by
  have hseen : ∀ (recs : List JournalRecord) (r : WireRegistry),
      (recs.foldl (foldCore pos o) r).seenOrder = r.seenOrder := by
    intro recs
    induction recs with
    | nil => exact fun _ => rfl
    | cons rec recs ih =>
        intro r
        rw [List.foldl_cons, ih]
        cases rec <;> rfl
  simp only [foldOrderPart] at h
  split at h
  · rename_i prev hprev
    split at h
    · cases h
    · rename_i heq
      cases h
      exact .inl ⟨by rw [txnKey, hprev, not_not.mp heq], rfl⟩
  · rename_i hnone
    refine .inr ⟨hnone, ?_⟩
    have hends : ∀ w, (terminalHoldWire { r with
        seenOrder := r.seenOrder.insert ⟨o.ledger, o.clientOrderId, o.seq⟩ o } o = some w ↔
          endedWire o = some w ∧ provesEnd o w (r.ensure o.ledger w) = true) := fun w =>
      terminalHoldWire_iff
    split at h
    · rename_i wire hwire
      cases h
      refine ⟨hseen _ _, fun l w => ?_⟩
      rw [ensure_modify _ _ _ _ _ _ rfl, ensure_foldCores]
      obtain ⟨he, hp⟩ := (hends wire).mp hwire
      simp only [WireState.foldOrder, he, Option.some.injEq]
      by_cases hw : l = o.ledger ∧ w = wire
      · rw [if_pos hw, if_pos ⟨hw.1, hw.2.symm, by rw [hw.1, hw.2]; exact hp⟩]
        rfl
      · rw [if_neg hw, if_neg fun hc => hw ⟨hc.1, hc.2.1.symm⟩]
        rfl
    · rename_i hwire
      cases h
      refine ⟨hseen _ _, fun l w => ?_⟩
      rw [ensure_foldCores, WireState.foldOrder, if_neg]
      · rfl
      · intro hc
        have := (hends w).mpr ⟨hc.2.1, by rw [← hc.1]; exact hc.2.2⟩
        rw [hwire] at this
        cases this

theorem ensure_foldExecution (r : WireRegistry) (ledger : LedgerId) (o : ExecutionOutcome) (l : LedgerId)
    (w : VenueOrderId) :
    (foldExecution ledger r o).ensure l w = (r.ensure l w).foldExecution ledger l w o := by
  have hindex : (r.indexExecution o).wires = r.wires := by
    simp only [indexExecution]
    split <;> rfl
  have hensure : ∀ l w, (r.indexExecution o).ensure l w = r.ensure l w := fun l w => by
    simp only [ensure, get, hindex]
  have hset : ∀ (entry : InventoryEntry) (wire : VenueOrderId),
      ((r.indexExecution o).set ledger wire
          (((r.indexExecution o).ensure ledger wire).hold o.evidence.executionId entry)).ensure l w =
        if l = ledger ∧ some wire = some w then (r.ensure l w).hold o.evidence.executionId entry
        else r.ensure l w := by
    intro entry wire
    simp only [ensure_set, hensure, Option.some.injEq, eq_comm (a := w)]
    split
    · rename_i h
      rw [h.1, ← h.2]
    · rfl
  simp only [foldExecution, WireState.foldExecution, ExecutionOutcome.write]
  cases o.inventory <;> cases o.entryAfter
  case ingested.some entry | upgraded.some entry =>
    simp only [InventoryDisposition.writes, if_true, Option.map_some]
    cases hv : entry.venueOrderId with
    | none => simp only [reduceCtorEq, and_false, if_false, hensure]
    | some wire => simpa only [hv] using hset entry wire
  all_goals exact hensure l w

theorem ensure_foldExecutions (r : WireRegistry) (ledger : LedgerId) (os : List ExecutionOutcome)
    (l : LedgerId) (w : VenueOrderId) :
    (r.foldExecutions ledger os).ensure l w =
      os.foldl (WireState.foldExecution ledger l w) (r.ensure l w) := by
  induction os generalizing r with
  | nil => rfl
  | cons o os ih =>
      rw [foldExecutions, List.foldl_cons, List.foldl_cons, ← ensure_foldExecution]
      exact ih _

theorem ensure_foldObservation (r : WireRegistry) (t : ObservationTxnRecord) (l : LedgerId)
    (w : VenueOrderId) :
    (r.foldObservation t).ensure l w =
      if l = t.ledger ∧ w = t.wire then WireState.observed t else r.ensure l w := by
  have hfold : ∀ (ms : List MemberAfter) (r : WireRegistry),
      WireRegistry.ensure (ms.foldl (fun r m =>
        if isTerminalState m.stateAfter then
          { r with wires := r.wires.modify ⟨t.ledger, t.wire⟩ (·.terminalize m.clientOrderId) }
        else r) r) l w =
        if l = t.ledger ∧ w = t.wire then
          ms.foldl (fun ws m =>
            if isTerminalState m.stateAfter then ws.terminalize m.clientOrderId else ws) (r.ensure l w)
        else r.ensure l w := by
    intro ms
    induction ms with
    | nil => intro r; split <;> rfl
    | cons m ms ih =>
        intro r
        rw [List.foldl_cons, ih, List.foldl_cons]
        by_cases hm : isTerminalState m.stateAfter = true
        · simp only [hm, if_true]
          rw [ensure_modify r (·.terminalize m.clientOrderId) t.ledger l t.wire w rfl]
          split <;> rfl
        · simp only [hm]
          rfl
  rw [foldObservation, hfold, ensure_set, WireState.observed]
  split <;> rfl

/-- Folding a record, on one wire. -/
theorem ensure_fold {r r' : WireRegistry} {pos : Nat} {rec : Record} (h : r.fold pos rec = .ok r')
    (l : LedgerId) (w : VenueOrderId) :
    r'.ensure l w = (r.ensure l w).fold (r.isNew rec) pos l w rec := by
  have horder : ∀ {o : OrderTxnRecord} {r₁ : WireRegistry}, r.foldOrderPart pos o = .ok r₁ →
      r₁.ensure l w =
        if (r.seenOrder.get? (txnKey o)).isNone then (r.ensure l w).foldOrder pos o l w
        else r.ensure l w := by
    intro o r₁ h₁
    rcases foldOrderPart_ok h₁ with ⟨hs, rfl⟩ | ⟨hs, -, hw⟩
    · simp [hs]
    · simp [hs, hw]
  have hset : ∀ (ledger : LedgerId) (wire : VenueOrderId) (f : WireState → WireState),
      (r.set ledger wire (f (r.ensure ledger wire))).ensure l w =
        if l = ledger ∧ w = wire then f (r.ensure l w) else r.ensure l w := by
    intro ledger wire f
    rw [ensure_set]
    split
    · rename_i hw
      rw [hw.1, hw.2]
    · rfl
  cases rec with
  | orderTxn o => exact horder h
  | executionTxn e =>
      simp only [fold] at h
      cases he : e.order with
      | none =>
          simp only [he] at h
          cases h
          simp only [WireState.fold, he]
          exact ensure_foldExecutions _ _ _ _ _
      | some o =>
          simp only [he] at h
          cases ho : r.foldOrderPart pos o with
          | error err => rw [ho] at h; cases h
          | ok r₁ =>
              rw [ho] at h
              cases h
              simp only [WireState.fold, he]
              refine (ensure_foldExecutions _ _ _ _ _).trans ?_
              rw [horder ho, isNew, orderPart, he]
              rfl
  | observationTxn t =>
      cases h
      exact ensure_foldObservation _ _ _ _
  | amendLineage ledger wire lineage =>
      cases h
      exact hset ledger wire (·.setLineage lineage)
  | userOrderReceived ledger wire e =>
      cases h
      exact hset ledger wire (·.receive pos e)
  | orderAuthorityHold ledger wire =>
      cases h
      exact hset ledger wire (·.holdAuthority pos)
  | orderStateTxn t =>
      cases h
      exact ensure_set _ _ _ _ _ _
  | restOrderProofTxn t =>
      cases h
      exact ensure_set _ _ _ _ _ _
  | core _ => cases h; rfl
  | userOrderQuarantined _ _ _ _ => cases h; rfl
  | userOrderStaged _ _ _ => cases h; rfl

end WireRegistry

end Omsrs.Observation
