import Omsrs.Observation.Lemmas.Registry
import Omsrs.Observation.Proof

/-!
# What a preparation has checked

The records that are prepared of a wire, each with what was asked of the wire before it.
-/

namespace Omsrs.Observation
open Omsrs.Lib Omsrs.Lifecycle Omsrs.Execution

theorem exceptMap_ok {ε α β : Type} {x : Except ε α} {f : α → β} {y : β} :
    x.map f = .ok y ↔ ∃ a, x = .ok a ∧ f a = y := by
  cases x <;> simp [Except.map]

theorem exceptBind_ok {ε α β : Type} {x : Except ε α} {f : α → Except ε β} {y : β} :
    x >>= f = .ok y ↔ ∃ a, x = .ok a ∧ f a = .ok y := by
  cases x <;> simp [bind, Except.bind]

variable {r : WireRegistry} {l : LedgerId} {w : VenueOrderId} {inv : MarketInventory}

/-! ## Lineages and frames -/

/-- What is asked of a frame before it is compared with the latest one. -/
structure Admissible (ledger : LedgerId) (wire : VenueOrderId) (ws : WireState)
    (e : UserOrderEvidence) : Prop where
  identified : ws.frameIdentified ledger wire e = true
  belongs : ws.frameBelongs e = true
  quantity : quantityValid e = true

namespace WireRegistry

theorem prepareAmendLineage_ok {lineage : AmendLineage} {rec : Record}
    (h : r.prepareAmendLineage l w lineage = .ok rec) :
    rec = .amendLineage l w (some lineage) ∧ ∃ ws, r.get l w = some ws ∧
      ws.checkLineage lineage = .ok () := by
  simp only [prepareAmendLineage] at h
  split at h
  · cases h
  · rename_i ws hws
    obtain ⟨u, hu, heq⟩ := exceptBind_ok.mp h
    cases heq
    exact ⟨rfl, ws, hws, hu⟩

theorem prepareUserOrderReceived_some {r : WireRegistry} {ledger : LedgerId} {wire : VenueOrderId}
    {e : UserOrderEvidence} {rec : Record} :
    r.prepareUserOrderReceived ledger wire e = .ok (some rec) ↔
      rec = .userOrderReceived ledger wire e ∧ Admissible ledger wire (r.ensure ledger wire) e ∧
        (r.ensure ledger wire).checkFrame e = .ok true := by
  simp only [prepareUserOrderReceived, ensure]
  cases r.get ledger wire with
  | none =>
      refine iff_of_false (by simp) fun h => ?_
      cases h.2.1.belongs
  | some ws =>
      simp only [Option.getD_some]
      by_cases hi : ws.frameIdentified ledger wire e = true
      · by_cases hb : ws.frameBelongs e = true
        · by_cases hq : quantityValid e = true
          · simp only [hi, hb, hq, Bool.not_true, Bool.false_eq_true, if_false]
            have hadm : Admissible ledger wire ws e := ⟨hi, hb, hq⟩
            cases hc : ws.checkFrame e with
            | error err => simp [bind, Except.bind]
            | ok isNew => cases isNew <;> simp [bind, Except.bind, hadm, eq_comm]
          · simp only [hi, hb, hq, Bool.not_true, Bool.not_false, Bool.false_eq_true, if_false, if_true]
            exact iff_of_false (by simp) fun h => hq h.2.1.quantity
        · simp only [hi, hb, Bool.not_true, Bool.not_false, Bool.false_eq_true, if_false, if_true]
          exact iff_of_false (by simp) fun h => hb h.2.1.belongs
      · simp only [hi, Bool.not_false, if_true]
        exact iff_of_false (by simp) fun h => hi h.2.1.identified

end WireRegistry

/-! ## Proofs of the remaining quantity -/

/-- What a resting frame has proved of its wire. -/
structure Rests (ws : WireState) (inv : MarketInventory) (e : UserOrderEvidence) : Prop where
  free : ws.authorityHold = false
  latest : ws.latestUserOrder = some e
  current : ws.currentCid = some e.clientOrderId
  filled : ws.checkedHeldQty inv = some e.filled

/-- What a page has proved of its wire. -/
structure Paged (ws : WireState) (inv : MarketInventory) (cid : ClientOrderId) (filled : Nat) :
    Prop where
  current : ws.currentCid = some cid
  last : ws.last = some (.consistent false)
  lineage : ∃ lineage, ws.amendLineage = some lineage ∧
    checkedAdd u64Max lineage.preGeneration 1 = some ws.generation
  filled : ws.checkedHeldQty inv = some filled

theorem checkFilled_ok {ws : WireState} {filled : Nat} (h : ws.checkFilled inv filled = .ok ()) :
    ws.checkedHeldQty inv = some filled := by
  simp only [WireState.checkFilled] at h
  split at h
  · rename_i q hq
    split at h
    · rename_i heq
      rw [hq, heq]
    · cases h
  · cases h

theorem restingFrame_ok {ws : WireState} {e : UserOrderEvidence}
    (h : ws.restingFrame inv = .ok e) : Rests ws inv e := by
  simp only [WireState.restingFrame] at h
  split at h
  · cases h
  · rename_i hhold
    split at h
    · cases h
    · rename_i e' he
      split at h
      · cases h
      · split at h
        · cases h
        · rename_i hcur
          obtain ⟨_, _, h⟩ := exceptBind_ok.mp h
          obtain ⟨_, hfilled, h⟩ := exceptBind_ok.mp h
          cases h
          exact ⟨by simpa using hhold, he, not_not.mp hcur, checkFilled_ok hfilled⟩

theorem nextGeneration_ok {lineage : AmendLineage} {g : Nat} (h : nextGeneration lineage = .ok g) :
    checkedAdd u64Max lineage.preGeneration 1 = some g := by
  simp only [nextGeneration] at h
  split at h
  · rename_i g' hg
    cases h
    exact hg
  · cases h

theorem checkRestPage_ok {ws : WireState} {cid : ClientOrderId} {filled remaining initial : Nat}
    (h : ws.checkRestPage inv cid filled remaining initial = .ok ()) : Paged ws inv cid filled := by
  simp only [WireState.checkRestPage] at h
  obtain ⟨lineage, hlin, h⟩ := exceptBind_ok.mp h
  split at h
  · cases h
  · rename_i hq
    simp only [not_or, not_not] at hq
    simp only [WireState.checkRestLineage] at hlin
    split at hlin
    · cases hlin
    · rename_i lineage' hl
      split at hlin
      · cases hlin
      · rename_i hc
        simp only [not_or, not_not] at hc
        obtain ⟨g, hg, hlin⟩ := exceptBind_ok.mp hlin
        split at hlin
        · cases hlin
        · rename_i hgen
          cases hlin
          exact ⟨hc.2.1, hq.2.2, ⟨_, hl, not_not.mp hgen ▸ nextGeneration_ok hg⟩, checkFilled_ok h⟩

namespace WireRegistry

theorem prepareOrderStateResting_ok {t : OrderStateTxnRecord}
    (h : r.prepareOrderStateResting l w inv = .ok t) :
    ∃ e, Rests (r.ensure l w) inv e ∧ t.ledger = l ∧ t.wire = w ∧ t.evidence = e ∧
      t.wireAfter = (r.ensure l w).proved e.clientOrderId e.remaining := by
  simp only [prepareOrderStateResting] at h
  split at h
  · cases h
  · rename_i ws hws
    obtain ⟨e, he, h⟩ := exceptBind_ok.mp h
    cases h
    rw [ensure_of_get hws]
    exact ⟨e, restingFrame_ok he, rfl, rfl, rfl, rfl⟩

theorem prepareRestOrderProof_ok {t : RestOrderProofTxnRecord} {cid : ClientOrderId}
    {filled remaining initial : Nat}
    (h : r.prepareRestOrderProof l w cid filled remaining initial inv = .ok t) :
    Paged (r.ensure l w) inv cid filled ∧ t.ledger = l ∧ t.wire = w ∧ t.clientOrderId = cid ∧
      t.filled = filled ∧ t.remaining = remaining ∧
      t.wireAfter = { (r.ensure l w).proved cid remaining with authorityHold := false } := by
  simp only [prepareRestOrderProof] at h
  split at h
  · cases h
  · rename_i ws hws
    obtain ⟨u, hu, h⟩ := exceptBind_ok.mp h
    cases h
    rw [ensure_of_get hws]
    exact ⟨checkRestPage_ok hu, rfl, rfl, rfl, rfl, rfl, rfl⟩

end WireRegistry

end Omsrs.Observation
