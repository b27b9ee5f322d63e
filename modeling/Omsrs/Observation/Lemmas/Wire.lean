import Omsrs.Observation.Lemmas.Registry

/-!
# What the record of an order leaves alone

Binding, ending and acting on an order change the members of a wire, its generation and its flags. The
evidence the venue gave of the wire stays.
-/

namespace Omsrs.Observation
open Omsrs.Lib Omsrs.Lifecycle Omsrs.Execution

/-- The evidence of the wire is the same. -/
structure SameEvidence (ws ws' : WireState) : Prop where
  held : ws'.held = ws.held
  filledHw : ws'.filledHw = ws.filledHw
  status : ws'.status = ws.status
  last : ws'.last = ws.last
  resolved : ws'.resolved = ws.resolved
  amendLineage : ws'.amendLineage = ws.amendLineage
  latestUserOrder : ws'.latestUserOrder = ws.latestUserOrder
  latestUserOrderRevision : ws'.latestUserOrderRevision = ws.latestUserOrderRevision
  observedExchangeIndex : ws'.observedExchangeIndex = ws.observedExchangeIndex
  authorityHoldRevision : ws'.authorityHoldRevision = ws.authorityHoldRevision

namespace SameEvidence

theorem refl (ws : WireState) : SameEvidence ws ws := by constructor <;> rfl

theorem trans {a b c : WireState} (h : SameEvidence a b) (h' : SameEvidence b c) :
    SameEvidence a c where
  held := h'.held.trans h.held
  filledHw := h'.filledHw.trans h.filledHw
  status := h'.status.trans h.status
  last := h'.last.trans h.last
  resolved := h'.resolved.trans h.resolved
  amendLineage := h'.amendLineage.trans h.amendLineage
  latestUserOrder := h'.latestUserOrder.trans h.latestUserOrder
  latestUserOrderRevision := h'.latestUserOrderRevision.trans h.latestUserOrderRevision
  observedExchangeIndex := h'.observedExchangeIndex.trans h.observedExchangeIndex
  authorityHoldRevision := h'.authorityHoldRevision.trans h.authorityHoldRevision

end SameEvidence

namespace WireState

theorem bind_sameEvidence (ws : WireState) (pos : Nat) (cid : ClientOrderId) :
    SameEvidence ws (ws.bind pos cid) := by
  simp only [bind]
  split
  · exact .refl ws
  · constructor <;> rfl

theorem core_sameEvidence (ws : WireState) (pos : Nat) (o : OrderTxnRecord) (l : LedgerId)
    (w : VenueOrderId) (rec : JournalRecord) : SameEvidence ws (ws.core pos o l w rec) := by
  cases rec with
  | venueBoundCid cid wire =>
      simp only [core]
      split
      · exact ws.bind_sameEvidence pos cid
      · exact .refl ws
  | orderTerminal _ _ _ _ _ _ _ => simp only [core]; split <;> constructor <;> rfl
  | halted _ => simp only [core]; split <;> constructor <;> rfl
  | ownActionCid _ _ => simp only [core]; split <;> constructor <;> rfl
  | _ => exact .refl ws

theorem cores_sameEvidence (ws : WireState) (pos : Nat) (o : OrderTxnRecord) (l : LedgerId)
    (w : VenueOrderId) (recs : List JournalRecord) :
    SameEvidence ws (recs.foldl (core pos o l w) ws) := by
  induction recs generalizing ws with
  | nil => exact .refl ws
  | cons rec recs ih => exact (ws.core_sameEvidence pos o l w rec).trans (ih _)

theorem dischargeEnd_sameEvidence (o : OrderTxnRecord) (ws : WireState) :
    SameEvidence ws (WireRegistry.dischargeEnd o ws) := by
  simp only [WireRegistry.dischargeEnd]
  split
  · constructor <;> rfl
  · exact .refl ws

theorem foldOrder_sameEvidence (ws : WireState) (pos : Nat) (o : OrderTxnRecord) (l : LedgerId)
    (w : VenueOrderId) : SameEvidence ws (ws.foldOrder pos o l w) := by
  simp only [foldOrder]
  split
  · exact (ws.cores_sameEvidence pos o l w _).trans (dischargeEnd_sameEvidence o _)
  · exact ws.cores_sameEvidence pos o l w _

end WireState

end Omsrs.Observation
