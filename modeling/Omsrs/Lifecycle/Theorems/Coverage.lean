import Omsrs.Lifecycle.Lemmas.Waits
import Omsrs.Lifecycle.Theorems.Evidence
import Omsrs.Lifecycle.Theorems.Release

/-!
# Full coverage by fills

A fill that covers the rest of the order is authority enough for a terminal, and every path latches it,
except where the known terminal intent counts less than the order: there the order waits.
-/

namespace Omsrs.Lifecycle
open Omsrs.Lib

variable {c : OrderCtx} {f : FillRecord} {v : VenueOrderId} {fx : List Effect}

/-! ## The property and its condition -/

/-- The order reached a true terminal and gave its reservation back. -/
structure Finalised (out : TransitionOutcome) : Prop where
  state : ∃ s, out.newState = some s ∧ isTrueTerminal s = true
  release : .releaseReservation ∈ out.effects

/-! ## The gate of a covered order -/

/-- The order is attributed in full, by fills of its venue order, and its response is accounted for. -/
structure Covered (v : VenueOrderId) (c : OrderCtx) : Prop where
  venue : c.venueOrderId = some v
  full : c.attributedFillQty = c.qty
  obligation : c.fillObligation = c.qty
  carry : ∀ id p, c.appliedFills.get? id = some p → p.venueOrderId = some v
  domain : responseDomainGate c = none

theorem ownershipGate_carries (hv : c.venueOrderId = some v)
    (h : ∀ id p, c.appliedFills.get? id = some p → p.venueOrderId = some v) :
    ownershipGate c = none := by
  have hblock : ownershipBlock v c.appliedFills.entries = none := by
    refine List.findSome?_eq_none_iff.mpr fun e he => ?_
    have hp := h e.1 e.2 (OrdMap.mem_entries.mp he)
    simp [hp]
  simp [ownershipGate, hv, hblock]

/-- Full coverage, latched, passes every gate. -/
theorem Covered.gate (h : Covered v c) : finalizeGate c.latchAuthorityComplete = none := by
  have hown : ownershipGate c.latchAuthorityComplete = none := ownershipGate_carries h.venue h.carry
  have hdom : responseDomainGate c.latchAuthorityComplete = none := h.domain
  have hfresh : c.latchAuthorityComplete.authorityIsFresh = true := by
    simp [OrderCtx.authorityIsFresh, OrderCtx.latchAuthorityComplete]
  have heq : c.latchAuthorityComplete.attributedFillQty = c.latchAuthorityComplete.fillObligation :=
    h.full.trans h.obligation.symm
  simp [finalizeGate, hown, hfresh, heq, hdom]

theorem releaseTerminal_finalised (c : OrderCtx) (proposed : ProposedTerminal) (fx : List Effect) :
    Finalised (releaseTerminal c proposed fx) := by
  refine ⟨⟨proposed.state, rfl, ?_⟩, by simp [releaseTerminal, accept, TransitionOutcome.effects]⟩
  cases proposed <;> rfl

theorem notReady_not_finalised (c : OrderCtx) (v : VenueOrderId) (fx : List Effect)
    (fallback : ReconcileTerminal) (ask : Bool) (remaining : Option Nat) :
    ¬ Finalised (notReadyForTerminal c v fx fallback ask remaining) := by
  rintro ⟨⟨s, hs, ht⟩, -⟩
  cases hs
  cases ht

/-- A latched `Filled` is released exactly when the venue has nothing left. -/
theorem Covered.filled (h : Covered v c) (w : VenueOrderId) (fx : List Effect) (r : Nat) :
    Finalised (tryFinalizeTerminal c.latchAuthorityComplete (.filled c.qty r) w fx .filled) ↔ r = 0 := by
  have hrem : c.latchAuthorityComplete.remainingQtyChecked = some 0 := by
    simp [OrderCtx.remainingQtyChecked, OrderCtx.latchAuthorityComplete, checkedSub, h.full]
  have hqty : c.latchAuthorityComplete.qty = c.qty := rfl
  have hattr : c.latchAuthorityComplete.attributedFillQty = c.qty := h.full
  simp only [tryFinalizeTerminal, h.gate, finalizeFilled, hrem, hqty, hattr, lt_irrefl, if_false,
    ne_eq, not_true_eq_false, or_false, false_or]
  by_cases hr : r = 0
  · simp only [hr, not_true_eq_false, if_false, iff_true]
    exact releaseTerminal_finalised _ _ _
  · simp only [hr, not_false_eq_true, if_true, iff_false]
    exact notReady_not_finalised _ _ _ _ _ _

theorem Covered.released (h : Covered v c) (w : VenueOrderId) (fx : List Effect)
    (fallback : ReconcileTerminal) {proposed : ProposedTerminal}
    (hp : ∀ q r, proposed ≠ .filled q r) :
    Finalised (tryFinalizeTerminal c.latchAuthorityComplete proposed w fx fallback) := by
  cases proposed with
  | filled q r => exact absurd rfl (hp q r)
  | canceled => simpa only [tryFinalizeTerminal, h.gate] using releaseTerminal_finalised _ _ _
  | terminal => simpa only [tryFinalizeTerminal, h.gate] using releaseTerminal_finalised _ _ _

/-! ## The completing fill -/

/-- A target that counts the whole order finalises as its kind does. -/
theorem Covered.target (h : Covered v c) (w : VenueOrderId) (fx : List Effect) {t : ReconcileTarget}
    (ht : t.venueFilledQty = c.qty) :
    Finalised (finalizeReconcileTarget c.latchAuthorityComplete t fx w) ↔
      (t.terminal = .filled → (t.venueRemainingQty.or c.lastVenueRemainingQty).getD 0 = 0) := by
  have hlast : c.latchAuthorityComplete.lastVenueRemainingQty = c.lastVenueRemainingQty := rfl
  have hqty : c.latchAuthorityComplete.qty = c.qty := rfl
  cases hk : t.terminal with
  | canceled =>
      simp only [finalizeReconcileTarget, hk, reduceCtorEq, false_implies, iff_true]
      exact h.released w fx _ (by simp)
  | terminal =>
      simp only [finalizeReconcileTarget, hk, reduceCtorEq, false_implies, iff_true]
      exact h.released w fx _ (by simp)
  | filled =>
      simp only [finalizeReconcileTarget, hk, hlast, hqty, ht, if_true, true_implies]
      rw [h.filled]
      cases t.venueRemainingQty <;> simp

/-- A new fill of the bound venue order that brings a working order to its full quantity. -/
structure Completing (v : VenueOrderId) (o : Order) (f : FillRecord) (intent : Option ReconcileTarget) :
    Prop where
  working : o.state.intent = some intent
  bound : o.ctx.venueOrderId = some v
  named : f.venueOrderId = some v
  fresh : o.ctx.appliedFills.get? f.fillId = none
  counts : 0 < f.qty
  full : o.ctx.attributedFillQty + f.qty = o.ctx.qty

/-- What the claim grants after the fill: every booked fill is of the venue order, the response domain
is closed and consistent, and nothing halted. -/
structure Granted (v : VenueOrderId) (r : TransitionOutcome × OrderCtx) : Prop where
  carry : ∀ id p, r.2.appliedFills.get? id = some p → p.venueOrderId = some v
  domain : responseDomainGate r.2 = none
  quiet : r.1.isHalt = false

theorem afterFill_finalised {t : Option ReconcileTarget} {w : VenueOrderId} {n : Nat}
    (hv : c.venueOrderId = some v) (hfull : c.attributedFillQty = c.qty)
    (hobl : c.fillObligation = c.qty)
    (h : Granted v (afterFillCancelOrReconcile c w t fx n false)) :
    Finalised (afterFillCancelOrReconcile c w t fx n false).1 ↔ TargetCovers c t := by
  have hrem : c.remainingQtyChecked = some 0 := by
    simp [OrderCtx.remainingQtyChecked, checkedSub, hfull]
  simp only [afterFillCancelOrReconcile, hrem] at h ⊢
  cases t with
  | none =>
      simp only [and_self, if_true, noteAuthorityComplete] at h ⊢
      have hc : Covered v c := ⟨hv, hfull, hobl, h.carry, h.domain⟩
      have hattr : c.latchAuthorityComplete.attributedFillQty = c.qty := hfull
      rw [hattr, hc.filled]
      exact iff_of_true rfl trivial
  | some t =>
      simp only [afterFillTarget] at h ⊢
      cases hnote : noteFillEvidence c t.venueFilledQty with
      | error reason =>
          simp only [hnote] at h
          cases h.quiet
      | ok r =>
          obtain ⟨jr, d⟩ := r
          obtain ⟨hle, ⟨-, -, rfl⟩ | ⟨hlt, -, -⟩⟩ := noteFillEvidence_ok hnote
          · simp only [hnote, hfull, hobl, le_refl, if_true, and_true, beq_self_eq_true] at h ⊢
            by_cases hlow : t.venueFilledQty < d.qty
            · simp only [hlow, if_true]
              refine iff_of_false (notReady_not_finalised _ _ _ _ _ _) fun hcov => ?_
              exact absurd hcov.1 (by omega)
            · have heq : t.venueFilledQty = d.qty := by omega
              simp only [heq, lt_irrefl, if_false, if_true, noteAuthorityComplete] at h ⊢
              have hc : Covered v d := ⟨hv, hfull, hobl, h.carry, h.domain⟩
              rw [hc.target _ _ heq, TargetCovers, heq]
              exact ⟨fun h => ⟨le_refl _, h⟩, fun h => h.2⟩
          · omega

theorem live_finalised {w : VenueOrderId} (hv : c.venueOrderId = some v)
    (hfull : c.attributedFillQty = c.qty) (hobl : c.fillObligation = c.qty)
    (h : Granted v (routeLiveOrFilled c w fx)) : Finalised (routeLiveOrFilled c w fx).1 := by
  have hrem : c.remainingQtyChecked = some 0 := by
    simp [OrderCtx.remainingQtyChecked, checkedSub, hfull]
  simp only [routeLiveOrFilled, hrem, if_true, noteAuthorityComplete] at h ⊢
  have hc : Covered v c := ⟨hv, hfull, hobl, h.carry, h.domain⟩
  have hattr : c.latchAuthorityComplete.attributedFillQty = c.qty := hfull
  rw [hattr, hc.filled]

/-- A completing fill finalises a working order exactly when the known target counts it all. -/
theorem Completing.finalised_iff {o : Order} {t : Option ReconcileTarget} (h : Completing v o f t)
    (ha : o.ctx.fillObligation ≤ o.ctx.qty) (hg : Granted v (applyEvent o.state o.ctx (.fill f))) :
    Finalised (applyEvent o.state o.ctx (.fill f)).1 ↔ TargetCovers o.ctx t := by
  have hopen : applyEvent o.state o.ctx (.fill f) = applyFillWhileOpen o.state o.ctx f := by
    have hw := h.working
    cases hs : o.state <;> rw [hs] at hw <;> first | rfl | cases hw
  rw [hopen] at hg ⊢
  have hsight : firstSightingMismatch o.ctx f = none :=
    firstSightingMismatch_of_venue fun w hw => h.named.trans (h.bound.symm.trans hw)
  obtain ⟨hattr, hobl, hvenue, hqty, hlast⟩ :
      (bookedCtx o.ctx f).attributedFillQty = (bookedCtx o.ctx f).qty ∧
        (bookedCtx o.ctx f).fillObligation = (bookedCtx o.ctx f).qty ∧
        (bookedCtx o.ctx f).venueOrderId = some v ∧ (bookedCtx o.ctx f).qty = o.ctx.qty ∧
        (bookedCtx o.ctx f).lastVenueRemainingQty = o.ctx.lastVenueRemainingQty := by
    obtain ⟨q, n, g, he⟩ :=
      accumulateResponseDomain_eq (bookedBase o.ctx f) f.qty f.priceCents f.feeCents f.tsNs
    rw [bookedCtx, he]
    refine ⟨h.full, ?_, h.bound, rfl, rfl⟩
    simp only [bookedBase, h.full]
    omega
  have hcov : TargetCovers (bookedCtx o.ctx f) t ↔ TargetCovers o.ctx t := by
    cases t <;> simp only [TargetCovers, hqty, hlast]
  rcases tryAccountFill_new hsight h.fresh with ⟨-, reason, he⟩ | ⟨-, he⟩
  · simp only [applyFillWhileOpen, he] at hg
    cases hg.quiet
  · cases hd : responseDomainOverfillDetail (bookedCtx o.ctx f) with
    | some detail =>
        simp only [applyFillWhileOpen, he, hd] at hg
        cases hg.quiet
    | none =>
        simp only [applyFillWhileOpen, he, hd] at hg ⊢
        rw [← hcov]
        have hw := h.working
        cases hs : o.state with
        | accepted w =>
            rw [hs] at hw hg
            cases hw
            exact iff_of_true (live_finalised hvenue hattr hobl hg) trivial
        | partialFill w filled remaining =>
            rw [hs] at hw hg
            cases hw
            exact iff_of_true (live_finalised hvenue hattr hobl hg) trivial
        | cancelPending w filled remaining count avg fee target =>
            rw [hs] at hw hg
            cases hw
            exact afterFill_finalised hvenue hattr hobl hg
        | reconcilePending w filled remaining target count avg fee =>
            rw [hs] at hw hg
            cases hw
            exact afterFill_finalised hvenue hattr hobl hg
        | _ =>
            rw [hs] at hw
            cases hw

/-! ## The condition on a step -/

instance (c : OrderCtx) : (t : Option ReconcileTarget) → Decidable (TargetCovers c t)
  | none => inferInstanceAs (Decidable True)
  | some t =>
      inferInstanceAs (Decidable (c.qty ≤ t.venueFilledQty ∧
        (t.terminal = .filled → (t.venueRemainingQty.or c.lastVenueRemainingQty).getD 0 = 0)))

/-- Where these fills cover the order, they are named, they close the response's domain, and the event
ends the order by itself. -/
def OrderCtx.finishes (c : OrderCtx) (fills : List FillRecord) (ends : Bool) : Bool :=
  !c.coveredWith fills || (c.namedWith fills && c.closedWith fills && ends)

/-- What the step that covers the order has to meet: its submission is answered, no recorded target
counts less than the order, and a row comes with authority and leaves nothing over. -/
def settles (o : Order) (e : OrderEvent) : Bool :=
  match o.state, e with
  | .submitStarted _, .fill f | .submitUnknown, .fill f => o.ctx.finishes [f] false
  | .submitUnknown, .unknownBackfillResult true [r] =>
      o.ctx.finishes r.fills (rowEnds r.status r.remainingQty r.otherMembersFilled)
  | .accepted _, .fill f | .partialFill .., .fill f | .immediateFillUnattributed .., .fill f =>
      o.ctx.finishes [f] true
  | .immediateFillUnattributed .., .immediateFillBackfillResult fills => o.ctx.finishes fills true
  | .cancelPending _ _ _ _ _ _ target, .fill f => o.ctx.finishes [f] (decide (TargetCovers o.ctx target))
  | .reconcilePending _ _ _ target _ _ _, .fill f =>
      o.ctx.finishes [f] (decide (TargetCovers o.ctx (some target)))
  | .cancelPending .., .reconcileResult status _ _ remaining fills complete
  | .reconcilePending .., .reconcileResult status _ _ remaining fills complete =>
      o.ctx.finishes fills (complete && rowEnds status remaining 0)
  | _, _ => true

/-- What fills bring to the full quantity, past the condition, is not blocked, and the event ends it. -/
theorem Brought.finished {fills : List FillRecord} {ends : Bool} (h : Brought c fills d) (hd : Sound d)
    (hfull : d.attributedFillQty = d.qty) (hs : c.finishes fills ends = true) :
    ¬ Blocked d ∧ ends = true := by
  have hcov : c.coveredWith fills = true := by
    rw [OrderCtx.coveredWith, decide_eq_true_eq, ← h.attributed, ← h.qty, hfull]
  simp only [OrderCtx.finishes, hcov, Bool.not_true, Bool.false_or, Bool.and_eq_true] at hs
  exact ⟨h.unblocked hd hfull hs.1.1 hs.1.2, hs.2⟩

/-! ## One step -/

/-- A step without fills leaves the quantities as they are. -/
theorem applyEvent_fillless {s : OrderState} {e : OrderEvent} (h : e.fills = []) (hc : Accounted c) :
    (applyEvent s c e).2.attributedFillQty = c.attributedFillQty := by
  have ht := applyEvent_takes s c e
  have hfills : (applyEvent s c e).2.appliedFills = c.appliedFills := by
    refine OrdMap.ext_get? fun id => ?_
    rcases ht.fills id with heq | ⟨f, _, hf, -⟩
    · exact heq
    · rw [h] at hf
      cases hf
  rw [ht.total hc.qty, hc.qty, hfills]

theorem Act.qty {P : Scope} (h : Act P c fx d) : d.qty = c.qty := by
  cases h with
  | deed h =>
      rcases h with h | h
      · exact (Move.kept h).qty
      · cases h with
        | empty hb => exact (bindVenueId_kept hb).qty
        | counted hb _ hr =>
            rw [(SameAccount.recompute _).qty]
            obtain ⟨-, ⟨-, rfl⟩ | ⟨-, rfl⟩⟩ := raiseFillObligation_ok hr
            · exact (bindVenueId_kept hb).qty
            · exact (SameAccount.raised _ _).qty.trans (bindVenueId_kept hb).qty
  | refused h =>
      cases h with
      | conflict _ => rfl
      | excess hb _ _ => exact (bindVenueId_kept hb).qty
  | release _ => rfl
  | reserve => rfl
  | halt => rfl

theorem step_qty {o : Order} (ho : OrderCoherent o) (e : OrderEvent) :
    (lifecycle.step o e).2.ctx.qty = o.ctx.qty :=
  (stepOrder_stepped ho e).acts.preserves (l := []) (I := fun _ c => c.qty = o.ctx.qty)
    (fun h ha => (Act.qty ha).trans h) rfl

/-- A step that is no rejection enters the state it names. -/
theorem Stepped.enters {P : Scope} {o : Order} {e : OrderEvent} {out : TransitionOutcome}
    (h : Stepped P o e out d) : d = o.ctx ∨ out.newState = some (out.newState.getD o.state) := by
  cases h with
  | rejected _ => exact .inl rfl
  | landed _ h => cases h <;> exact .inr rfl
  | refused _ _ _ => exact .inr rfl
  | stranded _ => exact .inr rfl
  | closed _ _ _ => exact .inr rfl
  | frozen _ _ _ => exact .inr rfl
  | thawed _ _ _ => exact .inr rfl

/-- The answer to an event on a working order covers it and leaves it waiting in `s`. -/
structure Lingers (o : Order) (r : TransitionOutcome × OrderCtx) (s : OrderState) : Prop where
  working : isRestartFrozen o.state = false
  coherent : Coherent o.state o.ctx
  positive : 0 < o.ctx.qty
  before : o.ctx.attributedFillQty ≠ o.ctx.qty
  enters : r.1.newState = some s
  waiting : isRestartFrozen s = false
  sound : Sound r.2
  full : r.2.attributedFillQty = r.2.qty

variable {o : Order} {s : OrderState} {r : TransitionOutcome × OrderCtx}

theorem Lingers.unmet {fills : List FillRecord} {ends : Bool} (h : Lingers o r s)
    (hb : Brought o.ctx fills r.2) (he : ends = true → Blocked r.2) :
    o.ctx.finishes fills ends = false := by
  by_contra hs
  obtain ⟨hnot, hends⟩ := hb.finished h.sound h.full (by simpa using hs)
  exact hnot (he hends)

theorem Lingers.fill_unsettled (h : Lingers o (applyEvent o.state o.ctx (.fill f)) s) :
    settles o (.fill f) = false := by
  obtain ⟨st, c⟩ := o
  have hacc := h.coherent.sound.accounted
  cases st with
  | submitStarted a =>
      exact h.unmet (applyFillWhileOpen_waits h.enters h.waiting hacc h.before h.full).1 (by simp)
  | submitUnknown => exact h.unmet (applyFillDedupOnly_waits h.enters h.waiting) (by simp)
  | accepted v =>
      obtain ⟨hb, hw⟩ := applyFillWhileOpen_waits h.enters h.waiting hacc h.before h.full
      exact h.unmet hb fun _ => (hw none rfl).resolve_right (by simp [TargetCovers])
  | partialFill v q r =>
      obtain ⟨hb, hw⟩ := applyFillWhileOpen_waits h.enters h.waiting hacc h.before h.full
      exact h.unmet hb fun _ => (hw none rfl).resolve_right (by simp [TargetCovers])
  | cancelPending v q r rc avg fee target =>
      obtain ⟨hb, hw⟩ := applyFillWhileOpen_waits h.enters h.waiting hacc h.before h.full
      exact h.unmet hb fun ht => (hw target rfl).resolve_right (not_not.mpr (of_decide_eq_true ht))
  | reconcilePending v q r target rc avg fee =>
      obtain ⟨hb, hw⟩ := applyFillWhileOpen_waits h.enters h.waiting hacc h.before h.full
      exact h.unmet hb fun ht => (hw (some target) rfl).resolve_right (not_not.mpr (of_decide_eq_true ht))
  | immediateFillUnattributed v rc r avg fee =>
      obtain ⟨hb, hw⟩ := applyImmediateFillBackfill_waits h.enters h.waiting h.coherent.sound
        h.coherent.agrees.2.1 h.full
      exact h.unmet hb fun _ => hw
  | new => cases h.enters
  | submitPrepared => cases h.enters
  | _ => cases h.working

theorem Lingers.reconcile_unsettled {status : BackfillOrderStatus} {vid : Option VenueOrderId}
    {filled remaining : Nat} {fills : List FillRecord} {complete : Bool}
    (h : Lingers o (applyEvent o.state o.ctx
      (.reconcileResult status vid filled remaining fills complete)) s) :
    settles o (.reconcileResult status vid filled remaining fills complete) = false := by
  obtain ⟨st, c⟩ := o
  have hacc := h.coherent.sound.accounted
  cases st with
  | cancelPending v q r rc avg fee target =>
      obtain ⟨hb, hw⟩ := applyReconcileResult_waits h.enters h.waiting hacc h.positive h.full
      refine h.unmet hb fun ht => ?_
      rw [Bool.and_eq_true] at ht
      exact (hw ht.1).resolve_right (by simp [ht.2])
  | reconcilePending v q r target rc avg fee =>
      obtain ⟨hb, hw⟩ := applyReconcileResult_waits h.enters h.waiting hacc h.positive h.full
      refine h.unmet hb fun ht => ?_
      rw [Bool.and_eq_true] at ht
      exact (hw ht.1).resolve_right (by simp [ht.2])
  | submitStarted a => cases h.enters
  | submitUnknown => cases h.enters
  | accepted v => cases h.enters
  | partialFill v q r => cases h.enters
  | immediateFillUnattributed v rc r avg fee => cases h.enters
  | new => cases h.enters
  | submitPrepared => cases h.enters
  | _ => cases h.working

theorem Lingers.backfill_unsettled {fills : List FillRecord}
    (h : Lingers o (applyEvent o.state o.ctx (.immediateFillBackfillResult fills)) s) :
    settles o (.immediateFillBackfillResult fills) = false := by
  obtain ⟨st, c⟩ := o
  cases st with
  | immediateFillUnattributed v rc r avg fee =>
      obtain ⟨hb, hw⟩ := applyImmediateFillBackfill_waits h.enters h.waiting h.coherent.sound
        h.coherent.agrees.2.1 h.full
      exact h.unmet hb fun _ => hw
  | submitStarted a => cases h.enters
  | submitUnknown => cases h.enters
  | accepted v => cases h.enters
  | partialFill v q r => cases h.enters
  | cancelPending v q r rc avg fee target => cases h.enters
  | reconcilePending v q r target rc avg fee => cases h.enters
  | new => cases h.enters
  | submitPrepared => cases h.enters
  | _ => cases h.working

theorem Lingers.unknown_unsettled {exhaustive : Bool} {rows : List BackfillOrderRecord}
    (h : Lingers o (applyEvent o.state o.ctx (.unknownBackfillResult exhaustive rows)) s) :
    settles o (.unknownBackfillResult exhaustive rows) = false := by
  obtain ⟨st, c⟩ := o
  cases st with
  | submitUnknown =>
      have hsame : (applyUnknownBackfill c exhaustive rows).2 = c → False := by
        intro he
        have := h.full
        simp only [applyEvent, applySubmitUnknown, he] at this
        exact h.before this
      rcases rows with - | ⟨row, - | ⟨row', rows⟩⟩
      · refine (hsame ?_).elim
        cases exhaustive <;> rfl
      · cases exhaustive with
        | false =>
            refine (hsame ?_).elim
            simp only [applyUnknownBackfill]
            split <;> rfl
        | true =>
            by_cases hcid : row.clientOrderId = c.clientOrderId
            · have hrow : applyEvent .submitUnknown c (.unknownBackfillResult true [row]) =
                  applyUniqueBackfill c row := by
                simp [applyEvent, applySubmitUnknown, applyUnknownBackfill, hcid]
              rw [hrow] at h
              obtain ⟨hb, hw⟩ := applyUniqueBackfill_waits h.enters h.waiting
                h.coherent.sound.accounted h.positive h.full
              exact h.unmet hb fun ht => hw.resolve_right (by simp [ht])
            · refine (hsame ?_).elim
              simp [applyUnknownBackfill, hcid]
      · exact (hsame rfl).elim
  | submitStarted a => cases h.enters
  | accepted v => cases h.enters
  | partialFill v q r => cases h.enters
  | cancelPending v q r rc avg fee target => cases h.enters
  | reconcilePending v q r target rc avg fee => cases h.enters
  | immediateFillUnattributed v rc r avg fee => cases h.enters
  | new => cases h.enters
  | submitPrepared => cases h.enters
  | _ => cases h.working

/-- A step that covers a working order and leaves it waiting does not meet the condition. -/
theorem Lingers.unsettled {e : OrderEvent} (h : Lingers o (applyEvent o.state o.ctx e) s) :
    settles o e = false := by
  have hidle : e.fills = [] → (applyEvent o.state o.ctx e).2.qty = o.ctx.qty → False := fun hf hq => by
    have := applyEvent_fillless (s := o.state) hf h.coherent.sound.accounted
    exact h.before (this.symm.trans (h.full.trans hq))
  have hqty : (applyEvent o.state o.ctx e).2.qty = o.ctx.qty :=
    step_qty ⟨h.coherent.sound.accounted, fun _ => h.coherent⟩ e
  cases e with
  | fill f => exact h.fill_unsettled
  | reconcileResult status vid filled remaining fills complete => exact h.reconcile_unsettled
  | immediateFillBackfillResult fills => exact h.backfill_unsettled
  | unknownBackfillResult exhaustive rows => exact h.unknown_unsettled
  | _ => exact (hidle rfl hqty).elim

theorem covered_step (ho : OrderCoherent o) (hq : 0 < o.ctx.qty) (hw : ¬ WaitsCovered o)
    {e : OrderEvent} (hs : settles o e = true) : ¬ WaitsCovered (lifecycle.step o e).2 := by
  rintro ⟨hwait, hfull⟩
  have hopen : isRestartFrozen o.state = false := by
    by_contra hf
    have := frozen_run ho (by simpa using hf) [e]
    rw [lifecycle.final_cons, lifecycle.final_nil, hwait] at this
    cases this
  have hbefore : o.ctx.attributedFillQty ≠ o.ctx.qty := fun h => hw ⟨hopen, h⟩
  rcases (stepOrder_stepped ho e).enters with hsame | henters
  · rw [hsame] at hfull
    exact hbefore hfull
  · have hl : Lingers o (applyEvent o.state o.ctx e) (lifecycle.step o e).2.state :=
      ⟨hopen, ho.coherent hopen, hq, hbefore, henters, hwait,
        ((stepOrder_coherent ho e).coherent hwait).sound, hfull⟩
    rw [hl.unsettled] at hs
    cases hs

/-! ## Along a run -/

/-- What a step owes the coverage: a fill that completes the order under the granted premises finalises
it, and whatever the step is, it leaves no covered order waiting. -/
structure CoverageKept (o : Order) (e : OrderEvent) : Prop where
  finalises : ∀ v f intent, e = .fill f → Completing v o f intent →
    Granted v (applyEvent o.state o.ctx e) → Finalised (applyEvent o.state o.ctx e).1
  settled : ¬ WaitsCovered (lifecycle.step o e).2

/-- A completing fill that meets the condition meets a target that covers. -/
theorem Completing.covers {t : Option ReconcileTarget} (h : Completing v o f t)
    (hs : settles o (.fill f) = true) : TargetCovers o.ctx t := by
  have hcov : o.ctx.coveredWith [f] = true := by
    have hfresh : o.ctx.appliedFills.contains f.fillId = false := OrdMap.contains_eq_false.mpr h.fresh
    simp [OrderCtx.coveredWith, OrderCtx.newFills, newFills, hfresh, h.full]
  obtain ⟨st, c⟩ := o
  have hw := h.working
  cases st with
  | accepted v =>
      cases hw
      trivial
  | partialFill v q r =>
      cases hw
      trivial
  | cancelPending v q r rc avg fee target =>
      cases hw
      simp only [settles, OrderCtx.finishes, hcov, Bool.not_true, Bool.false_or, Bool.and_eq_true,
        decide_eq_true_eq] at hs
      exact hs.2
  | reconcilePending v q r target rc avg fee =>
      cases hw
      simp only [settles, OrderCtx.finishes, hcov, Bool.not_true, Bool.false_or, Bool.and_eq_true,
        decide_eq_true_eq] at hs
      exact hs.2
  | _ => cases hw

theorem kept_step (ho : OrderCoherent o) (hq : 0 < o.ctx.qty) (hw : ¬ WaitsCovered o) {e : OrderEvent}
    (hs : settles o e = true) : CoverageKept o e := by
  refine ⟨?_, covered_step ho hq hw hs⟩
  rintro v f intent rfl h hg
  exact (h.finalised_iff ho.accounted.bounded hg).mpr (h.covers hs)

/-- A fill that completes a new order's run under the granted premises finalises it exactly when the
terminal intent known by then, if any, counts the whole order and leaves no `Filled` with a remainder.
Where every step of the run meets the condition, each completing fill does so, and no step leaves a
covered order waiting. -/
theorem coverage_finalises (cid : ClientOrderId) (market strategy : String) (side : Side)
    (price : Nat) {qty : Nat} (hq : 0 < qty) (es : List OrderEvent) :
    (∀ v f intent,
      let o := lifecycle.final (.new cid market strategy side price qty) es
      Completing v o f intent → Granted v (applyEvent o.state o.ctx (.fill f)) →
        (Finalised (applyEvent o.state o.ctx (.fill f)).1 ↔ TargetCovers o.ctx intent)) ∧
    (lifecycle.Always (fun o e => settles o e = true) (.new cid market strategy side price qty) es →
      lifecycle.Always CoverageKept (.new cid market strategy side price qty) es) := by
  constructor
  · intro v f intent o h hg
    exact h.finalised_iff ((steady_new ..).run es).1.coherent.accounted.bounded hg
  · refine Machine.Always.imp lifecycle
      (I := fun o => OrderCoherent o ∧ 0 < o.ctx.qty ∧ ¬ WaitsCovered o) ?_ ⟨orderCoherent_new .., hq, ?_⟩
    · rintro o e ⟨ho, hpos, hw⟩ hs
      have hkept := kept_step ho hpos hw hs
      exact ⟨hkept, stepOrder_coherent ho e, by rw [step_qty ho]; exact hpos, hkept.settled⟩
    · rintro ⟨-, hfull⟩
      exact hq.ne hfull

/-- An order of five that rests at the venue. -/
def resting : List OrderEvent :=
  [.prepareSubmit, .startSubmit ⟨"a"⟩, .submitResponse ⟨"V"⟩ 0 5 none none none]

/-- One fill for all of it. -/
def wholeFill : FillRecord := ⟨⟨"f"⟩, 5, 40, 1, some ⟨"V"⟩, none⟩

theorem resting_granted {r : TransitionOutcome × OrderCtx}
    (hc : ∀ e ∈ r.2.appliedFills.entries, e.2.venueOrderId = some ⟨"V"⟩)
    (hd : responseDomainGate r.2 = none) (hh : r.1.isHalt = false) : Granted ⟨"V"⟩ r :=
  ⟨fun id p hp => hc (id, p) (OrdMap.mem_entries.mpr hp), hd, hh⟩

/-- A resting order is filled whole: the fill ends it, and nothing waited before. -/
theorem coverage_finalises_resting :
    Finalised (applyEvent (lifecycle.final (.new ⟨"c"⟩ "M" "x" .buyYes 40 5) resting).state
        (lifecycle.final (.new ⟨"c"⟩ "M" "x" .buyYes 40 5) resting).ctx (.fill wholeFill)).1 ∧
      lifecycle.Always CoverageKept (.new ⟨"c"⟩ "M" "x" .buyYes 40 5) (resting ++ [.fill wholeFill]) :=
  ⟨((coverage_finalises ⟨"c"⟩ "M" "x" .buyYes 40 (by decide) resting).1 ⟨"V"⟩ wholeFill none
      ⟨by decide, by decide, by decide, by decide, by decide, by decide⟩
      (resting_granted (by decide) (by decide) (by decide))).mpr trivial,
    (coverage_finalises ⟨"c"⟩ "M" "x" .buyYes 40 (by decide) (resting ++ [.fill wholeFill])).2
      (by decide)⟩

/-- The cancel of a resting order is answered, its fill of everything comes late: the order waits for
authority, although its fills cover it. -/
theorem late_coverage_waits :
    ¬ ∀ es, lifecycle.Always CoverageKept (.new ⟨"c"⟩ "M" "x" .buyYes 40 5) es := by
  intro h
  obtain ⟨-, -, -, -, -, hlast, -⟩ :=
    h (resting ++ [.cancelRequested, .cancelOutcome .canceled, .fill wholeFill])
  have hfin := hlast.finalises ⟨"V"⟩ wholeFill (some ⟨.canceled, 0, some 5⟩) rfl
    ⟨by decide, by decide, by decide, by decide, by decide, by decide⟩
    (resting_granted (by decide) (by decide) (by decide))
  exact absurd hfin.release (by decide)

end Omsrs.Lifecycle
