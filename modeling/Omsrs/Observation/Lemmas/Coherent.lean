import Omsrs.Lifecycle.Lemmas.Steps
import Omsrs.Observation.Lemmas.Round

/-!
# A round keeps its members coherent

What a round does to a member is a transition like any other: the state it leaves agrees with the
context it leaves.
-/

namespace Omsrs.Observation
open Omsrs.Lib Omsrs.Lifecycle Omsrs.Execution

variable {c d : OrderCtx} {s : OrderState} {v : VenueOrderId} {order : OrderRow}

theorem agrees_venue (h : Agrees s c) (hv : venueFromState s = some v) : c.venueOrderId = some v := by
  cases s <;> simp only [venueFromState, Option.some.injEq, reduceCtorEq] at hv <;> subst hv
  · exact h
  · exact h.1
  · exact h.1
  · exact h.1
  · exact h.1

/-- The state of a bound order still agrees when its context moved on without booking. -/
theorem coherent_move {P : Scope} {fx : List Effect} (h : Coherent s c) (hv : c.venueOrderId = some v)
    (ht : Trail (Move P) c fx d) (hq : d.attributedFillQty = c.attributedFillQty) : Coherent s d :=
  ⟨h.sound.trail ht, h.agrees.keep (Moves.kept ht) hq fun hu => by simp [hu.unbound] at hv⟩

theorem halted_coherent (h : Accounted c) (reason : HaltReason) : OrderCoherent ⟨.halted reason, c⟩ :=
  ⟨h, fun hopen => by cases hopen⟩

theorem askMember_coherent (h : Coherent order.state order.ctx) (hv : order.ctx.venueOrderId = some v)
    (single : Bool) (filled : Nat) :
    OrderCoherent ⟨(askMember single filled order).state, (askMember single filled order).ctx⟩ := by
  have hself : OrderCoherent ⟨order.state, order.ctx⟩ := ⟨h.sound.accounted, fun _ => h⟩
  unfold askMember
  split
  · split
    · rename_i d hd
      obtain ⟨hq, ⟨_, rfl⟩ | ⟨hlt, rfl⟩⟩ := raiseFillObligation_ok hd
      · exact hself
      · have ht : Trail (Move .any) order.ctx _ (raisedCtx order.ctx filled) := .single (.raise hlt hq)
        have hd := coherent_move h hv ht (raisedCtx_books _ _).2.1
        exact ⟨hd.sound.accounted, fun _ => hd⟩
    · exact halted_coherent h.sound.accounted _
  · exact hself

theorem liveWithRemaining_agrees (h : Agrees s c) (hv : c.venueOrderId = some v) (remaining : Nat) :
    Agrees (liveWithRemaining s c remaining) c := by
  have hor : (venueFromState s).or c.venueOrderId = some v := by
    cases hs : venueFromState s with
    | none => exact hv
    | some w => rw [Option.some_or, ← hv, agrees_venue h hs]
  simp only [liveWithRemaining, hor]
  split
  · exact hv
  · exact ⟨hv, rfl⟩

theorem coverMember_coherent (round : ObservationRound) (ws : WireState) (row : RowEvidence)
    (fresh : Bool) (h : Coherent order.state order.ctx) (hv : order.ctx.venueOrderId = some v) :
    OrderCoherent ⟨(coverMember round ws row fresh order).state,
      (coverMember round ws row fresh order).ctx⟩ := by
  have hlatch : Coherent order.state order.ctx.latchAuthorityComplete :=
    coherent_move (P := .any) h hv (.single (.settle .latch)) rfl
  have hfinalize : ∀ proposed fallback, OrderCoherent
      ⟨(tryFinalizeTerminal order.ctx.latchAuthorityComplete proposed v [] fallback).newState.getD
        order.state, order.ctx.latchAuthorityComplete⟩ := fun proposed fallback =>
    (tryFinalizeTerminal_lands (P := .any) (R := True) (.nil _) hlatch.sound hv (fun _ => trivial)
      proposed fallback).coherent hlatch.sound.accounted _
  unfold coverMember
  simp only [hv, Option.some_or, Option.getD_some, MemberScratch.apply]
  split
  · split
    · exact hfinalize _ _
    · exact hfinalize _ _
  · split
    · exact hfinalize _ _
    · exact hfinalize _ _
  all_goals
    split
    · exact hfinalize _ _
    · unfold restMember
      split
      · dsimp only
        split
        · exact halted_coherent hlatch.sound.accounted _
        · have hnote : Coherent order.state (order.ctx.latchAuthorityComplete.noteVenueRemaining
              row.remaining) :=
            coherent_move (P := .any) hlatch hv (.single (.remaining fun hp => hp.elim)) rfl
          exact ⟨hnote.sound.accounted, fun _ =>
            ⟨hnote.sound, liveWithRemaining_agrees hnote.agrees hv _⟩⟩
      · exact ⟨hlatch.sound.accounted, fun _ => hlatch⟩

/-- A round keeps a bound member coherent. -/
theorem closeMember_coherent (round : ObservationRound) (ws : WireState) (row : RowEvidence)
    (outcome : ObservationOutcome) (h : OrderCoherent ⟨order.state, order.ctx⟩)
    (hv : order.ctx.venueOrderId = some v) :
    OrderCoherent ⟨(closeMember round ws row outcome order).state,
      (closeMember round ws row outcome order).ctx⟩ := by
  simp only [closeMember]
  split
  · exact h
  all_goals
    split
    · exact h
    · rename_i hopen
      have hc : Coherent order.state order.ctx := h.coherent (by simpa using hopen)
      first
        | exact askMember_coherent hc hv _ _
        | exact coverMember_coherent round ws row _ hc hv

end Omsrs.Observation
