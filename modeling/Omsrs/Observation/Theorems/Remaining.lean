import Omsrs.Lifecycle.Lemmas.Books
import Omsrs.Lifecycle.Lemmas.Left
import Omsrs.Observation.Shell

/-!
# What is left of a live order

A fill or a cancel request computes what is left from the order's own quantity. A state that was
installed in another frame, from a member's share of the venue order or from the venue's residual, may
have less left than that.
-/

namespace Omsrs.Observation
open Omsrs.Lib Omsrs.Lifecycle Omsrs.Execution

variable {c : OrderCtx} {v : VenueOrderId} {fx : List Effect} {s : OrderState} {r r' : Nat}

/-- No new fill and no cancel request leaves more than was left before. -/
structure NeverRaises (state : OrderState) (c : OrderCtx) (r : Nat) : Prop where
  fill : ∀ f, c.appliedFills.get? f.fillId = none → ∀ s r',
    (applyEvent state c (.fill f)).1.newState = some s → leftIn s = some r' → r' + f.qty ≤ r
  cancel : ∃ v filled r' count avg fee target,
    (applyEvent state c .cancelRequested).1.newState =
      some (.cancelPending v filled r' count avg fee target) ∧ r' ≤ r

/-! ## What a fill leaves -/

/-- A new fill leaves the quantity of the order without what is attributed then. -/
theorem fill_left {filled : Nat} {f : FillRecord} (hf : c.appliedFills.get? f.fillId = none)
    (h : (applyEvent (.partialFill v filled r) c (.fill f)).1.newState = some s)
    (hs : leftIn s = some r') : r' + f.qty = c.remainingQty := by
  have hopen : applyEvent (.partialFill v filled r) c (.fill f) =
      applyFillWhileOpen (.partialFill v filled r) c f := rfl
  have hhalt : ∀ reason fx, (haltWithReason reason fx).newState = some s → False := by
    intro reason fx h
    cases h
    cases hs
  rw [hopen] at h
  cases hsight : firstSightingMismatch c f with
  | some reason =>
      simp only [applyFillWhileOpen, tryAccountFill, accountFillCore, hsight] at h
      exact (hhalt _ _ h).elim
  | none =>
      rcases tryAccountFill_new hsight hf with ⟨-, reason, he⟩ | ⟨hb, he⟩
      · simp only [applyFillWhileOpen, he] at h
        exact (hhalt _ _ h).elim
      · cases hd : responseDomainOverfillDetail (bookedCtx c f) with
        | some detail =>
            simp only [applyFillWhileOpen, he, hd] at h
            exact (hhalt _ _ h).elim
        | none =>
            simp only [applyFillWhileOpen, he, hd] at h
            have hleft := routeLiveOrFilled_left h hs
            have hqty : (bookedCtx c f).qty = c.qty := by
              obtain ⟨q, n, g, hacc⟩ :=
                accumulateResponseDomain_eq (bookedBase c f) f.qty f.priceCents f.feeCents f.tsNs
              rw [bookedCtx, hacc]
              rfl
            have hroom := hb.room
            rw [remainingQty_eq, hqty, (bookedCtx_books c f).2.1] at hleft
            rw [remainingQty_eq]
            omega

/-- Fills and cancels never raise what is left exactly when the state has at least left what the order's
own quantity leaves. -/
theorem remaining_never_raised_iff (c : OrderCtx) (v : VenueOrderId) (filled r : Nat) :
    NeverRaises (.partialFill v filled r) c r ↔ c.qty ≤ c.attributedFillQty + r := by
  have hleft : c.remainingQty ≤ r ↔ c.qty ≤ c.attributedFillQty + r := by
    rw [remainingQty_eq]
    omega
  rw [← hleft]
  constructor
  · intro h
    obtain ⟨w, filled', r', count, avg, fee, target, hs, hle⟩ := h.cancel
    cases hs
    exact hle
  · intro h
    refine ⟨fun f hf s r' hs hr => ?_, ⟨_, _, _, _, _, _, _, rfl, h⟩⟩
    rw [fill_left hf hs hr]
    exact h

/-! ## A member's share -/

/-- An order of five is found in a venue order that filled three, one of them for another member. -/
def sharedVenueOrder : List ShellAction :=
  [.create ⟨⟨⟨"s"⟩, "M"⟩, ⟨"c"⟩⟩ "M" "x" .buyYes 40 5,
    .order ⟨⟨⟨"s"⟩, "M"⟩, ⟨"c"⟩⟩ .prepareSubmit,
    .order ⟨⟨⟨"s"⟩, "M"⟩, ⟨"c"⟩⟩ (.startSubmit ⟨"a"⟩),
    .order ⟨⟨⟨"s"⟩, "M"⟩, ⟨"c"⟩⟩ .submitTimeout,
    .batch ⟨⟨⟨"s"⟩, "M"⟩, ⟨"c"⟩⟩ ⟨⟨"s"⟩, "M"⟩
      (.unknownBackfillResult true
        [{ clientOrderId := ⟨"c"⟩, venueOrderId := ⟨"V"⟩, status := .partialFill, filledQty := 3,
           remainingQty := 2, otherMembersFilled := 1,
           fills := [⟨⟨"f"⟩, 2, 40, 1, some ⟨"V"⟩, none⟩] }])
      [⟨⟨"s"⟩, "M", ⟨"f"⟩, .buyYes, 2, 40, 1, some ⟨"V"⟩, none, none, .restFill⟩]]

/-- Its share has two left; a cancel request makes that three. -/
theorem shared_order_raised :
    ¬ ∀ acts key row v filled r, (shell.final .new acts).orders.get? key = some row →
      row.state = .partialFill v filled r → NeverRaises row.state row.ctx r := by
  intro h
  cases hrow : (shell.final .new sharedVenueOrder).orders.get? ⟨⟨⟨"s"⟩, "M"⟩, ⟨"c"⟩⟩ with
  | none =>
      have hsome : ((shell.final .new sharedVenueOrder).orders.get?
          ⟨⟨⟨"s"⟩, "M"⟩, ⟨"c"⟩⟩).isSome = true := by decide
      rw [hrow] at hsome
      cases hsome
  | some row =>
      have hfacts : ((shell.final .new sharedVenueOrder).orders.get? ⟨⟨⟨"s"⟩, "M"⟩, ⟨"c"⟩⟩).all
          (fun row => decide (row.state = .partialFill ⟨"V"⟩ 2 2) &&
            decide ((applyEvent row.state row.ctx .cancelRequested).1.newState =
              some (.cancelPending ⟨"V"⟩ 2 3 none none none none))) = true := by decide
      rw [hrow] at hfacts
      simp only [Option.all_some, Bool.and_eq_true, decide_eq_true_eq] at hfacts
      obtain ⟨w, filled, r', count, avg, fee, target, hs, hle⟩ := (h _ _ row _ _ _ hrow hfacts.1).cancel
      rw [hfacts.2] at hs
      cases hs
      omega

end Omsrs.Observation
