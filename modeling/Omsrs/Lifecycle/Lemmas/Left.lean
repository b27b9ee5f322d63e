import Omsrs.Lifecycle.Transitions

/-!
# What the handlers leave

Every handler that reads what is left off the context says the order's quantity without what is
attributed.
-/

namespace Omsrs.Lifecycle
open Omsrs.Lib

variable {c : OrderCtx} {v : VenueOrderId} {fx : List Effect} {s : OrderState} {r' : Nat}

/-- What a working or pending state says is left. -/
def leftIn : OrderState → Option Nat
  | .partialFill _ _ r | .cancelPending _ _ r _ _ _ _ | .reconcilePending _ _ r _ _ _ _ => some r
  | _ => none

theorem remainingQty_eq (c : OrderCtx) : c.remainingQty = c.qty - c.attributedFillQty := by
  simp only [OrderCtx.remainingQty, OrderCtx.remainingQtyChecked, checkedSub]
  split
  · rfl
  · simp only [Option.getD_none]
    omega

theorem tryFinalizeTerminal_left {p : ProposedTerminal} {fb : ReconcileTerminal}
    (h : (tryFinalizeTerminal c p v fx fb).newState = some s) (hs : leftIn s = some r') :
    r' = c.remainingQty := by
  have hwait : ∀ fx ask rem, (notReadyForTerminal c v fx fb ask rem).newState = some s →
      r' = c.remainingQty := by
    intro fx ask rem h
    cases h
    exact (Option.some.inj hs).symm
  have hrelease : (releaseTerminal c p fx).newState = some s → r' = c.remainingQty := by
    intro h
    cases h
    cases p <;> cases hs
  have hhalt : ∀ reason fx, (haltWithReason reason fx).newState = some s → r' = c.remainingQty := by
    intro reason fx h
    cases h
    cases hs
  simp only [tryFinalizeTerminal] at h
  split at h
  · exact hhalt _ _ h
  · exact hwait _ _ _ h
  · cases p with
    | filled q rem =>
        simp only [finalizeFilled] at h
        split at h
        · exact hhalt _ _ h
        · split at h
          · exact hhalt _ _ h
          · split at h
            · split at h
              · exact hhalt _ _ h
              · cases h
                exact (Option.some.inj hs).symm
            · exact hrelease h
    | canceled => exact hrelease h
    | terminal => exact hrelease h

theorem routeLiveOrFilled_left (h : (routeLiveOrFilled c v fx).1.newState = some s)
    (hs : leftIn s = some r') : r' = c.remainingQty := by
  simp only [routeLiveOrFilled] at h
  split at h
  · cases h
    cases hs
  · rename_i remaining hrem
    split at h
    · exact tryFinalizeTerminal_left (c := c.latchAuthorityComplete) h hs
    · split at h
      · cases h
        cases hs
      · cases h
        rw [← Option.some.inj hs, OrderCtx.remainingQty, hrem]
        rfl

end Omsrs.Lifecycle
