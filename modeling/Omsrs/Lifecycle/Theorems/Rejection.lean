import Omsrs.Lifecycle.Transitions

/-!
# A rejected event changes nothing

The handlers that change the context always answer, by an accept or a halt. Rejections come from the
dispatch and from guards in front of the first change.
-/

namespace Omsrs.Lifecycle
open Omsrs.Lib

variable {ctx : OrderCtx} {fx : List Effect} {v : VenueOrderId}

/-! ## Outcomes that answer -/

@[simp] theorem accept_isReject (s : OrderState) (fx : List Effect) :
    (accept s fx).isReject = false := rfl

@[simp] theorem haltWithReason_isReject (reason : HaltReason) (fx : List Effect) :
    (haltWithReason reason fx).isReject = false := rfl

@[simp] theorem haltWithReasonState_isReject (s : OrderState) (reason : HaltReason)
    (fx : List Effect) : (haltWithReasonState s reason fx).isReject = false := rfl

@[simp] theorem prependEffects_isReject (fx : List Effect) (o : TransitionOutcome) :
    (o.prependEffects fx).isReject = o.isReject := by cases o <;> rfl

/-! ## Terminals -/

@[simp] theorem notReadyForTerminal_isReject (ctx : OrderCtx) (v : VenueOrderId) (fx : List Effect)
    (fallback : ReconcileTerminal) (ask : Bool) (remaining : Option Nat) :
    (notReadyForTerminal ctx v fx fallback ask remaining).isReject = false := rfl

@[simp] theorem finalizeFilled_isReject (ctx : OrderCtx) (v : VenueOrderId) (fx : List Effect)
    (filled remaining : Nat) : (finalizeFilled ctx v fx filled remaining).isReject = false := by
  simp only [finalizeFilled]
  split
  · rfl
  · split
    · rfl
    · split
      · split <;> rfl
      · rfl

@[simp] theorem tryFinalizeTerminal_isReject (ctx : OrderCtx) (proposed : ProposedTerminal)
    (v : VenueOrderId) (fx : List Effect) (fallback : ReconcileTerminal) :
    (tryFinalizeTerminal ctx proposed v fx fallback).isReject = false := by
  simp only [tryFinalizeTerminal]
  split
  · rfl
  · rfl
  · split
    · simp
    · rfl

@[simp] theorem finalizeReconcileTarget_isReject (ctx : OrderCtx) (target : ReconcileTarget)
    (fx : List Effect) (v : VenueOrderId) :
    (finalizeReconcileTarget ctx target fx v).isReject = false := by
  simp only [finalizeReconcileTarget]
  split <;> simp

/-! ## Responses and fills -/

@[simp] theorem routeLiveOrFilled_isReject (ctx : OrderCtx) (v : VenueOrderId) (fx : List Effect) :
    (routeLiveOrFilled ctx v fx).1.isReject = false := by
  simp only [routeLiveOrFilled]
  split
  · rfl
  · split
    · simp
    · split <;> rfl

@[simp] theorem resolveUnattributed_isReject (ctx : OrderCtx) (v : VenueOrderId) (count remaining : Nat)
    (avg fee : Option Nat) (fx : List Effect) :
    (resolveUnattributed ctx v count remaining avg fee fx).1.isReject = false := by
  simp only [resolveUnattributed]
  split <;> simp

@[simp] theorem applySubmitResponse_isReject (ctx : OrderCtx) (v : VenueOrderId) (count remaining : Nat)
    (avg fee : Option Nat) (b : Option SnapshotBoundary) :
    (applySubmitResponse ctx v count remaining avg fee b).1.isReject = false := by
  have hempty : ∀ (ctx : OrderCtx) (fx : List Effect),
      (applyEmptyResponse ctx v remaining fx).1.isReject = false := by
    intro ctx fx
    simp only [applyEmptyResponse]
    split
    · split <;> simp
    · split
      · split <;> simp
      · rfl
  simp only [applySubmitResponse]
  split
  · rfl
  · split
    · exact hempty _ _
    · split
      · rfl
      · split
        · rfl
        · split <;> simp

@[simp] theorem applyImmediateFillBackfill_isReject (ctx : OrderCtx) (v : VenueOrderId)
    (count remaining : Nat) (avg fee : Option Nat) (fills : List FillRecord) :
    (applyImmediateFillBackfill ctx v count remaining avg fee fills).1.isReject = false := by
  simp only [applyImmediateFillBackfill]
  split
  · rfl
  · split <;> simp

@[simp] theorem afterFillCancelOrReconcile_isReject (ctx : OrderCtx) (v : VenueOrderId)
    (target : Option ReconcileTarget) (fx : List Effect) (last : Nat) (enrichment : Bool) :
    (afterFillCancelOrReconcile ctx v target fx last enrichment).1.isReject = false := by
  have htarget : ∀ (target : ReconcileTarget) (remaining : Nat),
      (afterFillTarget ctx v target fx remaining).1.isReject = false := by
    intro target remaining
    simp only [afterFillTarget]
    split
    · rfl
    · split
      · split <;> simp
      · split <;> simp
  simp only [afterFillCancelOrReconcile]
  split
  · rfl
  · split
    · exact htarget _ _
    · split <;> simp

@[simp] theorem applyFillWhileOpen_isReject (state : OrderState) (ctx : OrderCtx) (f : FillRecord) :
    (applyFillWhileOpen state ctx f).1.isReject = false := by
  simp only [applyFillWhileOpen]
  split
  · rfl
  · rfl
  · split <;> simp
  · split <;> simp

@[simp] theorem applyFillDedupOnly_isReject (ctx : OrderCtx) (f : FillRecord) (stay : OrderState) :
    (applyFillDedupOnly ctx f stay).1.isReject = false := by
  simp only [applyFillDedupOnly]
  split <;> rfl

/-! ## Backfills and cancels -/

theorem routeStatus_isReject (ctx : OrderCtx) (v : VenueOrderId) (status : BackfillOrderStatus)
    (filled remaining memberFilled capacity : Nat) (fx : List Effect) (complete unknown : Bool) :
    (routeStatus ctx v status filled remaining memberFilled capacity fx complete unknown).isReject =
      false := by
  have hstay : ∀ o : TransitionOutcome, o.isReject = false →
      (stayUnknown ctx unknown complete o).isReject = false := by
    intro o ho
    simp only [stayUnknown]
    split
    · split
      · rfl
      · exact ho
    · exact ho
  have hcontinue : (continueReconcilePending ctx v memberFilled fx unknown complete none).isReject =
      false := by
    simp only [continueReconcilePending]
    split
    · rfl
    · split <;> rfl
  have hopen : (routeStatus ctx v .openOrder filled remaining memberFilled capacity fx complete
      unknown).isReject = false := by
    simp only [routeStatus]
    split
    · rfl
    · split
      · exact hcontinue
      · split
        · rfl
        · split
          · rfl
          · split <;> rfl
  cases status with
  | canceled => exact hstay _ (by simp)
  | filled => exact hstay _ (by simp)
  | openOrder => exact hopen
  | partialFill => exact hopen

@[simp] theorem routeFromBackfillStatus_isReject (ctx : OrderCtx) (v : VenueOrderId)
    (status : BackfillOrderStatus) (filled remaining others : Nat) (fills : List FillRecord)
    (complete unknown : Bool) :
    (routeFromBackfillStatus ctx v status filled remaining others fills complete unknown).1.isReject =
      false := by
  simp only [routeFromBackfillStatus]
  split
  · rfl
  · split
    · rfl
    · split
      · rfl
      · simp only [routeBackfillFills]
        split
        · rfl
        · split
          · rfl
          · exact routeStatus_isReject ..

@[simp] theorem applyUnknownBackfill_isReject (ctx : OrderCtx) (exhaustive : Bool)
    (rows : List BackfillOrderRecord) :
    (applyUnknownBackfill ctx exhaustive rows).1.isReject = false := by
  have hbook : ∀ (ctx : OrderCtx) (r : BackfillOrderRecord) (fx : List Effect),
      (bookUniqueBackfill ctx r fx).1.isReject = false := by
    intro ctx r fx
    simp only [bookUniqueBackfill]
    split <;> simp
  simp only [applyUnknownBackfill]
  split
  · split <;> rfl
  · split
    · rfl
    · split
      · rfl
      · simp only [applyUniqueBackfill]
        split
        · rfl
        · split
          · rfl
          · split
            · rfl
            · exact hbook _ _ _
  · rfl

@[simp] theorem applyReconcileResult_isReject (ctx : OrderCtx) (v : VenueOrderId)
    (status : BackfillOrderStatus) (vid : Option VenueOrderId) (filled remaining : Nat)
    (fills : List FillRecord) (complete : Bool) :
    (applyReconcileResult ctx v status vid filled remaining fills complete).1.isReject = false := by
  simp only [applyReconcileResult]
  split <;> simp

@[simp] theorem applyCancelOutcome_isReject (ctx : OrderCtx) (v : VenueOrderId) (filled remaining : Nat)
    (count avg fee : Option Nat) (target : Option ReconcileTarget) (outcome : CancelOutcome) :
    (applyCancelOutcome ctx v filled remaining count avg fee target outcome).1.isReject = false := by
  have hroute : ∀ (ctx : OrderCtx) (fx : List Effect),
      (routeCancelOutcome ctx v filled remaining target fx outcome).isReject = false := by
    intro ctx fx
    cases outcome with
    | rejected => simp only [routeCancelOutcome]; split <;> rfl
    | canceled => simp [routeCancelOutcome]
    | alreadyTerminal => simp [routeCancelOutcome]
    | _ => rfl
  simp only [applyCancelOutcome]
  split
  · rfl
  · split
    · rfl
    · split
      · rfl
      · exact hroute _ _

/-! ## Guards -/

/-- The context of a rejection is the one that was given. -/
def KeepsRejected (ctx : OrderCtx) (r : TransitionOutcome × OrderCtx) : Prop :=
  r.1.isReject = true → r.2 = ctx

theorem keeps_answer {r : TransitionOutcome × OrderCtx} (h : r.1.isReject = false) :
    KeepsRejected ctx r := by
  intro hr
  rw [h] at hr
  cases hr

theorem keeps_same (o : TransitionOutcome) : KeepsRejected ctx (o, ctx) := fun _ => rfl

theorem restingClaim_keeps (state : OrderState) (v : VenueOrderId) (remaining : Nat) :
    KeepsRejected ctx (applyUserOrderRestingClaim state ctx v remaining) := by
  simp only [applyUserOrderRestingClaim]
  split
  · exact keeps_same _
  · split <;> exact keeps_answer rfl

theorem terminalClaim_keeps (state : OrderState) (v : VenueOrderId) (filled : Nat) (executed : Bool) :
    KeepsRejected ctx (applyUserOrderTerminalClaim state ctx v filled executed) := by
  simp only [applyUserOrderTerminalClaim]
  split
  · exact keeps_same _
  · exact keeps_answer (by simp)

theorem frozen_keeps (state : OrderState) (event : OrderEvent) :
    KeepsRejected ctx (applyFrozen state ctx event) := by
  simp only [applyFrozen]
  split
  · exact keeps_same _
  · exact keeps_same _
  · cases event with
    | fill f =>
        simp only [restartSafeHandle]
        split <;> exact keeps_answer rfl
    | _ => exact keeps_same _

/-! ## The dispatch -/

theorem submitStarted_keeps (a : AttemptId) (event : OrderEvent) :
    KeepsRejected ctx (applySubmitStarted a ctx event) := by
  cases event with
  | submitResponse v count remaining avg fee b => exact keeps_answer (by simp [applySubmitStarted])
  | fill f => exact keeps_answer (by simp [applySubmitStarted])
  | closeSubmission reason => cases reason <;> exact keeps_same _
  | _ => exact keeps_same _

theorem submitUnknown_keeps (event : OrderEvent) :
    KeepsRejected ctx (applySubmitUnknown ctx event) := by
  cases event with
  | unknownBackfillResult exhaustive rows => exact keeps_answer (by simp [applySubmitUnknown])
  | userOrderRestingClaim v remaining => exact restingClaim_keeps _ v remaining
  | requestResubmit proven => cases proven <;> exact keeps_same _
  | fill f => exact keeps_answer (by simp [applySubmitUnknown])
  | closeSubmission reason => cases reason <;> exact keeps_same _
  | _ => exact keeps_same _

theorem live_keeps (state : OrderState) (v : VenueOrderId) (event : OrderEvent) :
    KeepsRejected ctx (applyLive state v ctx event) := by
  cases event with
  | userOrderTerminalClaim w filled executed => exact terminalClaim_keeps _ w filled executed
  | fill f => exact keeps_answer (by simp [applyLive])
  | cancelRequested => exact keeps_answer rfl
  | _ => exact keeps_same _

theorem cancelPending_keeps (state : OrderState) (v : VenueOrderId) (filled remaining : Nat)
    (count avg fee : Option Nat) (target : Option ReconcileTarget) (event : OrderEvent) :
    KeepsRejected ctx
      (applyCancelPending state v filled remaining count avg fee target ctx event) := by
  cases event with
  | userOrderTerminalClaim w filled executed => exact terminalClaim_keeps _ w filled executed
  | cancelOutcome outcome => exact keeps_answer (by simp [applyCancelPending])
  | fill f => exact keeps_answer (by simp [applyCancelPending])
  | reconcileResult status vid filled remaining fills complete =>
      exact keeps_answer (by simp [applyCancelPending])
  | _ => exact keeps_same _

theorem reconcilePending_keeps (state : OrderState) (v : VenueOrderId) (event : OrderEvent) :
    KeepsRejected ctx (applyReconcilePending state v ctx event) := by
  cases event with
  | userOrderTerminalClaim w filled executed => exact terminalClaim_keeps _ w filled executed
  | fill f => exact keeps_answer (by simp [applyReconcilePending])
  | reconcileResult status vid filled remaining fills complete =>
      exact keeps_answer (by simp [applyReconcilePending])
  | _ => exact keeps_same _

theorem unattributed_keeps (state : OrderState) (v : VenueOrderId) (count remaining : Nat)
    (avg fee : Option Nat) (event : OrderEvent) :
    KeepsRejected ctx
      (applyImmediateFillUnattributed state v count remaining avg fee ctx event) := by
  cases event with
  | immediateFillBackfillResult fills =>
      exact keeps_answer (by simp [applyImmediateFillUnattributed])
  | fill f => exact keeps_answer (by simp [applyImmediateFillUnattributed])
  | cancelRequested => exact keeps_answer rfl
  | _ => exact keeps_same _

/-- A rejected event leaves the context as it was and asks nothing of the shell. -/
theorem rejection_is_pure (state : OrderState) (ctx : OrderCtx) (event : OrderEvent)
    (h : (applyEvent state ctx event).1.isReject = true) :
    (applyEvent state ctx event).2 = ctx ∧ (applyEvent state ctx event).1.effects = [] := by
  have hkeeps : KeepsRejected ctx (applyEvent state ctx event) := by
    cases state with
    | new => cases event <;> exact keeps_same _
    | submitPrepared => exact keeps_same _
    | submitStarted a => exact submitStarted_keeps a event
    | submitUnknown => exact submitUnknown_keeps event
    | accepted v => exact live_keeps _ v event
    | partialFill v filled remaining => exact live_keeps _ v event
    | cancelPending v filled remaining count avg fee target =>
        exact cancelPending_keeps _ v filled remaining count avg fee target event
    | reconcilePending v filled remaining target count avg fee =>
        exact reconcilePending_keeps _ v event
    | immediateFillUnattributed v count remaining avg fee =>
        exact unattributed_keeps _ v count remaining avg fee event
    | _ => exact frozen_keeps _ event
  refine ⟨hkeeps h, ?_⟩
  cases hout : (applyEvent state ctx event).1 with
  | reject reason => rfl
  | accept s fx => simp [hout, TransitionOutcome.isReject] at h
  | halt s reason fx => simp [hout, TransitionOutcome.isReject] at h

/-- A terminal claim that counts more than is attributed is rejected by an accepted order. -/
theorem rejection_is_pure_claim :
    let ctx := { OrderCtx.new ⟨"c"⟩ "M" "x" .buyYes 40 3 with venueOrderId := some ⟨"v"⟩ }
    (applyEvent (.accepted ⟨"v"⟩) ctx (.userOrderTerminalClaim ⟨"v"⟩ 2 false)).2 = ctx ∧
      (applyEvent (.accepted ⟨"v"⟩) ctx (.userOrderTerminalClaim ⟨"v"⟩ 2 false)).1.effects = [] :=
  rejection_is_pure _ _ _ (by decide)

end Omsrs.Lifecycle
