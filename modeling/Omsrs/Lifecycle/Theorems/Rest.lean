import Omsrs.Lifecycle.Lemmas.Steps

/-!
# An order at rest

An order that came to rest asks for nothing and releases nothing any more, whatever it is told. Money
that comes in late is still booked: it halts the order aloud, and takes the reservation back.
-/

namespace Omsrs.Lifecycle
open Omsrs.Lib

variable {s s' s'' : OrderState} {c d : OrderCtx} {f : FillRecord} {fx gx : List Effect}

/-! ## What is told at rest -/

/-- A request to the venue, or the end of the reservation. -/
def Effect.reaches : Effect → Bool
  | .backfillFills _ | .backfillUnknown _ | .reconcileCancel _ | .requestAuthorityReconcile ..
  | .releaseReservation => true
  | _ => false

/-- Money that the account is told of. -/
def Effect.spends : Effect → Bool
  | .accountFill .. => true
  | _ => false

/-- What an order at rest made of some events. -/
structure Rested (s : OrderState) (fx : List Effect) (s' : OrderState) : Prop where
  quiet : ∀ e ∈ fx, e.reaches = false
  ended : s' = s ∨ (s = .unknownNoMatch ∧ s' = .submissionClosed .exhaustiveAbsent) ∨
    ∃ reason, s' = .halted reason
  spent : fx.any Effect.spends = true → (∃ reason, s' = .halted reason) ∧ .haltNewExposure ∈ fx
  backed : reservationHeld s = .released → reservationHeld s' = .full → .reserveFull ∈ fx

namespace Rested

theorem refl (s : OrderState) : Rested s [] s where
  quiet := by simp
  ended := .inl rfl
  spent := by simp
  backed h h' := by
    rw [h] at h'
    cases h'

theorem frozen (h : Rested s fx s') (hs : isRestartFrozen s = true) : isRestartFrozen s' = true := by
  rcases h.ended with rfl | ⟨-, rfl⟩ | ⟨reason, rfl⟩
  · exact hs
  · rfl
  · rfl

theorem trans (h : Rested s fx s') (h' : Rested s' gx s'') : Rested s (fx ++ gx) s'' where
  quiet e he := by
    rcases List.mem_append.mp he with he | he
    · exact h.quiet e he
    · exact h'.quiet e he
  ended := by
    rcases h'.ended with rfl | ⟨hs', rfl⟩ | hr
    · exact h.ended
    · rcases h.ended with rfl | ⟨-, hc⟩ | ⟨reason, hr⟩
      · exact .inr (.inl ⟨hs', rfl⟩)
      · rw [hs'] at hc
        cases hc
      · rw [hs'] at hr
        cases hr
    · exact .inr (.inr hr)
  spent hany := by
    rw [List.any_append, Bool.or_eq_true] at hany
    rcases hany with hany | hany
    · obtain ⟨⟨reason, rfl⟩, hmem⟩ := h.spent hany
      refine ⟨?_, List.mem_append_left _ hmem⟩
      rcases h'.ended with rfl | ⟨hs', -⟩ | hr
      · exact ⟨reason, rfl⟩
      · cases hs'
      · exact hr
    · obtain ⟨hr, hmem⟩ := h'.spent hany
      exact ⟨hr, List.mem_append_right _ hmem⟩
  backed hs hs'' := by
    cases hm : reservationHeld s' with
    | released => exact List.mem_append_right _ (h'.backed hm hs'')
    | full => exact List.mem_append_left _ (h.backed hs hm)

/-- A step that neither moves nor spends. -/
theorem stays (hfx : ∀ e ∈ fx, e.reaches = false) (hsp : fx.any Effect.spends = false) :
    Rested s fx s where
  quiet := hfx
  ended := .inl rfl
  spent h := by
    rw [hsp] at h
    cases h
  backed h h' := by
    rw [h] at h'
    cases h'

/-- A halt, with the reservation taken back. -/
theorem halts (hfx : ∀ e ∈ fx, e.reaches = false) (reason : HaltReason) :
    Rested s (haltWithReason reason (reserveIfReleased s fx)).effects (.halted reason) where
  quiet e he := by
    simp only [haltWithReason, TransitionOutcome.effects, List.mem_append, List.mem_cons,
      List.not_mem_nil, or_false] at he
    rcases he with he | rfl | rfl
    · unfold reserveIfReleased at he
      split at he
      · rcases List.mem_append.mp he with he | he
        · exact hfx e he
        · rw [List.mem_singleton.mp he]
          rfl
      · exact hfx e he
    · rfl
    · rfl
  ended := .inr (.inr ⟨reason, rfl⟩)
  spent _ := ⟨⟨reason, rfl⟩, by simp [haltWithReason, TransitionOutcome.effects]⟩
  backed h _ := by simp [haltWithReason, TransitionOutcome.effects, reserveIfReleased, h]

end Rested

/-! ## One step -/

theorem bookEffects_quiet (c : OrderCtx) (f : FillRecord) : ∀ e ∈ bookEffects c f, e.reaches = false := by
  unfold bookEffects fillEffects
  split
  · simp [Effect.reaches]
  · simp [Effect.reaches]

theorem completeEffects_quiet (c : OrderCtx) (f : FillRecord) (prev : FillPayload) :
    (∀ e ∈ completeEffects c f prev, e.reaches = false) ∧
      (completeEffects c f prev).any Effect.spends = false := by
  unfold completeEffects
  split
  · simp [Effect.reaches, Effect.spends]
  · simp [Effect.reaches, Effect.spends]

theorem restartSafeHandle_rested (s : OrderState) (c : OrderCtx) (e : OrderEvent) :
    Rested s (restartSafeHandle s c e).1.effects ((restartSafeHandle s c e).1.newState.getD s) := by
  cases e with
  | fill f =>
      have h := tryAccountFill_accounting c f
      simp only [restartSafeHandle]
      generalize tryAccountFill c f = r at h
      obtain ⟨r, d⟩ := r
      cases h with
      | ignored => exact .refl s
      | refused reason => exact .halts (by simp) reason
      | completed prev _ =>
          obtain ⟨hq, hsp⟩ := completeEffects_quiet c f prev
          exact .stays hq hsp
      | booked _ _ => exact .halts (bookEffects_quiet c f) .postTerminalFill
      | overfilled _ detail => exact .halts (bookEffects_quiet c f) (.crossCheckMismatch detail)
  | decreaseObserved => exact .refl s
  | amendObserved => exact .refl s
  | _ => exact .refl s

theorem applyFrozen_rested (s : OrderState) (c : OrderCtx) (e : OrderEvent) :
    Rested s (applyFrozen s c e).1.effects ((applyFrozen s c e).1.newState.getD s) := by
  unfold applyFrozen
  split
  · exact .refl _
  · simp only [tryCloseSubmission]
    split
    · exact .refl _
    · refine ⟨by simp [accept, TransitionOutcome.effects], .inr (.inl ⟨rfl, rfl⟩), ?_, ?_⟩
      · simp [accept, TransitionOutcome.effects]
      · intro h
        cases h
  · exact restartSafeHandle_rested s c e

theorem step_rested {o : Order} (ho : isRestartFrozen o.state = true) (e : OrderEvent) :
    Rested o.state (lifecycle.step o e).1.effects (lifecycle.step o e).2.state := by
  obtain ⟨s, c⟩ := o
  have h := applyFrozen_rested s c e
  cases s <;> first | exact h | cases ho

/-! ## Any run -/

/-- An order at rest stays at rest over every run: it asks for nothing and releases nothing; it is as it
was, or closed as absent, or halted; and where late money was told to the account, it halted aloud. A
reservation that had been released is taken back by the step that halts. -/
theorem rest_stays_quiet (o : Order) (ho : isRestartFrozen o.state = true) (es : List OrderEvent) :
    Rested o.state (runEffects o es) (lifecycle.final o es).state := by
  have hrun := lifecycle.history_induction
    (P := fun ws t => Rested o.state (ws.flatMap (·.effects)) t.state) (C := fun _ _ => True)
    (fun ws t e h _ => ?_) (w := []) (s := o) (.refl _) (lifecycle.always_true o es)
  · exact hrun
  · rw [List.flatMap_append, List.flatMap_singleton]
    exact h.trans (step_rested (h.frozen ho) e)

/-- A fill that comes in after the order was closed as absent. -/
theorem rest_stays_quiet_closed :
    let o : Order := ⟨.submissionClosed .exhaustiveAbsent, (Order.new ⟨"c"⟩ "m" "s" .buyYes 40 10).ctx⟩
    let es := [OrderEvent.fill ⟨⟨"f"⟩, 3, 40, 7, some ⟨"V"⟩, none⟩, .cancelRequested]
    Rested o.state (runEffects o es) (lifecycle.final o es).state ∧
      (runEffects o es).any Effect.spends = true ∧ .reserveFull ∈ runEffects o es := by
  intro o es
  have h := rest_stays_quiet o rfl es
  have hspent : (runEffects o es).any Effect.spends = true := by decide
  obtain ⟨⟨reason, hr⟩, -⟩ := h.spent hspent
  exact ⟨h, hspent, h.backed rfl (by rw [hr]; rfl)⟩

end Omsrs.Lifecycle
