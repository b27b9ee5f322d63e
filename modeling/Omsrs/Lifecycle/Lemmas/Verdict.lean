import Omsrs.Lifecycle.Lemmas.Books

/-!
# Where a transition lands

A transition of an open order walks a trail of moves and ends in one of three ways: an open state that
agrees with its context, a halt, or a release behind the terminal gate.
-/

namespace Omsrs.Lifecycle
open Omsrs.Lib

/-! ## Agreement of state and context -/

/-- The books are right and the response counts no more than the obligation. -/
structure Sound (c : OrderCtx) : Prop where
  accounted : Accounted c
  current : DomainCurrent c
  counted : ∀ rc, c.responseFillCount = some rc → rc ≤ c.fillObligation

/-- Before the response nothing is bound, latched or reported. -/
structure Unanswered (c : OrderCtx) : Prop where
  unbound : c.venueOrderId = none
  unlatched : c.authorityComplete = false
  unreported : c.responseFillCount = none

/-- The fields of an open state that repeat the context. -/
def Agrees : OrderState → OrderCtx → Prop
  | .accepted v, c => c.venueOrderId = some v
  | .partialFill v q _, c | .reconcilePending v q .., c =>
      c.venueOrderId = some v ∧ q = c.attributedFillQty
  | .cancelPending v q _ rc avg fee target, c =>
      c.venueOrderId = some v ∧ q = c.attributedFillQty ∧ rc = c.responseFillCount ∧
        avg = c.responseAvgPriceCents ∧ fee = c.responseFeeCents ∧ target = none
  | .immediateFillUnattributed v rc _ avg fee, c =>
      c.venueOrderId = some v ∧ c.responseFillCount = some rc ∧ avg = c.responseAvgPriceCents ∧
        fee = c.responseFeeCents
  | .new, c | .submitPrepared, c | .submitStarted _, c | .submitUnknown, c => Unanswered c
  | _, _ => True

structure Coherent (s : OrderState) (c : OrderCtx) : Prop where
  sound : Sound c
  agrees : Agrees s c

/-! ## Verdicts -/

/-- The states a halt leads to. -/
def isHaltState : OrderState → Bool
  | .halted _ | .immediateFillUnresolved | .unknownNoMatch => true
  | _ => false

/-- What stands in the context when the reservation is released. -/
structure Released (kind : TerminalKind) (c : OrderCtx) : Prop where
  bound : ∃ v, c.venueOrderId = some v
  current : DomainCurrent c
  gate : finalizeGate c = none
  full : kind = .filled → c.attributedFillQty = c.qty

def terminalState : TerminalKind → OrderState
  | .filled => .filled
  | .canceled => .canceled
  | .terminal => .terminal

def terminalEffects (c : OrderCtx) (kind : TerminalKind) : List Effect :=
  [.appendFsync (.orderTerminal kind c.venueOrderId c.fillObligation c.authorityIsFresh
      c.authorityEpoch c.attributedFillQty c.attributedFeeCents),
    .releaseReservation]

/-- The outcomes an open order's event can have, seen from the context `c` it starts in. `R` says
whether the event may release. -/
inductive Lands (P : Scope) (R : Prop) (c : OrderCtx) : TransitionOutcome → OrderCtx → Prop
  | accepted {s : OrderState} {fx : List Effect} {d : OrderCtx} (hs : isRestartFrozen s = false)
      (ht : Trail (Deed P) c fx d) (hc : Coherent s d) : Lands P R c (.accept s fx) d
  | halted {fx : List Effect} {d : OrderCtx} (ht : Trail (Deed P) c fx d) (reason : HaltReason) :
      Lands P R c (haltWithReason reason fx) d
  | released {k : TerminalKind} {fx : List Effect} {d : OrderCtx} (hr : R)
      (ht : Trail (Deed P) c fx d) (hd : Released k d) :
      Lands P R c (.accept (terminalState k) (fx ++ terminalEffects d k)) d

variable {P : Scope} {R : Prop} {c d e : OrderCtx} {fx gx : List Effect} {v : VenueOrderId}

theorem Sound.note (h : Sound c) (r : Nat) : Sound (c.noteVenueRemaining r) :=
  ⟨h.accounted.note r, h.current.note r, h.counted⟩

theorem Sound.trail (h : Sound c) (ht : Trail (Move P) c fx d) : Sound d := by
  refine ⟨Moves.accounted ht h.accounted, Moves.current ht h.current, ?_⟩
  intro rc hrc
  have hk := Moves.kept ht
  have hresp : d.responseFillCount = c.responseFillCount := congrArg (·.1) hk.response
  exact (h.counted rc (hresp ▸ hrc)).trans hk.obligation

theorem Sound.latch (h : Sound c) : Sound c.latchAuthorityComplete :=
  h.trail (P := .any) (.single (.settle .latch))

theorem Moves.deeds (h : Trail (Move P) c fx d) : Trail (Deed P) c fx d :=
  h.mono fun h => .inl h

theorem Deeds.extend (h : Trail (Deed P) c fx d) (h' : Trail (Move P) d gx e) :
    Trail (Deed P) c (fx ++ gx) e := h.append (Moves.deeds h')

theorem Deeds.idles {g : List Effect} (h : Trail (Deed P) c fx d)
    (hg : ∀ e ∈ g, e.isIdle = true) : Trail (Deed P) c (fx ++ g) d := by
  refine Deeds.extend h ?_
  clear h
  induction g with
  | nil => exact .nil d
  | cons e g ih =>
      exact (Trail.single (Move.idle (hg e (by simp)))).append
        (ih fun e' he' => hg e' (by simp [he']))

/-- A record of the evidence seen so far is one more trail. -/
theorem Deeds.push {jr : Option JournalRecord} (h : Trail (Deed P) c fx d)
    (h' : Trail (Move P) d (pushJournal [] jr) e) : Trail (Deed P) c (pushJournal fx jr) e := by
  have := Deeds.extend h h'
  cases jr <;> simpa [pushJournal] using this

theorem Deeds.latched (h : Trail (Deed P) c fx d) :
    Trail (Deed P) c (pushJournal fx (some (.authorityLatched d.authorityEpoch)))
      d.latchAuthorityComplete :=
  Deeds.push h (.single (.settle .latch))

/-- What went before the verdict belongs to its trail. -/
theorem Lands.prepend {o : TransitionOutcome} (h : Lands P R d o e)
    (ht : Trail (Deed P) c fx d) : Lands P R c (o.prependEffects fx) e := by
  cases h with
  | accepted hs ht' hc => exact .accepted hs (ht.append ht') hc
  | halted ht' reason =>
      simp only [haltWithReason, TransitionOutcome.prependEffects, ← List.append_assoc]
      exact .halted (ht.append ht') reason
  | released hr ht' hd =>
      simp only [TransitionOutcome.prependEffects, ← List.append_assoc]
      exact .released hr (ht.append ht') hd

/-! ## The terminal gate -/

/-- Waiting asks for what is missing and moves no money. -/
theorem notReadyForTerminal_eq (d : OrderCtx) (v : VenueOrderId) (fx : List Effect)
    (fallback : ReconcileTerminal) (request : Bool) (remaining : Option Nat) :
    ∃ gx, (∀ g ∈ gx, g.isIdle = true) ∧ notReadyForTerminal d v fx fallback request remaining =
      accept (.reconcilePending v d.attributedFillQty d.remainingQty
        ⟨fallback, max d.fillObligation d.attributedFillQty, remaining.or d.lastVenueRemainingQty⟩
        d.responseFillCount d.responseAvgPriceCents d.responseFeeCents) (fx ++ gx) := by
  have hask : ∀ (asks : Effect → Bool) (hx : List Effect), ∃ gx, (∀ g ∈ gx, g.isIdle = true) ∧
      (if request || decide (d.fillObligation ≤ d.attributedFillQty) then
        if request && !(hx ++ [Effect.requestAuthorityReconcile (some v) d.clientOrderId]).any asks then
          hx ++ [.requestAuthorityReconcile (some v) d.clientOrderId] ++ [.reconcileCancel (some v)]
        else hx ++ [.requestAuthorityReconcile (some v) d.clientOrderId]
      else hx) = hx ++ gx := by
    intro asks hx
    split
    · split
      · exact ⟨[.requestAuthorityReconcile (some v) d.clientOrderId, .reconcileCancel (some v)],
          by simp [Effect.isIdle], by simp⟩
      · exact ⟨[.requestAuthorityReconcile (some v) d.clientOrderId], by simp [Effect.isIdle], rfl⟩
    · exact ⟨[], by simp, by simp⟩
  have hfill : ∃ hx, (∀ g ∈ hx, g.isIdle = true) ∧
      (if d.attributedFillQty < d.fillObligation then fx ++ [.backfillFills v] else fx) =
        fx ++ hx := by
    split
    · exact ⟨[.backfillFills v], by simp [Effect.isIdle], rfl⟩
    · exact ⟨[], by simp, by simp⟩
  obtain ⟨hx, hhx, hfx⟩ := hfill
  obtain ⟨gx, hgx, he⟩ := hask _ (fx ++ hx)
  refine ⟨hx ++ gx, fun g hmem => (List.mem_append.mp hmem).elim (hhx g) (hgx g), ?_⟩
  unfold notReadyForTerminal
  dsimp only
  rw [hfx]
  exact congrArg _ (he.trans (List.append_assoc ..))

theorem notReadyForTerminal_lands (ht : Trail (Deed P) c fx d) (hd : Sound d)
    (hv : d.venueOrderId = some v) (fallback : ReconcileTerminal) (request : Bool)
    (remaining : Option Nat) :
    Lands P R c (notReadyForTerminal d v fx fallback request remaining) d := by
  obtain ⟨gx, hg, he⟩ := notReadyForTerminal_eq d v fx fallback request remaining
  rw [he]
  exact .accepted rfl (Deeds.idles ht hg) ⟨hd, hv, rfl⟩

theorem finalizeFilled_lands (ht : Trail (Deed P) c fx d) (hd : Sound d)
    (hv : d.venueOrderId = some v) (hg : finalizeGate d = none) (hr : R)
    (filled remaining : Nat) : Lands P R c (finalizeFilled d v fx filled remaining) d := by
  unfold finalizeFilled
  split
  · exact .halted ht _
  · split
    · exact .halted ht _
    · rename_i left hleft
      obtain ⟨hle, rfl⟩ := checkedSub_eq_some.mp hleft
      split
      · split
        · exact .halted ht _
        · exact notReadyForTerminal_lands ht hd hv _ _ _
      · rename_i hall
        have hfull : d.attributedFillQty = d.qty := by omega
        exact .released (k := .filled) hr ht ⟨⟨v, hv⟩, hd.current, hg, fun _ => hfull⟩

/-- Without fresh authority nothing is released. -/
theorem finalizeGate_fresh (h : finalizeGate c = none) : c.authorityIsFresh = true := by
  unfold finalizeGate at h
  split at h
  · cases h
  · split at h
    · cases h
    · simp_all

theorem tryFinalizeTerminal_lands (ht : Trail (Deed P) c fx d) (hd : Sound d)
    (hv : d.venueOrderId = some v) (hr : d.authorityIsFresh = true → R)
    (proposed : ProposedTerminal) (fallback : ReconcileTerminal) :
    Lands P R c (tryFinalizeTerminal d proposed v fx fallback) d := by
  unfold tryFinalizeTerminal
  split
  · exact .halted ht _
  · dsimp only
    split
    · exact notReadyForTerminal_lands (Deeds.idles ht (by simp [Effect.isIdle])) hd hv _ _ _
    · exact notReadyForTerminal_lands ht hd hv _ _ _
  · rename_i hg
    have hr' : R := hr (finalizeGate_fresh hg)
    cases proposed with
    | filled filled remaining => exact finalizeFilled_lands ht hd hv hg hr' filled remaining
    | canceled =>
        exact .released (k := .canceled) hr' ht ⟨⟨v, hv⟩, hd.current, hg, by simp⟩
    | terminal =>
        exact .released (k := .terminal) hr' ht ⟨⟨v, hv⟩, hd.current, hg, by simp⟩

/-! ## Live routing -/

theorem routeLiveOrFilled_lands (ht : Trail (Deed P) c fx d) (hd : Sound d)
    (hv : d.venueOrderId = some v) (hr : R) :
    Lands P R c (routeLiveOrFilled d v fx).1 (routeLiveOrFilled d v fx).2 := by
  unfold routeLiveOrFilled
  split
  · exact .halted ht _
  · split
    · exact tryFinalizeTerminal_lands (Deeds.latched ht) hd.latch hv (fun _ => hr) _ _
    · split
      · exact .accepted rfl ht ⟨hd, hv⟩
      · exact .accepted rfl ht ⟨hd, hv, rfl⟩

/-! ## Loops over fills -/

/-- The attempt's own trail. -/
theorem Accounting.trail {f : FillRecord} {a : AccountAttempt} (h : Accounting c f a d)
    (hf : P.offers f) :
    match a with
    | .noOp => d = c
    | .applied e | .enriched e | .halt _ e => Trail (Move P) c e d := by
  cases h with
  | ignored => rfl
  | refused reason => exact .nil c
  | completed prev h => exact .single (.complete ⟨f, prev, h, rfl, rfl⟩)
  | booked h _ => exact .single (.settle (.book f hf h))
  | overfilled h _ => exact .single (.settle (.book f hf h))

/-- The fills taken in so far only completed known payloads, or one of them was new. -/
inductive Drained (P : Scope) (c : OrderCtx) (fx : List Effect) (d : OrderCtx) : Prop
  | completed (h : Trail Completion c fx d)
  | booked {fx₁ fx₂ fx₃ : List Effect} {c₁ c₂ : OrderCtx} (h₁ : Trail Completion c fx₁ c₁)
      (h₂ : Settles P.offers c₁ fx₂ c₂) (h₃ : Trail (Move P) c₂ fx₃ d) (he : fx = fx₁ ++ (fx₂ ++ fx₃))

theorem Completions.moves (h : Trail Completion c fx d) : Trail (Move P) c fx d :=
  h.mono fun h => .complete h

theorem Drained.trail (h : Drained P c fx d) : Trail (Move P) c fx d := by
  cases h with
  | completed h => exact Completions.moves h
  | booked h₁ h₂ h₃ he =>
      subst he
      exact (Completions.moves h₁).append ((Trail.single (.settle h₂)).append h₃)

/-- The context and the effects with which a loop over fills ends, however it ends. -/
def accountedBy : Except (HaltReason × List Effect × OrderCtx) (List Effect × OrderCtx) →
    List Effect × OrderCtx
  | .ok r => r
  | .error (_, fx, d) => (fx, d)

/-- A loop over fills walks a trail, and only a booking or an early end hides the batch's
completeness from the latch. -/
theorem accountFills_drained (refuse : FillRecord → Option HaltReason) (c : OrderCtx)
    (fx : List Effect) (fills : List FillRecord) (hf : ∀ f ∈ fills, P.offers f) :
    ∃ gx, (accountedBy (accountFills refuse c fx fills)).1 = fx ++ gx ∧
      Drained P c gx (accountedBy (accountFills refuse c fx fills)).2 := by
  induction fills generalizing c fx with
  | nil => exact ⟨[], by simp [accountFills, accountedBy], .completed (.nil c)⟩
  | cons f fills ih =>
      have hhead : P.offers f := hf f (by simp)
      have htail : ∀ g ∈ fills, P.offers g := fun g hg => hf g (by simp [hg])
      simp only [accountFills]
      split
      · exact ⟨[], by simp [accountedBy], .completed (.nil c)⟩
      · have ha := tryAccountFill_accounting c f
        rcases hres : tryAccountFill c f with ⟨a, d⟩
        simp only [hres] at ha
        cases ha with
        | ignored => exact ih _ fx htail
        | refused reason => exact ⟨[], by simp [accountedBy], .completed (.nil _)⟩
        | completed prev h =>
            obtain ⟨gx, he, hd⟩ := ih (completedCtx c f prev) (fx ++ completeEffects c f prev) htail
            refine ⟨completeEffects c f prev ++ gx, by rw [← List.append_assoc]; exact he, ?_⟩
            have hm : Trail Completion c (completeEffects c f prev) (completedCtx c f prev) :=
              .single ⟨f, prev, h, rfl, rfl⟩
            cases hd with
            | completed h' => exact .completed (hm.append h')
            | booked h₁ h₂ h₃ he' =>
                exact .booked (hm.append h₁) h₂ h₃ (by rw [he', List.append_assoc])
        | booked h _ =>
            obtain ⟨gx, he, hd⟩ := ih (bookedCtx c f) (fx ++ bookEffects c f) htail
            exact ⟨bookEffects c f ++ gx, by rw [← List.append_assoc]; exact he,
              .booked (.nil c) (.book f hhead h) hd.trail rfl⟩
        | overfilled h detail =>
            exact ⟨bookEffects c f, rfl, .booked (.nil c) (.book f hhead h) (.nil _) (by simp)⟩

end Omsrs.Lifecycle
