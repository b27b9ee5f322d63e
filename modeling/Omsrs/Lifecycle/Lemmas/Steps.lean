import Omsrs.Lifecycle.Lemmas.Reconcile

/-!
# One step of an order

Cancels, claims and the frozen states, and then the inversion of `stepOrder`: everything one event can
do to an order whose state agrees with its context.
-/

namespace Omsrs.Lifecycle
open Omsrs.Lib

variable {P : Scope} {R : Prop} {c d : OrderCtx} {fx : List Effect} {v : VenueOrderId}

/-! ## Cancel -/

/-- A cancel record after its invalidation changes nothing in a fold. -/
theorem cancel_echo {r : JournalRecord} (hr : r = .cancelRequestedCid c.clientOrderId ∨
      ∃ outcome, r = .cancelOutcomeCid c.clientOrderId outcome)
    (ha : c.authorityComplete = false) : Move P c [.appendFsync r] c := by
  rcases hr with rfl | ⟨outcome, rfl⟩ <;>
    exact .echo rfl rfl fun _ => by simp [foldRecord, ha]

theorem requestCancel_lands (hc : Sound c) (hv : c.venueOrderId = some v) {rc avg fee : Option Nat}
    (hrc : rc = c.responseFillCount) (havg : avg = c.responseAvgPriceCents)
    (hfee : fee = c.responseFeeCents) :
    Lands P R c (requestCancel c v rc avg fee).1 (requestCancel c v rc avg fee).2 := by
  have ht : Trail (Move P) c _ c.invalidateAuthority :=
    (Trail.single .invalidate).snoc (cancel_echo (.inl rfl) rfl)
  exact .accepted rfl (Moves.deeds ht) ⟨hc.trail ht, hv, rfl, hrc, havg, hfee, rfl⟩

/-- The response a pending cancel carries is the one its context has. -/
theorem carryResponse_same (hc : Sound c) {rc avg fee : Option Nat} (hrc : rc = c.responseFillCount)
    (havg : avg = c.responseAvgPriceCents) (hfee : fee = c.responseFeeCents) :
    carryResponse c fx rc avg fee = .ok (fx, c) := by
  subst havg hfee
  cases hresp : c.responseFillCount with
  | none =>
      obtain rfl : rc = none := hrc.trans hresp
      simp only [carryResponse, Option.or_self]
  | some n =>
      have hn : n ≤ c.fillObligation := hc.counted n hresp
      have hq := hc.accounted.bounded
      have hself : { c with responseFillCount := some n } = c := by rw [← hresp]
      have hraise : c.raiseFillObligation n = .ok c := by
        simp [OrderCtx.raiseFillObligation, show ¬ c.qty < n by omega,
          show ¬ c.fillObligation < n by omega]
      simp only [carryResponse, hrc, hresp, Option.or_self, hself, hraise, raiseEffects,
        lt_irrefl, if_false, ne_eq, not_true_eq_false, List.append_nil]

theorem routeCancelOutcome_lands (ht : Trail (Deed P) c fx d) (hd : Sound d)
    (hv : d.venueOrderId = some v) (ha : d.authorityComplete = false) {filled : Nat}
    (hf : filled = d.attributedFillQty) (remaining : Nat) (outcome : CancelOutcome) :
    Lands P R c (routeCancelOutcome d v filled remaining none fx outcome) d := by
  have hstale : d.authorityIsFresh = true → R := by simp [OrderCtx.authorityIsFresh, ha]
  have hidle := Deeds.idles (g := [.reconcileCancel (some v)]) ht (by simp [Effect.isIdle])
  unfold routeCancelOutcome
  cases outcome with
  | canceled => exact tryFinalizeTerminal_lands ht hd hv hstale _ _
  | alreadyTerminal => exact tryFinalizeTerminal_lands ht hd hv hstale _ _
  | accepted => exact .accepted rfl ht ⟨hd, hv, hf, rfl, rfl, rfl, rfl⟩
  | rejected =>
      dsimp only
      split
      · exact .accepted rfl ht ⟨hd, hv⟩
      · exact .accepted rfl ht ⟨hd, hv, max_eq_left hf.le⟩
  | notFound => exact .accepted rfl hidle ⟨hd, hv, hf, rfl, rfl, rfl, rfl⟩
  | transportUnknown => exact .accepted rfl hidle ⟨hd, hv, hf, rfl, rfl, rfl, rfl⟩
  | unknown => exact .accepted rfl hidle ⟨hd, hv, hf, rfl, rfl, rfl, rfl⟩

/-- A cancel outcome never releases: its own invalidation closes the authority gate. -/
theorem applyCancelOutcome_lands (hc : Sound c) {filled remaining : Nat} {rc avg fee : Option Nat}
    {target : Option ReconcileTarget}
    (ha : Agrees (.cancelPending v filled remaining rc avg fee target) c) (outcome : CancelOutcome) :
    Lands P R c (applyCancelOutcome c v filled remaining rc avg fee target outcome).1
      (applyCancelOutcome c v filled remaining rc avg fee target outcome).2 := by
  obtain ⟨hv, hf, hrc, havg, hfee, rfl⟩ := ha
  have ht : Trail (Move P) c _ c.invalidateAuthority :=
    (Trail.single .invalidate).snoc (cancel_echo (.inr ⟨outcome, rfl⟩) rfl)
  have hd : Sound c.invalidateAuthority := hc.trail ht
  have hv' : c.invalidateAuthority.venueOrderId = some v := hv
  unfold applyCancelOutcome
  simp only [authorityInvalidateEffects, carryResponse_same hd hrc havg hfee, carryTarget,
    bindVenueId_same hv']
  exact routeCancelOutcome_lands (Moves.deeds ht) hd hv' rfl hf _ _

/-! ## Claims and own actions -/

theorem applyUserOrderRestingClaim_lands (hc : Coherent .submitUnknown c) (v : VenueOrderId)
    (remaining : Nat)
    (hP : P.carried → c.attributedFillQty = 0 → remaining = c.qty → (bindVenueId c v).isOk = true →
      c.lastVenueRemainingQty = some remaining) :
    (∃ reason, applyUserOrderRestingClaim .submitUnknown c v remaining = (.reject reason, c)) ∨
      Lands P R c (applyUserOrderRestingClaim .submitUnknown c v remaining).1
        (applyUserOrderRestingClaim .submitUnknown c v remaining).2 := by
  unfold applyUserOrderRestingClaim
  split
  · exact .inl ⟨_, rfl⟩
  · rename_i hok
    obtain ⟨hzero, hrem⟩ : c.attributedFillQty = 0 ∧ remaining = c.qty := by
      simpa only [ne_eq, not_or, Decidable.not_not] using hok
    right
    cases hb : bindVenueId c v with
    | error reason => exact .halted (.nil _) _
    | ok r =>
        obtain ⟨jr, d⟩ := r
        have hbind : Trail (Move P) c (pushJournal [] jr) d := bindVenueId_trail hb
        have hlast : d.lastVenueRemainingQty = c.lastVenueRemainingQty := by
          rcases bindVenueId_ok hb with ⟨_, _, rfl⟩ | ⟨_, _, _, rfl⟩ <;> rfl
        have ht : Trail (Move P) c (pushJournal [] jr ++ []) (d.noteVenueRemaining remaining) :=
          hbind.snoc (.remaining fun hp =>
            hlast.trans (hP hp hzero hrem (by simp [hb, Except.isOk, Except.toBool])))
        rw [List.append_nil] at ht
        exact .accepted rfl (Moves.deeds ht)
          ⟨hc.sound.trail ht, bindVenueId_bound (d := d) hb⟩

theorem applyUserOrderTerminalClaim_lands {s : OrderState} (hc : Sound c) (hr : R)
    (v : VenueOrderId) (filled : Nat) (executed : Bool)
    (hP : P.carried → terminalClaimRejected c v filled executed = false →
      c.lastVenueRemainingQty = some 0) :
    (∃ reason, applyUserOrderTerminalClaim s c v filled executed = (.reject reason, c)) ∨
      Lands P R c (applyUserOrderTerminalClaim s c v filled executed).1
        (applyUserOrderTerminalClaim s c v filled executed).2 := by
  unfold applyUserOrderTerminalClaim
  split
  · exact .inl ⟨_, rfl⟩
  · rename_i hok
    have hrej : terminalClaimRejected c v filled executed = false := decide_eq_false hok
    have hv : c.venueOrderId = some v := by simp only [not_or] at hok; exact not_not.mp hok.1
    have ht : Trail (Move P) c _ (c.noteVenueRemaining 0).latchAuthorityComplete :=
      (Trail.single (.remaining fun hp => hP hp hrej)).snoc (.settle .latch)
    exact .inr (tryFinalizeTerminal_lands (Moves.deeds ht) (hc.trail ht) hv (fun _ => hr) _ _)

theorem ownActionAccept_lands {s : OrderState} (hc : Coherent s c)
    (hs : isRestartFrozen s = false) {e : OrderEvent}
    (he : (∃ r t, e = .decreaseObserved r t) ∨ e = .amendObserved) :
    Lands P R c (ownActionAccept s c e) c := by
  rcases he with ⟨r, t, rfl⟩ | rfl <;>
    exact .accepted hs (Deeds.idles (g := [_]) (.nil c) (by simp [Effect.isIdle])) hc

/-! ## The inversion -/

def OrderEvent.isCancel : OrderEvent → Bool
  | .cancelRequested | .cancelOutcome _ => true
  | _ => false

/-- The states a submission may be closed from. -/
def closesFrom : OrderState → Bool
  | .submitStarted _ | .submitUnknown | .unknownNoMatch => true
  | _ => false

/-- The waits that end in a halt of their own kind, and the record each leaves. -/
inductive Strands : OrderState → OrderEvent → OrderState → HaltReason → JournalRecord → Prop
  | unresolved {v : VenueOrderId} {count remaining : Nat} {avg fee : Option Nat} (cid : ClientOrderId) :
      Strands (.immediateFillUnattributed v count remaining avg fee) .backfillDeadlineElapsed
        .immediateFillUnresolved .immediateFillUnresolved (.immediateFillUnresolvedCid cid)
  | unmatched (cid : ClientOrderId) :
      Strands .submitUnknown (.unknownBackfillResult true []) .unknownNoMatch .unknownNoMatch
        (.unknownNoMatchCid cid)

/-- The wait was open, its record is idle, and what it leads to is one of the halts. -/
theorem Strands.halts {s s' : OrderState} {e : OrderEvent} {reason : HaltReason} {r : JournalRecord}
    (h : Strands s e s' reason r) :
    isRestartFrozen s = false ∧ (Effect.appendFsync r).isIdle = true ∧ isHaltState s' = true := by
  cases h <;> exact ⟨rfl, rfl, rfl⟩

/-- Everything one event can do to an order. -/
inductive Stepped (P : Scope) (o : Order) (e : OrderEvent) : TransitionOutcome → OrderCtx → Prop
  | rejected (reason : RejectReason) : Stepped P o e (.reject reason) o.ctx
  | landed {out : TransitionOutcome} {d : OrderCtx} (ho : isRestartFrozen o.state = false)
      (h : Lands P (e.isCancel = false) o.ctx out d) : Stepped P o e out d
  | refused {reason : HaltReason} {fx : List Effect} {d : OrderCtx}
      (ho : isRestartFrozen o.state = false) (h : Refused o.ctx e reason fx d)
      (hs : ∃ a, o.state = .submitStarted a) : Stepped P o e (haltWithReason reason fx) d
  | stranded {s : OrderState} {reason : HaltReason} {r : JournalRecord}
      (h : Strands o.state e s reason r) :
      Stepped P o e (.halt s reason [.appendFsync r, .haltNewExposure]) o.ctx
  | closed (reason : SubmissionCloseReason) (hs : closesFrom o.state = true)
      (h : submissionCloseBlocked o.ctx = false) :
      Stepped P o e (.accept (.submissionClosed reason) []) o.ctx
  | frozen {fx : List Effect} {d : OrderCtx} (ho : isRestartFrozen o.state = true)
      (he : (∃ f, e = .fill f) ∨ (fx = [] ∧ d = o.ctx)) (ht : Trail Completion o.ctx fx d) :
      Stepped P o e (.accept o.state fx) d
  | thawed {f : FillRecord} {reason : HaltReason} {fx : List Effect} {d : OrderCtx}
      (ho : isRestartFrozen o.state = true) (he : e = .fill f)
      (ht : Trail (Move P) o.ctx fx d) :
      Stepped P o e (haltWithReason reason (reserveIfReleased o.state fx)) d

/-- An order whose open state agrees with its context, and whose books are right in any state. -/
structure OrderCoherent (o : Order) : Prop where
  accounted : Accounted o.ctx
  coherent : isRestartFrozen o.state = false → Coherent o.state o.ctx

theorem tryCloseSubmission_stepped {o : Order} {e : OrderEvent} (hs : closesFrom o.state = true)
    (reason : SubmissionCloseReason) :
    Stepped P o e (tryCloseSubmission o.ctx reason) o.ctx := by
  unfold tryCloseSubmission
  split
  · exact .rejected _
  · rename_i h
    exact .closed reason hs (by simpa using h)

theorem restartSafeHandle_stepped {o : Order} {e : OrderEvent} (hf : ∀ f ∈ e.fills, P.offers f)
    (ho : isRestartFrozen o.state = true) :
    Stepped P o e (restartSafeHandle o.state o.ctx e).1 (restartSafeHandle o.state o.ctx e).2 := by
  cases e with
  | fill f =>
      have hoffer : P.offers f := hf f (by simp [OrderEvent.fills])
      have ha := tryAccountFill_accounting o.ctx f
      unfold restartSafeHandle
      dsimp only
      rcases hres : tryAccountFill o.ctx f with ⟨a, d⟩
      simp only [hres] at ha
      have ht := ha.trail hoffer
      cases ha with
      | ignored => exact .frozen ho (.inl ⟨f, rfl⟩) (.nil _)
      | refused reason => exact .thawed ho rfl ht
      | completed prev h => exact .frozen ho (.inl ⟨f, rfl⟩) (.single ⟨f, prev, h, rfl, rfl⟩)
      | booked _ _ => exact .thawed ho rfl ht
      | overfilled _ _ => exact .thawed ho rfl ht
  | decreaseObserved _ _ => exact .frozen ho (.inr ⟨rfl, rfl⟩) (.nil _)
  | amendObserved => exact .frozen ho (.inr ⟨rfl, rfl⟩) (.nil _)
  | _ => exact .rejected _

theorem applyFrozen_stepped {o : Order} {e : OrderEvent} (hf : ∀ f ∈ e.fills, P.offers f)
    (ho : isRestartFrozen o.state = true) :
    Stepped P o e (applyFrozen o.state o.ctx e).1 (applyFrozen o.state o.ctx e).2 := by
  unfold applyFrozen
  split
  · rename_i committed _ hs
    rw [← hs]
    exact .frozen ho (.inr ⟨rfl, rfl⟩) (.nil _)
  · rename_i hs
    exact tryCloseSubmission_stepped (by simp [hs, closesFrom]) _
  · exact restartSafeHandle_stepped hf ho

/-- A rejection or a landing, as the handlers of claims answer. -/
theorem Stepped.claim {o : Order} {e : OrderEvent} {r : TransitionOutcome × OrderCtx}
    (ho : isRestartFrozen o.state = false)
    (h : (∃ reason, r = (.reject reason, o.ctx)) ∨ Lands P (e.isCancel = false) o.ctx r.1 r.2) :
    Stepped P o e r.1 r.2 := by
  rcases h with ⟨reason, rfl⟩ | h
  · exact .rejected reason
  · exact .landed ho h

theorem applySubmitStarted_stepped {o : Order} {a : AttemptId} (hs : o.state = .submitStarted a)
    (hc : Coherent (.submitStarted a) o.ctx) (e : OrderEvent) (hf : ∀ f ∈ e.fills, P.offers f) :
    Stepped P o e (applySubmitStarted a o.ctx e).1 (applySubmitStarted a o.ctx e).2 := by
  have ho : isRestartFrozen o.state = false := by rw [hs]; rfl
  have hclose : closesFrom o.state = true := by rw [hs]; rfl
  cases e with
  | submitResponse v count remaining avg fee b =>
      unfold applySubmitStarted
      dsimp only
      rcases applySubmitResponse_lands (P := P) hc.sound rfl v count remaining avg fee b with
        h | ⟨reason, fx, h, he⟩
      · exact .landed ho h
      · rw [he]
        exact .refused ho h ⟨a, hs⟩
  | submitTimeout =>
      exact .landed ho (.accepted rfl (Deeds.idles (g := [_, _]) (.nil _) (by simp [Effect.isIdle]))
        ⟨hc.sound, hc.agrees⟩)
  | fill f => exact .landed ho (applyFillWhileOpen_lands rfl hc rfl f (hf f (by simp [OrderEvent.fills])))
  | closeSubmission reason =>
      cases reason with
      | localNotSent => exact tryCloseSubmission_stepped hclose _
      | definiteFailure => exact tryCloseSubmission_stepped hclose _
      | exhaustiveAbsent => exact .rejected _
  | _ => exact .rejected _

theorem applySubmitUnknown_stepped {o : Order} (hs : o.state = .submitUnknown)
    (hc : Coherent .submitUnknown o.ctx) (e : OrderEvent) (hP : P.carried → replayable o e = true)
    (hf : ∀ f ∈ e.fills, P.offers f) :
    Stepped P o e (applySubmitUnknown o.ctx e).1 (applySubmitUnknown o.ctx e).2 := by
  have ho : isRestartFrozen o.state = false := by rw [hs]; rfl
  cases e with
  | unknownBackfillResult exhaustive rows =>
      by_cases hempty : exhaustive = true ∧ rows = []
      · obtain ⟨rfl, rfl⟩ := hempty
        exact .stranded (hs ▸ .unmatched o.ctx.clientOrderId)
      · exact .landed ho (applyUnknownBackfill_lands hc rfl exhaustive rows
          (fun hex hrows => hempty ⟨hex, hrows⟩)
          fun row hrow f hmem => hf f (List.mem_flatMap.mpr ⟨row, hrow, hmem⟩))
  | userOrderRestingClaim v remaining =>
      refine .claim ho (applyUserOrderRestingClaim_lands hc v remaining ?_)
      intro hp hzero hrem hb
      have := hP hp
      simpa [replayable, hs, hzero, hrem, hb] using this
  | requestResubmit proven =>
      unfold applySubmitUnknown
      dsimp only
      split
      · exact .rejected _
      · exact .landed ho (.halted (.nil _) _)
  | fill f => exact .landed ho (applyFillDedupOnly_lands hc f (hf f (by simp [OrderEvent.fills])))
  | closeSubmission reason =>
      cases reason with
      | exhaustiveAbsent => exact tryCloseSubmission_stepped (by rw [hs]; rfl) _
      | localNotSent => exact .rejected _
      | definiteFailure => exact .rejected _
  | _ => exact .rejected _

theorem terminalClaim_remaining {o : Order} (hs : takesTerminalClaim o.state = true)
    {filled : Nat} {executed : Bool}
    (h : replayable o (.userOrderTerminalClaim v filled executed) = true)
    (hrej : terminalClaimRejected o.ctx v filled executed = false) :
    o.ctx.lastVenueRemainingQty = some 0 := by
  simpa [replayable, hs, hrej] using h

theorem reconcileResult_settles {o : Order} (hs : awaitsReconcile o.state = true)
    {status : BackfillOrderStatus} {vid : Option VenueOrderId} {filled r : Nat}
    {fills : List FillRecord} {complete : Bool}
    (h : replayable o (.reconcileResult status vid filled r fills complete) = true)
    (hv : vid = none ∨ vid = o.ctx.venueOrderId) (hle : filled ≤ o.ctx.fillObligation) :
    ¬ LatchedBehind o.ctx ∨ settlesLatch complete (o.ctx.noteVenueRemaining r) fills = true := by
  by_cases hb : LatchedBehind o.ctx
  · right
    rcases hv with rfl | rfl <;> simpa [replayable, hs, hb.1, hb.2, hle] using h
  · exact .inl hb

theorem applyLive_stepped {o : Order} (hs : o.state = .accepted v ∨ ∃ q r, o.state = .partialFill v q r)
    (hc : Coherent o.state o.ctx) (e : OrderEvent) (hP : P.carried → replayable o e = true)
    (hf : ∀ f ∈ e.fills, P.offers f) :
    Stepped P o e (applyLive o.state v o.ctx e).1 (applyLive o.state v o.ctx e).2 := by
  have ho : isRestartFrozen o.state = false := by rcases hs with hs | ⟨q, r, hs⟩ <;> (rw [hs]; rfl)
  have hv : o.ctx.venueOrderId = some v := by
    have := hc.agrees
    rcases hs with hs | ⟨q, r, hs⟩ <;> rw [hs] at this
    · exact this
    · exact this.1
  have htakes : takesFills o.state = true ∧ takesTerminalClaim o.state = true := by
    rcases hs with hs | ⟨q, r, hs⟩ <;> (rw [hs]; exact ⟨rfl, rfl⟩)
  cases e with
  | userOrderTerminalClaim w filled executed =>
      exact .claim ho (applyUserOrderTerminalClaim_lands hc.sound rfl w filled executed
        fun hp => terminalClaim_remaining htakes.2 (hP hp))
  | fill f => exact .landed ho (applyFillWhileOpen_lands htakes.1 hc rfl f
      (hf f (by simp [OrderEvent.fills])))
  | cancelRequested => exact .landed ho (requestCancel_lands hc.sound hv rfl rfl rfl)
  | decreaseObserved r t => exact .landed ho (ownActionAccept_lands hc ho (.inl ⟨r, t, rfl⟩))
  | amendObserved => exact .landed ho (ownActionAccept_lands hc ho (.inr rfl))
  | _ => exact .rejected _

theorem applyCancelPending_stepped {o : Order} {filled remaining : Nat} {rc avg fee : Option Nat}
    {target : Option ReconcileTarget}
    (hs : o.state = .cancelPending v filled remaining rc avg fee target)
    (hc : Coherent o.state o.ctx) (e : OrderEvent) (hP : P.carried → replayable o e = true)
    (hf : ∀ f ∈ e.fills, P.offers f) :
    Stepped P o e (applyCancelPending o.state v filled remaining rc avg fee target o.ctx e).1
      (applyCancelPending o.state v filled remaining rc avg fee target o.ctx e).2 := by
  have ho : isRestartFrozen o.state = false := by rw [hs]; rfl
  have hag : Agrees (.cancelPending v filled remaining rc avg fee target) o.ctx := hs ▸ hc.agrees
  cases e with
  | userOrderTerminalClaim w filled executed =>
      exact .claim ho (applyUserOrderTerminalClaim_lands hc.sound rfl w filled executed
        fun hp => terminalClaim_remaining (by rw [hs]; rfl) (hP hp))
  | cancelOutcome outcome => exact .landed ho (applyCancelOutcome_lands hc.sound hag outcome)
  | fill f => exact .landed ho (applyFillWhileOpen_lands (by rw [hs]; rfl) hc rfl f
      (hf f (by simp [OrderEvent.fills])))
  | reconcileResult status vid filled remaining fills complete =>
      exact .landed ho (applyReconcileResult_lands hc.sound hag.1 rfl status vid filled remaining
        fills hf complete fun hp => reconcileResult_settles (by rw [hs]; rfl) (hP hp))
  | cancelRequested => exact .landed ho (.accepted ho (.nil _) hc)
  | decreaseObserved r t => exact .landed ho (ownActionAccept_lands hc ho (.inl ⟨r, t, rfl⟩))
  | amendObserved => exact .landed ho (ownActionAccept_lands hc ho (.inr rfl))
  | _ => exact .rejected _

theorem applyReconcilePending_stepped {o : Order} {filled remaining : Nat} {rc avg fee : Option Nat}
    {target : ReconcileTarget}
    (hs : o.state = .reconcilePending v filled remaining target rc avg fee)
    (hc : Coherent o.state o.ctx) (e : OrderEvent) (hP : P.carried → replayable o e = true)
    (hf : ∀ f ∈ e.fills, P.offers f) :
    Stepped P o e (applyReconcilePending o.state v o.ctx e).1
      (applyReconcilePending o.state v o.ctx e).2 := by
  have ho : isRestartFrozen o.state = false := by rw [hs]; rfl
  have hv : o.ctx.venueOrderId = some v := by
    have := hc.agrees
    rw [hs] at this
    exact this.1
  cases e with
  | userOrderTerminalClaim w filled executed =>
      exact .claim ho (applyUserOrderTerminalClaim_lands hc.sound rfl w filled executed
        fun hp => terminalClaim_remaining (by rw [hs]; rfl) (hP hp))
  | fill f => exact .landed ho (applyFillWhileOpen_lands (by rw [hs]; rfl) hc rfl f
      (hf f (by simp [OrderEvent.fills])))
  | reconcileResult status vid filled remaining fills complete =>
      exact .landed ho (applyReconcileResult_lands hc.sound hv rfl status vid filled remaining
        fills hf complete fun hp => reconcileResult_settles (by rw [hs]; rfl) (hP hp))
  | cancelRequested => exact .landed ho (.accepted ho (.nil _) hc)
  | cancelOutcome _ => exact .landed ho (.accepted ho (.nil _) hc)
  | decreaseObserved r t => exact .landed ho (ownActionAccept_lands hc ho (.inl ⟨r, t, rfl⟩))
  | amendObserved => exact .landed ho (ownActionAccept_lands hc ho (.inr rfl))
  | _ => exact .rejected _

theorem applyImmediateFillUnattributed_stepped {o : Order} {count remaining : Nat}
    {avg fee : Option Nat} (hs : o.state = .immediateFillUnattributed v count remaining avg fee)
    (hc : Coherent o.state o.ctx) (e : OrderEvent) (hf : ∀ f ∈ e.fills, P.offers f) :
    Stepped P o e (applyImmediateFillUnattributed o.state v count remaining avg fee o.ctx e).1
      (applyImmediateFillUnattributed o.state v count remaining avg fee o.ctx e).2 := by
  have ho : isRestartFrozen o.state = false := by rw [hs]; rfl
  obtain ⟨hv, hrc, havg, hfee⟩ :
      Agrees (.immediateFillUnattributed v count remaining avg fee) o.ctx := hs ▸ hc.agrees
  cases e with
  | immediateFillBackfillResult fills =>
      exact .landed ho (applyImmediateFillBackfill_lands hc.sound hv rfl remaining
        ⟨hrc, havg, hfee⟩ fills hf)
  | fill f =>
      exact .landed ho (applyImmediateFillBackfill_lands hc.sound hv rfl remaining
        ⟨hrc, havg, hfee⟩ [f] hf)
  | cancelRequested => exact .landed ho (requestCancel_lands hc.sound hv hrc.symm havg hfee)
  | backfillDeadlineElapsed =>
      exact .stranded (hs ▸ .unresolved o.ctx.clientOrderId)
  | decreaseObserved r t => exact .landed ho (ownActionAccept_lands hc ho (.inl ⟨r, t, rfl⟩))
  | amendObserved => exact .landed ho (ownActionAccept_lands hc ho (.inr rfl))
  | _ => exact .rejected _

theorem applyEvent_frozen {s : OrderState} (h : isRestartFrozen s = true) (c : OrderCtx)
    (e : OrderEvent) : applyEvent s c e = applyFrozen s c e := by
  cases s <;> first | rfl | cases h

/-- The inversion of one step. `P` implies the step's own condition for a complete journal. -/
theorem applyEvent_stepped {o : Order} (h : OrderCoherent o) (e : OrderEvent)
    (hP : P.carried → replayable o e = true) (hf : ∀ f ∈ e.fills, P.offers f) :
    Stepped P o e (applyEvent o.state o.ctx e).1 (applyEvent o.state o.ctx e).2 := by
  by_cases hfrozen : isRestartFrozen o.state = true
  · rw [applyEvent_frozen hfrozen]
    exact applyFrozen_stepped hf hfrozen
  have ho : isRestartFrozen o.state = false := by simpa using hfrozen
  have hc : Coherent o.state o.ctx := h.coherent ho
  cases hs : o.state with
  | new =>
      have ha : Agrees .new o.ctx := hs ▸ hc.agrees
      cases e with
      | prepareSubmit =>
          exact .landed ho (.accepted rfl (.single (.inl (.echo rfl rfl fun _ => rfl))) ⟨hc.sound, ha⟩)
      | _ => exact .rejected _
  | submitPrepared =>
      have ha : Agrees .submitPrepared o.ctx := hs ▸ hc.agrees
      cases e with
      | startSubmit a => exact .landed ho (.accepted rfl (.single (.inl (.idle rfl))) ⟨hc.sound, ha⟩)
      | _ => exact .rejected _
  | submitStarted a => exact applySubmitStarted_stepped hs (hs ▸ hc) e hf
  | submitUnknown => exact applySubmitUnknown_stepped hs (hs ▸ hc) e hP hf
  | accepted v =>
      have := applyLive_stepped (.inl hs) hc e hP hf
      rwa [hs] at this
  | partialFill v q r =>
      have := applyLive_stepped (.inr ⟨q, r, hs⟩) hc e hP hf
      rwa [hs] at this
  | cancelPending v q r rc avg fee target =>
      have := applyCancelPending_stepped hs hc e hP hf
      rwa [hs] at this
  | reconcilePending v q r target rc avg fee =>
      have := applyReconcilePending_stepped hs hc e hP hf
      rwa [hs] at this
  | immediateFillUnattributed v rc r avg fee =>
      have := applyImmediateFillUnattributed_stepped (P := P) hs hc e hf
      rwa [hs] at this
  | _ => simp [hs, isRestartFrozen] at hfrozen

/-! ## A step as one trail -/

/-- The moves of any step: those of an open order, a refused response, and the reservation. -/
inductive Act (P : Scope) : OrderCtx → List Effect → OrderCtx → Prop
  | deed {c d : OrderCtx} {fx : List Effect} (h : Deed P c fx d) : Act P c fx d
  | refused {c d : OrderCtx} {e : OrderEvent} {reason : HaltReason} {fx : List Effect}
      (h : Refused c e reason fx d) : Act P c fx d
  | release (c : OrderCtx) (kind : TerminalKind) : Act P c (terminalEffects c kind) c
  | reserve (c : OrderCtx) : Act P c [.reserveFull] c
  | halt (c : OrderCtx) (reason : HaltReason) :
      Act P c [.appendFsync (.halted reason), .haltNewExposure] c

theorem Deeds.acts (h : Trail (Deed P) c fx d) : Trail (Act P) c fx d := h.mono fun h => .deed h

theorem Acts.halted (h : Trail (Act P) c fx d) (reason : HaltReason) :
    Trail (Act P) c (haltWithReason reason fx).effects d :=
  h.snoc (.halt d reason)

theorem Stepped.acts {o : Order} {e : OrderEvent} {out : TransitionOutcome}
    (h : Stepped P o e out d) : Trail (Act P) o.ctx out.effects d := by
  cases h with
  | rejected _ => exact .nil _
  | landed _ h =>
      cases h with
      | accepted _ ht _ => exact Deeds.acts ht
      | halted ht _ => exact Acts.halted (Deeds.acts ht) _
      | released _ ht _ => exact (Deeds.acts ht).snoc (.release _ _)
  | refused _ h => exact Acts.halted (.single (.refused h)) _
  | stranded h =>
      refine Deeds.acts (Deeds.idles (g := [_, _]) (.nil _) fun g hg => ?_)
      rcases List.mem_pair.mp hg with rfl | rfl
      · exact h.halts.2.1
      · rfl
  | closed _ _ _ => exact .nil _
  | frozen _ _ ht => exact Deeds.acts (Moves.deeds (Completions.moves ht))
  | thawed _ _ ht =>
      refine Acts.halted ?_ _
      unfold reserveIfReleased
      split
      · exact (Deeds.acts (Moves.deeds ht)).snoc (.reserve _)
      · exact Deeds.acts (Moves.deeds ht)

/-! ## Books and coherence along a run -/

theorem Answer.accounted (h : Answer c fx d) (hc : Accounted c) : Accounted d := by
  cases h with
  | empty hb => exact (Moves.accounted (P := .any) (bindVenueId_trail hb) hc).note _
  | counted hb _ hraise =>
      have hd := Moves.accounted (P := .any) (bindVenueId_trail hb) hc
      exact (setResponse_raised (hd.note _) hraise).1.recompute

theorem Refused.accounted {e : OrderEvent} {reason : HaltReason} (h : Refused c e reason fx d) (hc : Accounted c) :
    Accounted d := by
  cases h with
  | conflict _ => exact hc
  | excess hb _ _ =>
      have hd := Moves.accounted (P := .any) (bindVenueId_trail hb) hc
      exact hd.congr rfl rfl rfl rfl le_rfl hd.bounded

theorem Act.accounted (h : Act P c fx d) (hc : Accounted c) : Accounted d := by
  cases h with
  | deed h => exact h.elim (fun h => Move.accounted h hc) fun h => Answer.accounted h hc
  | refused h => exact h.accounted hc
  | release _ => exact hc
  | reserve => exact hc
  | halt => exact hc

theorem Deeds.accounted (h : Trail (Deed P) c fx d) (hc : Accounted c) : Accounted d :=
  h.preserves (I := fun _ c => Accounted c) (l := [])
    (fun hc h => h.elim (fun h => Move.accounted h hc) fun h => Answer.accounted h hc) hc

/-- Where a transition lands, state, context and books agree. -/
theorem Lands.coherent {out : TransitionOutcome} (h : Lands P R c out d) (hc : Accounted c)
    (s : OrderState) : OrderCoherent ⟨out.newState.getD s, d⟩ := by
  cases h with
  | accepted _ ht hd => exact ⟨Deeds.accounted ht hc, fun _ => hd⟩
  | halted ht _ => exact ⟨Deeds.accounted ht hc, fun hopen => by cases hopen⟩
  | @released kind _ _ _ ht _ =>
      refine ⟨Deeds.accounted ht hc, fun hopen => ?_⟩
      cases kind <;> cases hopen

/-- One step keeps the agreement of state, context and books. -/
theorem Stepped.coherent {o : Order} {e : OrderEvent} {out : TransitionOutcome} {d : OrderCtx}
    (h : Stepped P o e out d) (ho : OrderCoherent o) :
    OrderCoherent ⟨out.newState.getD o.state, d⟩ := by
  cases h with
  | rejected reason => exact ho
  | landed _ h => exact h.coherent ho.accounted _
  | refused _ h => exact ⟨h.accounted ho.accounted, fun hopen => by cases hopen⟩
  | @stranded s reason r h =>
      refine ⟨ho.accounted, fun hopen => ?_⟩
      have hs : isRestartFrozen s = false := hopen
      cases s <;> first | (cases hs; done) | cases h.halts.2.2
  | closed _ _ _ => exact ⟨ho.accounted, fun hopen => by cases hopen⟩
  | frozen hf _ ht =>
      refine ⟨Moves.accounted (P := P) (Completions.moves ht) ho.accounted, fun hopen => ?_⟩
      rw [show isRestartFrozen o.state = false from hopen] at hf
      cases hf
  | thawed _ _ ht => exact ⟨Moves.accounted ht ho.accounted, fun hopen => by cases hopen⟩

/-- A new order. -/
def Order.new (clientOrderId : ClientOrderId) (market strategy : String) (side : Side)
    (priceCents qty : Nat) : Order :=
  ⟨.new, .new clientOrderId market strategy side priceCents qty⟩

/-- Everything a run asked of the shell, oldest first. -/
def runEffects (o : Order) (es : List OrderEvent) : List Effect :=
  (lifecycle.outputs o es).flatMap (·.effects)

/-- An order that was answered without fills. -/
def restingRun (qty : Nat) : List OrderEvent :=
  [.prepareSubmit, .startSubmit ⟨"a"⟩, .submitResponse ⟨"V"⟩ 0 qty none none none]

theorem orderCoherent_new (cid : ClientOrderId) (market strategy : String) (side : Side)
    (price qty : Nat) : OrderCoherent (.new cid market strategy side price qty) := by
  refine ⟨accounted_new .., fun _ => ⟨⟨accounted_new .., ⟨rfl, rfl, rfl⟩, ?_⟩, ⟨rfl, rfl, rfl⟩⟩⟩
  intro rc hrc
  cases hrc

/-- The scope of one event: its own condition for a complete journal, and the fills it carries. -/
def eventScope (o : Order) (e : OrderEvent) : Scope := ⟨replayable o e = true, (· ∈ e.fills)⟩

theorem stepOrder_stepped {o : Order} (h : OrderCoherent o) (e : OrderEvent) :
    Stepped (eventScope o e) o e (lifecycle.step o e).1 (lifecycle.step o e).2.ctx :=
  applyEvent_stepped h e id fun _ hf => hf

theorem stepOrder_coherent {o : Order} (h : OrderCoherent o) (e : OrderEvent) :
    OrderCoherent (lifecycle.step o e).2 :=
  (stepOrder_stepped h e).coherent h

theorem run_coherent {o : Order} (h : OrderCoherent o) (es : List OrderEvent) :
    OrderCoherent (lifecycle.final o es) :=
  lifecycle.invariant (I := OrderCoherent) (fun _ e h => stepOrder_coherent h e) h es

/-- What every act keeps, over the effects so far and the context, holds along a run. `C` is what is
asked of the events. -/
theorem run_preserves {I : List Effect → OrderCtx → Prop} {C : OrderEvent → Prop}
    (hI : ∀ {o e log c fx d}, C e → I log c → Accounted c → Act (eventScope o e) c fx d →
      I (log ++ fx) d) {o : Order} (ho : OrderCoherent o) (h : I [] o.ctx) {es : List OrderEvent}
    (hes : ∀ e ∈ es, C e) : I (runEffects o es) (lifecycle.final o es).ctx := by
  have hrun := lifecycle.history_induction
    (P := fun ws o => OrderCoherent o ∧ I (ws.flatMap (·.effects)) o.ctx) (C := fun _ e => C e)
    (fun ws o e hP hC => ?_) (w := []) ⟨ho, h⟩ (lifecycle.always_of_forall hes o)
  · exact hrun.2
  · obtain ⟨ho, hlog⟩ := hP
    refine ⟨stepOrder_coherent ho e, ?_⟩
    have hacts := (stepOrder_stepped ho e).acts
    have := hacts.preserves (I := fun log c => I log c ∧ Accounted c)
      (fun h hm => ⟨hI hC h.1 h.2 hm, Act.accounted hm h.2⟩) ⟨hlog, ho.accounted⟩
    simpa using this.1

end Omsrs.Lifecycle
