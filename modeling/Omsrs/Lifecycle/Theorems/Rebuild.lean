import Omsrs.Lifecycle.Lemmas.Replay
import Omsrs.Lifecycle.Theorems.Redelivery

/-!
# Crash rebuild

A fold of everything a run wrote gives back the context the run ended with, as long as every step
writes all that it changes.
-/

namespace Omsrs.Lifecycle
open Omsrs.Lib

/-- The reasons the steps of a run halted with. -/
def haltReasons (o : Order) (es : List OrderEvent) : List HaltReason :=
  (lifecycle.outputs o es).filterMap TransitionOutcome.haltReason?

/-- The fold of a run's journal from its first context. -/
def rebuiltCtx (o : Order) (es : List OrderEvent) : Except HaltReason OrderCtx :=
  rebuildCtxFromJournal o.ctx (journalOf (runEffects o es))

/-- The rebuild is the live context, or fails with a reason the run itself halted with. -/
def RebuildsLive (o : Order) (es : List OrderEvent) : Prop :=
  rebuiltCtx o es = .ok (lifecycle.final o es).ctx ∨
    ∃ reason ∈ haltReasons o es, rebuiltCtx o es = .error reason

/-! ## The condition on a batch -/

/-- A batch that leaves the latch written, told from the books it meets: a new fill of it is booked, or the
books have all its fills or are completed by them, and the batch is `complete`. -/
inductive Settling (complete : Bool) : OrderCtx → List FillRecord → Prop
  | told {c : OrderCtx} (h : complete = true) : Settling complete c []
  | booked {c : OrderCtx} {f : FillRecord} {fills : List FillRecord} (h : Bookable c f) :
      Settling complete c (f :: fills)
  | held {c : OrderCtx} {f : FillRecord} {fills : List FillRecord} (h : InBooks c f)
      (hs : Settling complete c fills) : Settling complete c (f :: fills)
  | completed {c : OrderCtx} {f : FillRecord} {fills : List FillRecord} {prev : FillPayload}
      (h : Completes c f prev) (hs : Settling complete (completedCtx c f prev) fills) :
      Settling complete c (f :: fills)

theorem settlesLatch_iff {complete : Bool} {c : OrderCtx} {fills : List FillRecord} :
    settlesLatch complete c fills = true ↔ Settling complete c fills := by
  constructor
  · intro h
    induction fills generalizing c with
    | nil => exact .told h
    | cons f fills ih =>
        have hacc := tryAccountFill_accounting c f
        simp only [settlesLatch] at h
        rcases hres : tryAccountFill c f with ⟨a, d⟩
        simp only [hres] at h hacc
        cases hacc with
        | ignored => exact .held (tryAccountFill_inBooks hres (by simp)) (ih h)
        | refused reason => simp at h
        | completed prev hc => exact .completed hc (ih h)
        | booked hb _ => exact .booked hb
        | overfilled hb _ => exact .booked hb
  · intro h
    induction h with
    | told h => exact h
    | @booked c f fills hb =>
        rcases tryAccountFill_new (firstSightingMismatch_of_venue hb.venue) hb.fresh with
          ⟨hno, -⟩ | ⟨-, he⟩
        · exact absurd hb hno
        · simp only [settlesLatch, he]
          cases responseDomainOverfillDetail (bookedCtx c f) with
          | none => rfl
          | some detail => simp [bookEffects]
    | held hheld _ ih =>
        simp only [settlesLatch, tryAccountFill_held hheld]
        exact ih
    | @completed c f fills prev hc _ ih =>
        have he : tryAccountFill c f = (.enriched (completeEffects c f prev), completedCtx c f prev) := by
          simp only [tryAccountFill, accountFillCore, firstSightingMismatch_of_known hc.known, hc.known]
          exact redeliverFill_completes hc
        simp only [settlesLatch, he]
        exact ih

/-! ## Runs -/

/-- What stands at the end of a journal and the steps that wrote it, seen from the first context. -/
structure Rebuilt (base : OrderCtx) (outs : List TransitionOutcome) (o : Order) : Prop where
  coherent : OrderCoherent o
  word : o.ctx.authorityEpoch ≤ u64Max
  rebuilt : rebuildCtxFromJournal base (journalOf (outs.flatMap (·.effects))) = .ok o.ctx ∨
    ∃ reason ∈ outs.filterMap TransitionOutcome.haltReason?,
      rebuildCtxFromJournal base (journalOf (outs.flatMap (·.effects))) = .error reason

/-- One step that writes all it changes. -/
theorem Rebuilt.step {base : OrderCtx} {outs : List TransitionOutcome} {o : Order} {e : OrderEvent}
    (h : Rebuilt base outs o) (he : replayable o e = true) :
    Rebuilt base (outs ++ [(lifecycle.step o e).1]) (lifecycle.step o e).2 := by
  have hstep := stepOrder_stepped h.coherent e
  have hword : (lifecycle.step o e).2.ctx.authorityEpoch ≤ u64Max :=
    (hstep.acts.preserves (I := fun _ c => Restorable c) (l := [])
      (fun hc h => Act.restorable h hc) ⟨h.coherent.accounted, h.word⟩).word
  refine ⟨stepOrder_coherent h.coherent e, hword, ?_⟩
  simp only [List.flatMap_append, List.flatMap_singleton, journalOf_append, List.filterMap_append]
  rcases h.rebuilt with hok | ⟨reason, hmem, herr⟩
  · rw [rebuild_append, hok]
    rcases hstep.replays he ⟨h.coherent.accounted, h.word⟩ with hrep | ⟨reason, herr, hhalt⟩
    · exact .inl hrep
    · exact .inr ⟨reason, by simp [hhalt], herr⟩
  · exact .inr ⟨reason, by simp [hmem], rebuild_error herr⟩

/-- In a run of a new order whose steps all write what they change, the journal rebuilds the context
after every step. -/
theorem rebuild_equals_live (cid : ClientOrderId) (market strategy : String) (side : Side)
    (price qty : Nat) (es : List OrderEvent)
    (hes : lifecycle.Always (fun o e => replayable o e = true)
      (Order.new cid market strategy side price qty) es) :
    RebuildsLive (Order.new cid market strategy side price qty) es := by
  have h := lifecycle.history_induction
    (P := Rebuilt (Order.new cid market strategy side price qty).ctx)
    (C := fun o e => replayable o e = true) (fun _ _ _ h he => h.step he) (w := [])
    ⟨orderCoherent_new cid market strategy side price qty, Nat.zero_le _, .inl rfl⟩ hes
  exact h.rebuilt

/-! ## Two runs the journal does not carry -/

/-- The venue confirms a cancel with all fills booked; every record is there. -/
theorem rebuild_equals_live_canceled :
    RebuildsLive (Order.new ⟨"c"⟩ "m" "s" .buyYes 40 10)
      (restingRun 10 ++
        [.fill ⟨⟨"f"⟩, 3, 40, 7, some ⟨"V"⟩, none⟩, .cancelRequested,
          .reconcileResult .canceled (some ⟨"V"⟩) 3 0 [] true]) :=
  rebuild_equals_live ⟨"c"⟩ "m" "s" .buyYes 40 10 _ (by decide)

/-- A terminal claim notes that nothing remains without a record. A venue row with authority latches
an order whose fills are still missing; a second row without authority clears the latch in the fold,
the live order keeps it. -/
theorem rebuild_misses_live :
    ¬ RebuildsLive (Order.new ⟨"c"⟩ "m" "s" .buyYes 40 10)
        (restingRun 10 ++ [.userOrderTerminalClaim ⟨"V"⟩ 0 false]) ∧
      ¬ RebuildsLive (Order.new ⟨"c"⟩ "m" "s" .buyYes 40 10)
        (restingRun 10 ++
          [.cancelRequested, .reconcileResult .canceled (some ⟨"V"⟩) 3 0 [] true,
            .reconcileResult .canceled (some ⟨"V"⟩) 3 0 [] false]) := by
  unfold RebuildsLive
  decide

end Omsrs.Lifecycle
