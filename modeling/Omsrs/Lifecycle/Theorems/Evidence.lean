import Omsrs.Lifecycle.Lemmas.Progress

/-!
# Evidence only grows

Along every run the evidence of an order moves forward only, and its state repeats its context. The
accumulators of the response domain follow as well, until a create response that counts more than the
order is refused after it has replaced the snapshot.
-/

namespace Omsrs.Lifecycle
open Omsrs.Lib

variable {P : Scope} {c d : OrderCtx} {o : Order} {e : OrderEvent}

/-! ## What a state repeats -/

def OrderState.venueOrderId : OrderState → Option VenueOrderId
  | .accepted v | .partialFill v .. | .cancelPending v .. | .reconcilePending v ..
  | .immediateFillUnattributed v .. => some v
  | _ => none

def OrderState.filledQty : OrderState → Option Nat
  | .partialFill _ q _ | .cancelPending _ q .. | .reconcilePending _ q .. => some q
  | _ => none

/-- The evidence of an order is bounded by its quantity and its state repeats it. -/
structure Repeats (o : Order) : Prop where
  covered : o.ctx.attributedFillQty ≤ o.ctx.fillObligation
  bounded : o.ctx.fillObligation ≤ o.ctx.qty
  venue : ∀ v, o.state.venueOrderId = some v → o.ctx.venueOrderId = some v
  filled : ∀ q, o.state.filledQty = some q → q = o.ctx.attributedFillQty
  latched : LatchedNow o.ctx

theorem OrderCoherent.repeats (h : OrderCoherent o) (hl : LatchedNow o.ctx) : Repeats o := by
  have hag : isRestartFrozen o.state = false → Agrees o.state o.ctx := fun ho => (h.coherent ho).agrees
  obtain ⟨s, c⟩ := o
  refine ⟨h.accounted.covered, h.accounted.bounded, ?_, ?_, hl⟩
  · intro v hv
    cases s with
    | accepted w => cases hv; exact hag rfl
    | partialFill w _ _ => cases hv; exact (hag rfl).1
    | cancelPending w _ _ _ _ _ _ => cases hv; exact (hag rfl).1
    | reconcilePending w _ _ _ _ _ _ => cases hv; exact (hag rfl).1
    | immediateFillUnattributed w _ _ _ _ => cases hv; exact (hag rfl).1
    | _ => cases hv
  · intro q hq
    cases s with
    | partialFill _ _ _ => cases hq; exact (hag rfl).2
    | cancelPending _ _ _ _ _ _ _ => cases hq; exact (hag rfl).2.1
    | reconcilePending _ _ _ _ _ _ _ => cases hq; exact (hag rfl).2
    | _ => cases hq

/-! ## Along a run -/

/-- What every state of a run stands on. -/
structure Steady (o : Order) : Prop where
  coherent : OrderCoherent o
  word : o.ctx.authorityEpoch ≤ u64Max
  latched : LatchedNow o.ctx

theorem steady_new (cid : ClientOrderId) (market strategy : String) (side : Side) (price qty : Nat) :
    Steady (.new cid market strategy side price qty) :=
  ⟨orderCoherent_new .., Nat.zero_le _, latchedNow_of_unlatched rfl⟩

theorem Steady.step (h : Steady o) (e : OrderEvent) :
    Steady (lifecycle.step o e).2 ∧ Advanced o.ctx (lifecycle.step o e).2.ctx := by
  have hacts := (stepOrder_stepped h.coherent e).acts
  have hrun := hacts.preserves (l := [])
    (I := fun _ c => Advanced o.ctx c ∧ Restorable c ∧ LatchedNow c)
    (fun hc hm => ⟨hc.1.trans (Act.advanced hm hc.2.1.word), Act.restorable hm hc.2.1,
      Act.latchedNow hm hc.2.2⟩)
    ⟨.refl _, ⟨h.coherent.accounted, h.word⟩, h.latched⟩
  exact ⟨⟨stepOrder_coherent h.coherent e, hrun.2.1.word, hrun.2.2⟩, hrun.1⟩

theorem Steady.run (h : Steady o) (es : List OrderEvent) :
    Steady (lifecycle.final o es) ∧ Advanced o.ctx (lifecycle.final o es).ctx :=
  lifecycle.invariant (I := fun p => Steady p ∧ Advanced o.ctx p.ctx)
    (fun _ e hp => ⟨(hp.1.step e).1, hp.2.trans (hp.1.step e).2⟩) ⟨h, .refl _⟩ es

/-! ## The response domain -/

/-- The create response counts more than the order and is refused after its snapshot is in, and a
booked fill lies within that snapshot. -/
def strandsDomain (o : Order) (e : OrderEvent) : Bool :=
  match o.state, e with
  | .submitStarted _, .submitResponse v count _ _ _ (some (.tsNs boundary)) =>
      (bindVenueId o.ctx v).isOk && decide (o.ctx.qty < count) &&
        o.ctx.appliedFills.values.any fun p =>
          decide (p.tsNs ≤ boundary) && decide (0 < p.qty + p.fee.getD 0)
  | _, _ => false

theorem applySubmitResponse_excess {v : VenueOrderId} {jr : Option JournalRecord} {count : Nat}
    (remaining : Nat) (avg fee : Option Nat) (b : Option SnapshotBoundary)
    (hb : bindVenueId c v = .ok (jr, d)) (hq : c.qty < count) :
    (applySubmitResponse c v count remaining avg fee b).2 =
      setResponse (d.noteVenueRemaining remaining) count remaining avg fee b := by
  have hqty : (setResponse (d.noteVenueRemaining remaining) count remaining avg fee b).qty = c.qty :=
    (bindVenueId_kept hb).qty
  have hraise : (setResponse (d.noteVenueRemaining remaining) count remaining avg fee
      b).raiseFillObligation count = .error (.obligationExceedsOrderQty count c.qty) := by
    simp only [OrderCtx.raiseFillObligation, hqty, hq, if_true]
  have hpos : ¬ count = 0 := by omega
  unfold applySubmitResponse
  simp only [hb, hpos, if_false, hraise]

/-- Nothing was accumulated before the response. -/
theorem DomainCurrent.unreported (h : DomainCurrent c) (hn : c.responseFillCount = none) :
    c.responseDomainQty = 0 ∧ c.responseDomainNotionalCents = 0 ∧ c.responseDomainFeeCents = 0 := by
  have hz : ∀ g, domainSum c g = 0 := by intro g; simp [domainSum, OrdMap.sumBy, inDomain, hn]
  refine ⟨?_, ?_, ?_⟩
  · rw [h.qty, hz, Nat.zero_min]
  · rw [h.notional, hz, Nat.zero_min]
  · rw [h.fee, hz, Nat.zero_min]

/-- Empty accumulators are right as long as no fill of the domain brings a quantity or a fee. -/
theorem domainCurrent_empty (hq : c.responseDomainQty = 0) (hn : c.responseDomainNotionalCents = 0)
    (hf : c.responseDomainFeeCents = 0) :
    DomainCurrent c ↔
      ∀ p ∈ c.appliedFills.values, inDomain c p.tsNs = true → p.qty + p.fee.getD 0 = 0 := by
  have hzero : ∀ g, (domainSum c g = 0 ↔
      ∀ p ∈ c.appliedFills.values, inDomain c p.tsNs = true → g p = 0) := by
    intro g
    simp [domainSum, OrdMap.sumBy, List.sum_eq_zero_iff]
  constructor
  · intro h p hp hd
    have hsq : domainSum c (·.qty) = 0 := by
      have := h.qty
      simp only [hq, u64Max] at this
      omega
    have hsf : domainSum c (·.fee.getD 0) = 0 := by
      have := h.fee
      simp only [hf, u64Max] at this
      omega
    have h₁ := (hzero _).mp hsq p hp hd
    have h₂ := (hzero _).mp hsf p hp hd
    omega
  · intro h
    have hsq : domainSum c (·.qty) = 0 := (hzero _).mpr fun p hp hd => by
      have := h p hp hd
      omega
    have hsn : (domainSum c fun p => p.qty * p.priceCents) = 0 := (hzero _).mpr fun p hp hd => by
      have := h p hp hd
      rw [show p.qty = 0 by omega, Nat.zero_mul]
    have hsf : domainSum c (·.fee.getD 0) = 0 := (hzero _).mpr fun p hp hd => by
      have := h p hp hd
      omega
    exact ⟨by rw [hq, hsq, Nat.zero_min], by rw [hn, hsn, Nat.zero_min], by rw [hf, hsf, Nat.zero_min]⟩

/-- Every act but a refused response keeps the accumulators right. -/
theorem Deeds.current {fx : List Effect} (h : Trail (Deed P) c fx d) (hd : DomainCurrent c) :
    DomainCurrent d :=
  h.preserves (I := fun _ c => DomainCurrent c) (l := []) (fun hc hm => by
    rcases hm with hm | hm
    · exact Move.current hm hc
    · cases hm with
      | empty hb =>
          exact (Moves.current (P := .any) (bindVenueId_trail hb) hc).note _
      | counted _ _ _ => exact recompute_current _) hd

theorem bindVenueId_current {v : VenueOrderId} {jr : Option JournalRecord}
    (h : bindVenueId c v = .ok (jr, d)) (hd : DomainCurrent c) (hn : c.responseFillCount = none) :
    DomainCurrent d ∧ d.responseFillCount = none ∧ d.appliedFills = c.appliedFills :=
  ⟨Moves.current (P := .any) (bindVenueId_trail h) hd,
    (congrArg (·.1) (bindVenueId_kept h).response).trans hn, (bindVenueId_books h).1⟩

/-- What the refused response leaves behind. -/
theorem excess_current {a : AttemptId} {v : VenueOrderId} {jr : Option JournalRecord}
    {count remaining : Nat} {avg fee : Option Nat} {b : Option SnapshotBoundary}
    (hs : o.state = .submitStarted a) (hb : bindVenueId o.ctx v = .ok (jr, d))
    (hq : o.ctx.qty < count) (hd : DomainCurrent o.ctx) (hn : o.ctx.responseFillCount = none) :
    DomainCurrent (setResponse (d.noteVenueRemaining remaining) count remaining avg fee b) ↔
      strandsDomain o (.submitResponse v count remaining avg fee b) = false := by
  obtain ⟨hcur, hnone, hfills⟩ := bindVenueId_current hb hd hn
  obtain ⟨hz₁, hz₂, hz₃⟩ := hcur.unreported hnone
  have hempty := domainCurrent_empty
    (c := setResponse (d.noteVenueRemaining remaining) count remaining avg fee b) hz₁ hz₂ hz₃
  have hvals : (setResponse (d.noteVenueRemaining remaining) count remaining avg fee
      b).appliedFills.values = o.ctx.appliedFills.values := congrArg OrdMap.values hfills
  rw [hempty, hvals]
  have hok : (bindVenueId o.ctx v).isOk = true := by rw [hb]; rfl
  unfold strandsDomain
  rw [hs]
  cases b with
  | none => simp [inDomain, fillInResponseDomain, setResponse]
  | some b =>
      cases b with
      | seq n => simp [inDomain, fillInResponseDomain, setResponse]
      | tsNs t =>
          simp only [inDomain, fillInResponseDomain, setResponse, Option.isSome_some, Bool.true_and,
            decide_eq_true_eq, hok, hq, decide_true, Bool.and_self, List.any_eq_false,
            Bool.and_eq_true, not_and, Nat.pos_iff_ne_zero, not_not]

/-- One step keeps the accumulators right exactly when it does not strand them. -/
theorem stepOrder_current (h : OrderCoherent o) (hd : DomainCurrent o.ctx) (e : OrderEvent) :
    DomainCurrent (lifecycle.step o e).2.ctx ↔ strandsDomain o e = false := by
  have hstep := stepOrder_stepped h e
  by_cases hx : ∃ a v count remaining avg fee b jr d, o.state = .submitStarted a ∧
      e = .submitResponse v count remaining avg fee b ∧ bindVenueId o.ctx v = .ok (jr, d) ∧
      o.ctx.qty < count
  · obtain ⟨a, v, count, remaining, avg, fee, b, jr, d, hs, rfl, hb, hq⟩ := hx
    have hopen : Unanswered o.ctx := by
      have := (h.coherent (by rw [hs]; rfl)).agrees
      rwa [hs] at this
    have hctx : (lifecycle.step o (.submitResponse v count remaining avg fee b)).2.ctx =
        setResponse (d.noteVenueRemaining remaining) count remaining avg fee b := by
      rw [← applySubmitResponse_excess remaining avg fee b hb hq]
      simp only [lifecycle, stepOrder, hs]
      rfl
    rw [hctx]
    exact excess_current hs hb hq hd hopen.unreported
  · have hno : strandsDomain o e = false := by
      unfold strandsDomain
      split
      · rename_i a v count remaining avg fee t hs
        by_contra hne
        simp only [Bool.not_eq_false, Bool.and_eq_true, decide_eq_true_eq] at hne
        cases hb : bindVenueId o.ctx v with
        | error _ => simp [hb, Except.isOk, Except.toBool] at hne
        | ok r => exact hx ⟨a, v, count, remaining, avg, fee, _, r.1, r.2, hs, rfl, hb, hne.1.2⟩
      · rfl
    refine iff_of_true ?_ hno
    generalize (lifecycle.step o e).1 = out, (lifecycle.step o e).2.ctx = d at hstep ⊢
    cases hstep with
    | rejected _ => exact hd
    | landed _ hl =>
        cases hl with
        | accepted _ ht _ => exact Deeds.current ht hd
        | halted ht _ => exact Deeds.current ht hd
        | released _ ht _ => exact Deeds.current ht hd
    | refused _ hr hs =>
        obtain ⟨a, hs⟩ := hs
        cases hr with
        | conflict _ => exact hd
        | excess hb _ hq => exact absurd ⟨a, _, _, _, _, _, _, _, _, hs, rfl, hb, hq⟩ hx
    | stranded _ => exact hd
    | closed _ _ _ => exact hd
    | frozen _ _ ht => exact Moves.current (P := .any) (Completions.moves ht) hd
    | thawed _ _ ht => exact Moves.current ht hd

/-- Every state of a run of a new order has at least the evidence of the states before it and repeats
its context. Its accumulators are what a recomputation gives throughout the run exactly when no step
of the run strands them. -/
theorem evidence_monotone (cid : ClientOrderId) (market strategy : String) (side : Side)
    (price qty : Nat) (es : List OrderEvent) :
    (∀ pre mid, pre ++ mid <+: es →
      Advanced (lifecycle.final (.new cid market strategy side price qty) pre).ctx
        (lifecycle.final (.new cid market strategy side price qty) (pre ++ mid)).ctx) ∧
      (∀ pre, pre <+: es → Repeats (lifecycle.final (.new cid market strategy side price qty) pre)) ∧
      ((∀ pre, pre <+: es →
          recomputeResponseDomain
              (lifecycle.final (.new cid market strategy side price qty) pre).ctx =
            (lifecycle.final (.new cid market strategy side price qty) pre).ctx) ↔
        lifecycle.Always (fun o e => strandsDomain o e = false)
          (.new cid market strategy side price qty) es) := by
  have hnew : Steady (.new cid market strategy side price qty) := steady_new ..
  refine ⟨?_, ?_, ?_⟩
  · intro pre mid _
    rw [lifecycle.final_append]
    exact ((hnew.run pre).1.run mid).2
  · intro pre _
    have hrun := (hnew.run pre).1
    exact hrun.coherent.repeats hrun.latched
  · simp only [← domainCurrent_iff]
    exact lifecycle.kept_iff_always (I := fun o => DomainCurrent o.ctx)
      (fun _ e h => stepOrder_coherent h e) (fun _ e h hd => stepOrder_current h hd e)
      hnew.coherent ⟨rfl, rfl, rfl⟩ es

/-- A fill is booked before the response, which counts more than the order: the order halts with the
new snapshot and the accumulators of none. -/
theorem response_strands_domain :
    ¬ ∀ pre, pre <+: [OrderEvent.prepareSubmit, .startSubmit ⟨"a"⟩,
        .fill ⟨⟨"f"⟩, 1, 40, 0, some ⟨"V"⟩, none⟩,
        .submitResponse ⟨"V"⟩ 11 0 none none (some (.tsNs 5))] →
      recomputeResponseDomain
          (lifecycle.final (.new ⟨"c"⟩ "m" "s" .buyYes 40 10) pre).ctx =
        (lifecycle.final (.new ⟨"c"⟩ "m" "s" .buyYes 40 10) pre).ctx := by
  intro h
  exact absurd (h _ (List.prefix_rfl)) (by decide)

end Omsrs.Lifecycle
