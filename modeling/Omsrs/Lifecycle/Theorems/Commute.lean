import Omsrs.Lib.Machine
import Omsrs.Lifecycle.Lemmas.Snapshot

/-!
# The create response and the fills commute

Whether a submission, its response and its fills run without a halt depends on the fills and the
response alone, and so do the state and the context they end in.
-/

namespace Omsrs.Lifecycle
open Omsrs.Lib

variable {b c d : OrderCtx} {fs : List FillRecord} {f : FillRecord} {fx : List Effect}
  {r : CreateResponse}

/-! ## The state after the response -/

/-- Where live routing leads. -/
def liveState (v : VenueOrderId) (c : OrderCtx) : OrderState :=
  if c.attributedFillQty = c.qty then .filled
  else if c.attributedFillQty = 0 then .accepted v
  else .partialFill v c.attributedFillQty (c.qty - c.attributedFillQty)

/-- The state of an answered order, from its context. -/
def answeredState (r : CreateResponse) (c : OrderCtx) : OrderState :=
  if r.fillCount = 0 ∧ r.remainingCount ≠ c.qty then .canceled
  else if r.waits c then
    .immediateFillUnattributed r.venueOrderId r.fillCount r.remainingCount r.avgPriceCents r.feeCents
  else liveState r.venueOrderId c

/-- The answer of a handler that holds the response and the fills `fs`: it accepts where they agree
and halts where they do not. -/
inductive Answering (b : OrderCtx) (r : CreateResponse) (fs : List FillRecord) :
    TransitionOutcome × OrderCtx → Prop
  | accepted {fx : List Effect} {d : OrderCtx} (hc : r.Confirms b.qty fs)
      (h : Holds b (some r) fs d)
      (ha : d.authorityComplete = isRestartFrozen (answeredState r d)) :
      Answering b r fs (.accept (answeredState r d) fx, d)
  | halted {s : OrderState} {reason : HaltReason} {fx : List Effect} {d : OrderCtx}
      (hc : ¬ r.Confirms b.qty fs) : Answering b r fs (.halt s reason fx, d)

theorem Answering.of_state {s : OrderState} (hc : r.Confirms b.qty fs) (h : Holds b (some r) fs d)
    (hs : answeredState r d = s) (ha : d.authorityComplete = isRestartFrozen s) :
    Answering b r fs (.accept s fx, d) := by
  subst hs
  exact .accepted hc h ha

theorem Holds.latch {r? : Option CreateResponse} (h : Holds b r? fs c) :
    Holds b r? fs c.latchAuthorityComplete :=
  ⟨h.identity, h.fills, h.sums, h.accounted.congr rfl rfl rfl rfl le_rfl h.accounted.bounded,
    h.current.congr rfl rfl rfl rfl rfl, h.venue, h.remaining, h.response, h.obligation⟩

/-- With all fills of the bound order, full attribution and a closed domain, the latch opens the
gate. -/
theorem Holds.finalizeGate (h : Holds b (some r) fs c)
    (hfs : ∀ f ∈ fs, f.venueOrderId = some r.venueOrderId)
    (hob : c.attributedFillQty = c.fillObligation) (hdom : responseDomainGate c = none) :
    finalizeGate c.latchAuthorityComplete = none := by
  have hv : c.venueOrderId = some r.venueOrderId := h.venue
  have hown : ownershipBlock r.venueOrderId c.appliedFills.entries = none := by
    refine List.findSome?_eq_none_iff.mpr fun ⟨fid, p⟩ hmem => ?_
    obtain ⟨f, hf, _, rfl⟩ := (h.fills fid p).mp (OrdMap.mem_entries.mp hmem)
    simp [FillRecord.payload, hfs f hf]
  have hgate : ownershipGate c.latchAuthorityComplete = none := by
    simp only [ownershipGate, OrderCtx.latchAuthorityComplete, hv, hown]
  have hfresh : c.latchAuthorityComplete.authorityIsFresh = true := by
    simp [OrderCtx.authorityIsFresh, OrderCtx.latchAuthorityComplete]
  have hob' : ¬ c.latchAuthorityComplete.attributedFillQty ≠
      c.latchAuthorityComplete.fillObligation := not_not.mpr hob
  have hdom' : responseDomainGate c.latchAuthorityComplete = none := hdom
  simp only [Lifecycle.finalizeGate, hgate, hfresh, hob', hdom', Bool.not_true, Bool.false_eq_true,
    if_false]

theorem Holds.route (h : Holds b (some r) fs c)
    (hfs : ∀ f ∈ fs, f.venueOrderId = some r.venueOrderId) (hc : r.Confirms b.qty fs)
    (hw : r.waits c = false) (hm : ¬ (r.fillCount = 0 ∧ r.remainingCount ≠ c.qty))
    (ha : c.authorityComplete = false) :
    Answering b r fs (routeLiveOrFilled c r.venueOrderId fx) := by
  have hcov := h.accounted.covered
  have hbound := h.accounted.bounded
  have hstate : answeredState r c = liveState r.venueOrderId c := by
    simp only [answeredState, hm, hw, Bool.false_eq_true, if_false]
  have hrem : c.remainingQtyChecked = some (c.qty - c.attributedFillQty) := by
    simp [OrderCtx.remainingQtyChecked, checkedSub, hcov.trans hbound]
  simp only [routeLiveOrFilled, hrem]
  by_cases hfull : c.attributedFillQty = c.qty
  · have hgate := h.finalizeGate hfs (by omega) (h.gate hc hw)
    have hfilled : ∀ gx, tryFinalizeTerminal c.latchAuthorityComplete
        (.filled c.latchAuthorityComplete.attributedFillQty 0) r.venueOrderId gx .filled =
        releaseTerminal c.latchAuthorityComplete
          (.filled c.latchAuthorityComplete.attributedFillQty 0) gx := by
      intro gx
      have hrem' : c.latchAuthorityComplete.remainingQtyChecked = some 0 := by
        refine hrem.trans ?_
        rw [hfull, Nat.sub_self]
      simp only [tryFinalizeTerminal, hgate, finalizeFilled, hrem']
      simp [OrderCtx.latchAuthorityComplete, hfull]
    rw [if_pos (by omega)]
    simp only [noteAuthorityComplete, if_true]
    rw [hfilled]
    exact .of_state hc h.latch (hstate.trans (if_pos hfull)) rfl
  · rw [if_neg (by omega)]
    have hopen := hstate.trans (if_neg hfull)
    split
    · rename_i hz
      exact .of_state hc h (hopen.trans (if_pos hz)) ha
    · rename_i hz
      exact .of_state hc h (hopen.trans (if_neg hz)) ha

/-! ## Taking the response in -/

theorem Holds.resolve (h : Holds b (some r) fs c) (hr : 0 < r.fillCount)
    (hfs : ∀ f ∈ fs, f.venueOrderId = some r.venueOrderId) (ha : c.authorityComplete = false) :
    Answering b r fs (resolveUnattributed c r.venueOrderId r.fillCount r.remainingCount
      r.avgPriceCents r.feeCents fx) := by
  have hk := h.count hr
  have hm : ¬ (r.fillCount = 0 ∧ r.remainingCount ≠ c.qty) := fun hz => by omega
  rcases h.check hr with ⟨hw, he⟩ | ⟨hw, hc, he⟩ | ⟨hc, reason, he⟩
  · simp only [resolveUnattributed, he]
    exact .of_state (h.confirms_of_waits hw) h
      (by simp only [answeredState, hm, hw, if_false, if_true]) ha
  · simp only [resolveUnattributed, he]
    simp only [← hk.average, ← hk.fee, Option.or_self]
    exact h.route hfs hc hw hm ha
  · simp only [resolveUnattributed, he]
    exact .halted hc

/-- Fills of positive quantity add up to nothing only where there are none. -/
theorem eq_nil_of_sum_zero (hpos : ∀ f ∈ fs, 0 < f.qty) (h : (fs.map (·.qty)).sum = 0) :
    fs = [] := by
  cases fs with
  | nil => rfl
  | cons f fs =>
      have := hpos f (by simp)
      simp only [List.map_cons, List.sum_cons] at h
      omega

theorem Holds.resolveEmpty (h : Holds b (some r) fs c) (hr : r.fillCount = 0) (hq : 0 < b.qty)
    (hfs : ∀ f ∈ fs, 0 < f.qty ∧ f.venueOrderId = some r.venueOrderId)
    (ha : c.authorityComplete = false) :
    Answering b r fs (applyEmptyResponse c r.venueOrderId r.remainingCount fx) := by
  have hqty := h.qty
  have hattr := h.attributed
  have hconf : r.Confirms b.qty fs ↔
      r.remainingCount = c.qty ∨ (r.remainingCount = 0 ∧ c.attributedFillQty = 0) := by
    rw [hqty, hattr]
    constructor
    · rintro (⟨_, hm | ⟨hm, rfl⟩⟩ | ⟨hz, _⟩)
      · exact .inl hm
      · exact .inr ⟨hm, rfl⟩
      · omega
    · rintro (hm | ⟨hm, hz⟩)
      · exact .inl ⟨hr, .inl hm⟩
      · exact .inl ⟨hr, .inr ⟨hm, eq_nil_of_sum_zero (fun f hf => (hfs f hf).1) hz⟩⟩
  have hw : r.waits c = false := by simp [CreateResponse.waits, hr]
  have hven : ∀ f ∈ fs, f.venueOrderId = some r.venueOrderId := fun f hf => (hfs f hf).2
  unfold applyEmptyResponse
  split
  · rename_i hsome
    split
    · rename_i hm
      exact h.route hven (hconf.mpr (.inl hm)) hw (by omega) ha
    · rename_i hm
      exact .halted fun hc => by have := hconf.mp hc; omega
  · rename_i hnone
    split
    · rename_i hm
      split
      · rename_i hzero
        have hc := hconf.mpr (.inr ⟨hzero, not_not.mp hnone⟩)
        have hgate := h.finalizeGate hven (by have := h.obligation; simp [hr] at this; omega)
          (h.gate hc hw)
        simp only [noteAuthorityComplete, if_true, tryFinalizeTerminal, hgate]
        exact .of_state hc h.latch (if_pos ⟨hr, hm⟩) rfl
      · rename_i hzero
        exact .halted fun hc => by have := hconf.mp hc; omega
    · rename_i hm
      refine .of_state (hconf.mpr (.inl (not_not.mp hm))) h ?_ ha
      have hz := not_not.mp hnone
      simp only [answeredState, hw, liveState]
      simp [hm, hz]
      omega

/-- An overfilled response domain contradicts the response. -/
theorem Holds.overfilled {detail : String} (h : Holds b (some r) fs c)
    (hd : responseDomainOverfillDetail c = some detail) : ¬ r.Confirms b.qty fs := by
  intro hc
  rcases hc with ⟨hr, _⟩ | ⟨hr, _, hc⟩
  · simp only [responseDomainOverfillDetail, h.uncounted hr] at hd
    cases hd
  · have hk := h.count hr
    simp only [responseDomainOverfillDetail, hk.count, hk.bounded, (h.domain hr).1] at hd
    split at hd
    · rename_i hover
      obtain ⟨hb, hlt⟩ : r.bounded = true ∧ r.fillCount < r.covered (·.qty) fs := by simpa using hover
      exact absurd (hc hb).1 (Nat.not_le.mpr hlt)
    · cases hd

/-- The create response of a started submission. -/
theorem Holds.respond (h : Holds b none fs c) (hq : 0 < b.qty)
    (hfs : ∀ f ∈ fs, 0 < f.qty ∧ f.venueOrderId = some r.venueOrderId)
    (ha : c.authorityComplete = false) :
    Answering b r fs (applySubmitResponse c r.venueOrderId r.fillCount r.remainingCount
      r.avgPriceCents r.feeCents r.snapshotBoundary) := by
  have hven : ∀ f ∈ fs, f.venueOrderId = some r.venueOrderId := fun f hf => (hfs f hf).2
  simp only [applySubmitResponse, h.bind hven]
  split
  · rename_i hr
    rw [hr]
    exact (h.emptied hr).resolveEmpty hr hq hfs ha
  · rename_i hr
    have hpos : 0 < r.fillCount := Nat.pos_of_ne_zero hr
    split
    · rename_i hraise
      have hlt := (raiseFillObligation_error hraise).1
      refine .halted fun hc => ?_
      rcases hc with ⟨hz, _⟩ | ⟨_, hle, _⟩
      · exact hr hz
      · exact absurd (h.qty.symm ▸ hle) (Nat.not_le.mpr hlt)
    · rename_i raised hraise
      have hh : Holds b (some r) fs (recomputeResponseDomain raised) := h.counted hpos hraise
      have hlatch : (recomputeResponseDomain raised).authorityComplete = false := by
        obtain ⟨e, a, rfl, hkeep⟩ := raiseFillObligation_fields hraise
        rw [recomputeResponseDomain_eq]
        exact hkeep ha
      split
      · rename_i hdetail
        exact .halted (hh.overfilled hdetail)
      · split
        · exact hh.resolve hpos hven hlatch
        · rename_i hzero
          have hle : (recomputeResponseDomain raised).responseDomainQty ≤ 0 := by
            rw [(hh.domain hpos).1]
            exact (covered_le r _ fs).trans (hh.attributed ▸ Nat.not_lt.mp hzero)
          have hw : r.waits (recomputeResponseDomain raised) = true := by
            refine decide_eq_true ?_
            split <;> omega
          exact .of_state (hh.confirms_of_waits hw) hh
            (by simp only [answeredState, hr, hw, false_and, if_false, if_true]) hlatch

/-! ## Fills -/

/-- A fill of a new id on an answered order: it halts where it does not fit, else the answer is again
that of the response and all fills. -/
inductive Taking (b : OrderCtx) (r : CreateResponse) (fs : List FillRecord) :
    TransitionOutcome × OrderCtx → Prop
  | refused {s : OrderState} {reason : HaltReason} {fx : List Effect} {d : OrderCtx}
      (hf : ¬ Fits b.qty fs) : Taking b r fs (.halt s reason fx, d)
  | booked {out : TransitionOutcome × OrderCtx} (hf : Fits b.qty fs)
      (h : Answering b r fs out) : Taking b r fs out

/-- An answered order before one more fill. -/
structure Awaiting (b : OrderCtx) (r : CreateResponse) (fs : List FillRecord) (f : FillRecord)
    (c : OrderCtx) : Prop where
  holds : Holds b (some r) fs c
  confirms : r.Confirms b.qty fs
  positive : 0 < f.qty
  venues : ∀ g ∈ fs ++ [f], g.venueOrderId = some r.venueOrderId
  fresh : c.appliedFills.get? f.fillId = none

theorem Awaiting.venue (h : Awaiting b r fs f c) :
    ∀ v, c.venueOrderId = some v → f.venueOrderId = some v := by
  intro v hv
  have hvr : some r.venueOrderId = some v := h.holds.venue.symm.trans hv
  rw [← hvr]
  exact h.venues f (by simp)

theorem bookedCtx_unlatched (c : OrderCtx) (f : FillRecord) :
    (bookedCtx c f).authorityComplete = false := by
  obtain ⟨q, n, g, he⟩ :=
    accumulateResponseDomain_eq (bookedBase c f) f.qty f.priceCents f.feeCents f.tsNs
  rw [bookedCtx, he]
  rfl

/-- One attempt of the new fill. -/
theorem Awaiting.attempt (h : Awaiting b r fs f c) :
    (¬ Fits b.qty (fs ++ [f]) ∧ ∃ reason, tryAccountFill c f = (.halt reason [], c)) ∨
      (Fits b.qty (fs ++ [f]) ∧ Holds b (some r) (fs ++ [f]) (bookedCtx c f) ∧
        ((¬ r.Confirms b.qty (fs ++ [f]) ∧ ∃ reason,
            tryAccountFill c f = (.halt reason (bookEffects c f), bookedCtx c f)) ∨
          (responseDomainOverfillDetail (bookedCtx c f) = none ∧
            tryAccountFill c f = (.applied (bookEffects c f), bookedCtx c f)))) := by
  have hiff := h.holds.bookable_iff h.fresh h.venue
  rcases tryAccountFill_new (firstSightingMismatch_of_venue h.venue) h.fresh with
    ⟨hb, reason, he⟩ | ⟨hb, he⟩
  · exact .inl ⟨fun hf => hb (hiff.mpr hf), reason, he⟩
  · have hh := h.holds.booked hb
    refine .inr ⟨hiff.mp hb, hh, ?_⟩
    cases hd : responseDomainOverfillDetail (bookedCtx c f) with
    | some detail =>
        rw [hd] at he
        exact .inl ⟨hh.overfilled hd, _, he⟩
    | none =>
        rw [hd] at he
        exact .inr ⟨rfl, he⟩

/-- After live routing the fills the response counts are all in, so one more keeps it confirmed. -/
theorem Awaiting.confirmed (h : Awaiting b r fs f c)
    (hh : Holds b (some r) (fs ++ [f]) (bookedCtx c f))
    (hd : responseDomainOverfillDetail (bookedCtx c f) = none) (hw : r.waits c = false)
    (hm : ¬ (r.fillCount = 0 ∧ r.remainingCount ≠ b.qty)) :
    r.Confirms b.qty (fs ++ [f]) ∧ r.waits (bookedCtx c f) = false := by
  have hpos : ∀ g ∈ [f], 0 < g.qty := fun g hg => List.mem_singleton.mp hg ▸ h.positive
  have hge := of_decide_eq_false hw
  have hclosed : r.bounded = true → r.fillCount ≤ r.covered (·.qty) fs := by
    intro hbound
    rcases Nat.eq_zero_or_pos r.fillCount with hr | hr
    · omega
    · rw [hbound, if_pos rfl, (h.holds.domain hr).1] at hge
      omega
  have hover : r.bounded = true → 0 < r.fillCount →
      r.covered (·.qty) (fs ++ [f]) ≤ r.fillCount := by
    intro hbound hr
    have hk := hh.count hr
    simp only [responseDomainOverfillDetail, hk.count, hk.bounded, hbound, (hh.domain hr).1,
      Bool.true_and, decide_eq_true_eq] at hd
    by_contra hlt
    rw [if_pos (by omega)] at hd
    cases hd
  refine ⟨h.confirms.extend hpos hm hclosed hover, decide_eq_false ?_⟩
  rcases Nat.eq_zero_or_pos r.fillCount with hr | hr
  · omega
  · split
    · rename_i hbound
      have := hclosed hbound
      rw [(hh.domain hr).1, covered_append]
      omega
    · rename_i hbound
      rw [if_neg hbound] at hge
      rw [(bookedCtx_books c f).2.1]
      omega

theorem applyFrozen_fill (h : Awaiting b r fs f c) {s : OrderState} (hs : isRestartFrozen s = true)
    (hnot : Fits b.qty (fs ++ [f]) → ¬ r.Confirms b.qty (fs ++ [f])) :
    Taking b r (fs ++ [f]) (applyEvent s c (.fill f)) := by
  rw [applyEvent_frozen hs]
  have hrs : applyFrozen s c (.fill f) = restartSafeHandle s c (.fill f) := by
    cases s <;> rfl
  rw [hrs, restartSafeHandle]
  rcases h.attempt with ⟨hf, reason, he⟩ | ⟨hf, _, ⟨hc, reason, he⟩ | ⟨_, he⟩⟩
  · rw [he]
    exact .refused hf
  · rw [he]
    exact .booked hf (.halted (hnot hf))
  · rw [he]
    exact .booked hf (.halted (hnot hf))

theorem applyLive_fill (h : Awaiting b r fs f c) {s : OrderState}
    (hs : s = .accepted r.venueOrderId ∨ ∃ q n, s = .partialFill r.venueOrderId q n)
    (hw : r.waits c = false) (hm : ¬ (r.fillCount = 0 ∧ r.remainingCount ≠ b.qty)) :
    Taking b r (fs ++ [f]) (applyEvent s c (.fill f)) := by
  have hopen : applyEvent s c (.fill f) = applyFillWhileOpen s c f := by
    rcases hs with rfl | ⟨q, n, rfl⟩ <;> rfl
  rw [hopen, applyFillWhileOpen]
  rcases h.attempt with ⟨hf, reason, he⟩ | ⟨hf, hh, ⟨hc, reason, he⟩ | ⟨hd, he⟩⟩
  · rw [he]
    exact .refused hf
  · rw [he]
    exact .booked hf (.halted hc)
  · rw [he]
    have hv : (bookedCtx c f).venueOrderId = some r.venueOrderId := hh.venue
    obtain ⟨hc, hw'⟩ := h.confirmed hh hd hw hm
    have hroute : Answering b r (fs ++ [f])
        (routeLiveOrFilled (bookedCtx c f) r.venueOrderId (bookEffects c f)) :=
      hh.route h.venues hc hw' (by rwa [hh.qty]) (bookedCtx_unlatched c f)
    refine .booked hf ?_
    rcases hs with rfl | ⟨q, n, rfl⟩ <;> simpa only [hv, Option.getD_some] using hroute

theorem applyImmediateFill_fill (h : Awaiting b r fs f c) (hr : 0 < r.fillCount) :
    Taking b r (fs ++ [f]) (applyEvent (.immediateFillUnattributed r.venueOrderId r.fillCount
      r.remainingCount r.avgPriceCents r.feeCents) c (.fill f)) := by
  have hv : c.venueOrderId = some r.venueOrderId := h.holds.venue
  simp only [applyEvent, applyImmediateFillUnattributed, applyImmediateFillBackfill,
    bindVenueId_same hv, pushJournal, accountFills]
  rcases h.attempt with ⟨hf, reason, he⟩ | ⟨hf, hh, ⟨hc, reason, he⟩ | ⟨_, he⟩⟩
  · rw [he]
    exact .refused hf
  · rw [he]
    exact .booked hf (.halted hc)
  · rw [he]
    exact .booked hf (hh.resolve hr h.venues (bookedCtx_unlatched c f))

/-- A fill on an answered order. -/
theorem answered_fill (h : Awaiting b r fs f c) :
    Taking b r (fs ++ [f]) (applyEvent (answeredState r c) c (.fill f)) := by
  have hqty := h.holds.qty
  by_cases hm : r.fillCount = 0 ∧ r.remainingCount ≠ c.qty
  · rw [answeredState, if_pos hm]
    refine applyFrozen_fill h rfl fun _ hc => ?_
    rcases hc with ⟨_, hq | ⟨_, hnil⟩⟩ | ⟨hr, _⟩
    · exact hm.2 (hqty ▸ hq)
    · simp at hnil
    · omega
  rw [answeredState, if_neg hm]
  cases hw : r.waits c with
  | true =>
      have hr : 0 < r.fillCount := Nat.pos_of_ne_zero fun hz => by
        simp [CreateResponse.waits, hz] at hw
      exact applyImmediateFill_fill h hr
  | false =>
      rw [hqty] at hm
      simp only [Bool.false_eq_true, if_false, liveState]
      split
      · rename_i hfull
        refine applyFrozen_fill h rfl fun hf => ?_
        have hbook := (h.holds.bookable_iff h.fresh h.venue).mpr hf
        have := hbook.room
        have := h.positive
        omega
      · split
        · exact applyLive_fill h (.inl rfl) hw hm
        · exact applyLive_fill h (.inr ⟨_, _, rfl⟩) hw hm

/-- A fill on a started submission. -/
theorem started_fill (h : Holds b none fs c) (a : AttemptId)
    (hnew : c.appliedFills.get? f.fillId = none) :
    (¬ Fits b.qty (fs ++ [f]) ∧ ∃ s reason fx d,
        applyEvent (.submitStarted a) c (.fill f) = (.halt s reason fx, d)) ∨
      (Fits b.qty (fs ++ [f]) ∧ Holds b none (fs ++ [f]) (bookedCtx c f) ∧
        ∃ fx, applyEvent (.submitStarted a) c (.fill f) =
          (.accept (.submitStarted a) fx, bookedCtx c f)) := by
  have hv : ∀ v, c.venueOrderId = some v → f.venueOrderId = some v := by
    intro v hv
    rw [h.venue] at hv
    cases hv
  have hstep : applyEvent (.submitStarted a) c (.fill f) =
      applyFillWhileOpen (.submitStarted a) c f := rfl
  rw [hstep, applyFillWhileOpen]
  rcases tryAccountFill_new (firstSightingMismatch_of_venue hv) hnew with
    ⟨hb, reason, he⟩ | ⟨hb, he⟩
  · rw [he]
    exact .inl ⟨fun hf => hb ((h.bookable_iff hnew hv).mpr hf), _, _, _, _, rfl⟩
  · have hh := h.booked hb
    have hnone : (bookedCtx c f).responseFillCount = none := congrArg (·.1) hh.response
    have hd : responseDomainOverfillDetail (bookedCtx c f) = none := by
      simp only [responseDomainOverfillDetail, hnone]
    rw [hd] at he
    rw [he]
    exact .inr ⟨(h.bookable_iff hnew hv).mp hb, hh, _, rfl⟩

/-! ## Runs -/

/-- The fills a run offers, in its order. -/
def offeredFills (l : List OrderEvent) : List FillRecord := l.flatMap OrderEvent.fills

theorem offeredFills_append (l m : List OrderEvent) :
    offeredFills (l ++ m) = offeredFills l ++ offeredFills m := List.flatMap_append

/-- The events are the response, at most once, and fills of its venue order under distinct ids. -/
structure Offered (r : CreateResponse) (l : List OrderEvent) : Prop where
  only : ∀ e ∈ l,
    e = r.event ∨ ∃ f, e = .fill f ∧ 0 < f.qty ∧ f.venueOrderId = some r.venueOrderId
  once : l.count r.event ≤ 1
  ids : ((offeredFills l).map (·.fillId)).Nodup

/-- The fills fit, and the response, once it is in, is confirmed. -/
structure Agreed (qty : Nat) (r : CreateResponse) (l : List OrderEvent) : Prop where
  fits : Fits qty (offeredFills l)
  confirms : r.event ∈ l → r.Confirms qty (offeredFills l)

/-- The order after the events `l`. -/
def Tracked (b : OrderCtx) (a : AttemptId) (r : CreateResponse) (l : List OrderEvent) (o : Order) :
    Prop :=
  if r.event ∈ l then
    Holds b (some r) (offeredFills l) o.ctx ∧ o.state = answeredState r o.ctx ∧
      o.ctx.authorityComplete = isRestartFrozen o.state
  else Holds b none (offeredFills l) o.ctx ∧ o.state = .submitStarted a ∧
    o.ctx.authorityComplete = false

variable {l m : List OrderEvent} {a : AttemptId} {o : Order} {e : OrderEvent}

theorem Offered.part (h : Offered r (l ++ m)) : Offered r l := by
  refine ⟨fun e he => h.only e (by simp [he]), ?_, ?_⟩
  · have := h.once
    rw [List.count_append] at this
    omega
  · have := h.ids
    rw [offeredFills_append, List.map_append] at this
    exact (List.nodup_append.mp this).1

theorem Offered.fills (h : Offered r l) :
    ∀ f ∈ offeredFills l, 0 < f.qty ∧ f.venueOrderId = some r.venueOrderId := by
  intro f hf
  obtain ⟨e, he, hfe⟩ := List.mem_flatMap.mp hf
  rcases h.only e he with rfl | ⟨g, rfl, hg⟩
  · simp [CreateResponse.event, OrderEvent.fills] at hfe
  · simp only [OrderEvent.fills, List.mem_singleton] at hfe
    exact hfe ▸ hg

theorem Fits.part {qty : Nat} {gs : List FillRecord} (h : Fits qty (fs ++ gs)) : Fits qty fs := by
  obtain ⟨hroom, hword, hfee⟩ := h
  simp only [List.map_append, List.sum_append] at hroom hword hfee
  exact ⟨by omega, by omega, by omega⟩

theorem Agreed.part {qty : Nat} (hv : Offered r (l ++ m)) (h : Agreed qty r (l ++ m)) :
    Agreed qty r l := by
  obtain ⟨hfits, hconf⟩ := h
  rw [offeredFills_append] at hfits hconf
  refine ⟨hfits.part, fun hl => (hconf (by simp [hl])).part fun f hf => (hv.fills f ?_).1⟩
  rw [offeredFills_append]
  exact List.mem_append_right _ hf

/-- What one step owes to its inputs `l`: no halt exactly when they agree, and then the order is
tracked. -/
def Follows (b : OrderCtx) (a : AttemptId) (r : CreateResponse) (l : List OrderEvent)
    (w : TransitionOutcome × Order) : Prop :=
  (w.1.isHalt = false ↔ Agreed b.qty r l) ∧ (Agreed b.qty r l → Tracked b a r l w.2)

theorem Follows.halted {s : OrderState} {reason : HaltReason} (h : ¬ Agreed b.qty r l) :
    Follows b a r l (.halt s reason fx, o) :=
  ⟨⟨fun hw => (by cases hw), fun hl => absurd hl h⟩, fun hl => absurd hl h⟩

/-- The step a handler's answer makes of a state. -/
def stepped (s : OrderState) (out : TransitionOutcome × OrderCtx) : TransitionOutcome × Order :=
  (out.1, ⟨out.1.newState.getD s, out.2⟩)

theorem Answering.follows {s : OrderState} {out : TransitionOutcome × OrderCtx}
    (h : Answering b r (offeredFills l) out) (hl : r.event ∈ l) (hf : Fits b.qty (offeredFills l)) :
    Follows b a r l (stepped s out) := by
  cases h with
  | accepted hc h ha =>
      refine ⟨⟨fun _ => ⟨hf, fun _ => hc⟩, fun _ => rfl⟩, fun _ => ?_⟩
      rw [Tracked, if_pos hl]
      exact ⟨h, rfl, ha⟩
  | halted hc => exact .halted fun hg => hc (hg.confirms hl)

theorem Taking.follows {s : OrderState} {out : TransitionOutcome × OrderCtx}
    (h : Taking b r (offeredFills l) out) (hl : r.event ∈ l) : Follows b a r l (stepped s out) := by
  cases h with
  | refused hf => exact .halted fun hg => hf hg.fits
  | booked hf h => exact h.follows hl hf

theorem Tracked.step (hq : 0 < b.qty) (hv : Offered r (l ++ [e])) (hg : Agreed b.qty r l)
    (ht : Tracked b a r l o) : Follows b a r (l ++ [e]) (lifecycle.step o e) := by
  obtain ⟨s, c⟩ := o
  rcases hv.only e (by simp) with rfl | ⟨f, rfl, hpos, hven⟩
  · have hnot : r.event ∉ l := by
      have honce := hv.once
      rw [List.count_append, List.count_singleton_self] at honce
      exact List.count_eq_zero.mp (by omega)
    rw [Tracked, if_neg hnot] at ht
    obtain ⟨h, rfl, ha⟩ := ht
    have hfills : offeredFills (l ++ [r.event]) = offeredFills l := by
      rw [offeredFills_append]
      exact List.append_nil _
    have hans := h.respond hq hv.part.fills ha
    rw [← hfills] at hans
    exact Answering.follows hans (by simp) (hfills ▸ hg.fits)
  · have hfills : offeredFills (l ++ [.fill f]) = offeredFills l ++ [f] := offeredFills_append ..
    have hmem : r.event ∈ l ++ [.fill f] ↔ r.event ∈ l := by simp [CreateResponse.event]
    have hnew : ∀ {r?}, Holds b r? (offeredFills l) c → c.appliedFills.get? f.fillId = none := by
      intro r? h
      have hids := hv.ids
      rw [hfills, List.map_append, List.nodup_append] at hids
      cases hget : c.appliedFills.get? f.fillId with
      | none => rfl
      | some p =>
          obtain ⟨g, hgl, hid, _⟩ := (h.fills _ _).mp hget
          exact absurd hid (hids.2.2 _ (List.mem_map_of_mem hgl) _ (by simp))
    by_cases hl : r.event ∈ l
    · rw [Tracked, if_pos hl] at ht
      obtain ⟨h, hs, _⟩ := ht
      obtain rfl : s = answeredState r c := hs
      have hbook := answered_fill (f := f) ⟨h, hg.confirms hl, hpos, ?_, hnew h⟩
      · rw [← hfills] at hbook
        exact hbook.follows (hmem.mpr hl)
      · intro g hgl
        rw [← hfills] at hgl
        exact (hv.fills g hgl).2
    · rw [Tracked, if_neg hl] at ht
      obtain ⟨h, rfl, ha⟩ := ht
      rcases started_fill h a (hnew h) with ⟨hf, s, reason, fx, d, he⟩ | ⟨hf, hh, fx, he⟩
      · have hstep : lifecycle.step ⟨.submitStarted a, c⟩ (.fill f) = stepped _ (.halt s reason fx, d) :=
          congrArg (stepped _) he
        rw [hstep]
        exact .halted fun hg' => hf (hfills ▸ hg'.fits)
      · have hstep : lifecycle.step ⟨.submitStarted a, c⟩ (.fill f) =
            stepped _ (.accept (.submitStarted a) fx, bookedCtx c f) := congrArg (stepped _) he
        rw [hstep]
        refine ⟨⟨fun _ => ⟨hfills ▸ hf, fun h' => absurd (hmem.mp h') hl⟩, fun _ => rfl⟩, fun _ => ?_⟩
        rw [Tracked, if_neg (fun h' => hl (hmem.mp h')), hfills]
        exact ⟨hh, rfl, bookedCtx_unlatched c f⟩

/-! ## Order does not matter -/

/-- The context without the count of its generations. -/
def OrderCtx.sansEpochs (c : OrderCtx) : OrderCtx :=
  { c with authorityEpoch := 0, authorityLatchedEpoch := 0 }

/-- Holding the same response and the same fills determines the context, the authority apart. -/
theorem Holds.determined {r? : Option CreateResponse} {gs : List FillRecord} (h : Holds b r? fs c)
    (h' : Holds b r? gs d) (hp : fs.Perm gs) :
    { c with authorityComplete := false }.sansEpochs =
      { d with authorityComplete := false }.sansEpochs := by
  have hfills : c.appliedFills = d.appliedFills := by
    refine OrdMap.ext_get? fun fid => Option.ext fun p => ?_
    rw [h.fills, h'.fills]
    simp only [hp.mem_iff]
  have hid := h.identity.trans h'.identity.symm
  have hresp := h.response.trans h'.response.symm
  have hattr : c.attributedFillQty = d.attributedFillQty := by
    rw [h.accounted.qty, h'.accounted.qty, hfills]
  have hob : c.fillObligation = d.fillObligation := by rw [h.obligation, h'.obligation, hattr]
  have hnot : c.attributedNotionalCents = d.attributedNotionalCents := by
    rw [h.accounted.notional, h'.accounted.notional, hfills]
  have hfee : c.attributedFeeCents = d.attributedFeeCents := by
    rw [h.accounted.fee, h'.accounted.fee, hfills]
  have hsum := domainSum_congr hfills hresp
  have hdq : c.responseDomainQty = d.responseDomainQty := by
    rw [h.current.qty, h'.current.qty, hsum]
  have hdn : c.responseDomainNotionalCents = d.responseDomainNotionalCents := by
    rw [h.current.notional, h'.current.notional, hsum]
  have hdf : c.responseDomainFeeCents = d.responseDomainFeeCents := by
    rw [h.current.fee, h'.current.fee, hsum]
  have hven := h.venue.trans h'.venue.symm
  have hrem := h.remaining.trans h'.remaining.symm
  simp only [OrderCtx.identity, OrderCtx.response, Prod.mk.injEq] at hid hresp
  simp only [OrderCtx.sansEpochs, OrderCtx.mk.injEq]
  simp only [hfills, hid, hresp, hattr, hob, hnot, hfee, hdq, hdn, hdf, hven, hrem, and_self]

/-- Same state, same context but for its generations. -/
def SameButEpochs (o o' : Order) : Prop :=
  o.state = o'.state ∧ o.ctx.sansEpochs = o'.ctx.sansEpochs

theorem Tracked.perm {o' : Order} (hp : l.Perm m) (h : Tracked b a r l o) (h' : Tracked b a r m o') :
    SameButEpochs o o' := by
  have hfills : (offeredFills l).Perm (offeredFills m) := hp.flatMap_right _
  have hauth : ∀ {c d : OrderCtx}, { c with authorityComplete := false }.sansEpochs =
      { d with authorityComplete := false }.sansEpochs → c.authorityComplete = d.authorityComplete →
      c.sansEpochs = d.sansEpochs := by
    intro c d hcd ha
    simp only [OrderCtx.sansEpochs, OrderCtx.mk.injEq] at hcd ⊢
    simp only [hcd, ha, and_self]
  by_cases hl : r.event ∈ l
  · rw [Tracked, if_pos hl] at h
    rw [Tracked, if_pos (hp.mem_iff.mp hl)] at h'
    obtain ⟨hh, hs, ha⟩ := h
    obtain ⟨hh', hs', ha'⟩ := h'
    have hdet := hh.determined hh' hfills
    have hanswered := congrArg (answeredState r) hdet
    have hstate : o.state = o'.state := by
      rw [hs, hs']
      exact hanswered
    exact ⟨hstate, hauth hdet (by rw [ha, ha', hstate])⟩
  · rw [Tracked, if_neg hl] at h
    rw [Tracked, if_neg fun hm => hl (hp.mem_iff.mpr hm)] at h'
    obtain ⟨hh, hs, ha⟩ := h
    obtain ⟨hh', hs', ha'⟩ := h'
    exact ⟨hs.trans hs'.symm, hauth (hh.determined hh' hfills) (ha.trans ha'.symm)⟩

theorem Offered.perm (hp : l.Perm m) (h : Offered r l) : Offered r m := by
  refine ⟨fun e he => h.only e (hp.mem_iff.mpr he), ?_, ?_⟩
  · rw [← hp.count_eq]
    exact h.once
  · exact (((hp.flatMap_right _).map _).nodup_iff).mp h.ids

theorem CreateResponse.Confirms.perm {qty : Nat} {gs : List FillRecord} (hp : fs.Perm gs)
    (h : r.Confirms qty fs) : r.Confirms qty gs := by
  have hsum : ∀ g, r.covered g gs = r.covered g fs := fun g => (hp.map _).sum_eq.symm
  rcases h with ⟨hr, hm | ⟨hm, rfl⟩⟩ | ⟨hr, hle, hb⟩
  · exact .inl ⟨hr, .inl hm⟩
  · exact .inl ⟨hr, .inr ⟨hm, hp.symm.eq_nil⟩⟩
  · refine .inr ⟨hr, hle, fun hbound => ?_⟩
    obtain ⟨hle', hmatch⟩ := hb hbound
    rw [hsum]
    refine ⟨hle', fun heq => ?_⟩
    obtain ⟨hrem, havg, hfee⟩ := hmatch heq
    exact ⟨hrem, by rwa [hsum], by rwa [hsum]⟩

theorem Agreed.perm {qty : Nat} (hp : l.Perm m) (h : Agreed qty r l) : Agreed qty r m := by
  have hfills : (offeredFills l).Perm (offeredFills m) := hp.flatMap_right _
  obtain ⟨⟨hroom, hword, hfee⟩, hconf⟩ := h
  rw [(hfills.map _).sum_eq] at hroom hword hfee
  exact ⟨⟨hroom, hword, hfee⟩, fun hm => (hconf (hp.mem_iff.mpr hm)).perm hfills⟩

theorem holds_new (cid : ClientOrderId) (market strategy : String) (side : Side)
    (price qty : Nat) :
    Holds (.new cid market strategy side price qty) none []
      (.new cid market strategy side price qty) :=
  ⟨rfl, fun _ _ => by simp [OrderCtx.new], fun _ => rfl, accounted_new .., ⟨rfl, rfl, rfl⟩, rfl, rfl,
    rfl, rfl⟩

/-- The response and the fills as one list. -/
theorem offered_all {fills : List FillRecord} (hids : (fills.map (·.fillId)).Nodup)
    (hfills : ∀ f ∈ fills, 0 < f.qty ∧ f.venueOrderId = some r.venueOrderId) :
    Offered r (r.event :: fills.map .fill) := by
  have hall : offeredFills (r.event :: fills.map .fill) = fills := by
    have hf : offeredFills (fills.map .fill) = fills := by
      simp [offeredFills, List.flatMap_map, OrderEvent.fills]
    exact (offeredFills_append [r.event] _).trans hf
  refine ⟨fun e he => ?_, ?_, by rwa [hall]⟩
  · rcases List.mem_cons.mp he with rfl | he
    · exact .inl rfl
    · obtain ⟨f, hf, rfl⟩ := List.mem_map.mp he
      exact .inr ⟨f, rfl, hfills f hf⟩
  · have hnot : r.event ∉ fills.map OrderEvent.fill := by simp [CreateResponse.event]
    rw [List.count_cons_self, List.count_eq_zero.mpr hnot]

/-- A response and fills that run without a halt in one order run without a halt in every order, to
the same state and, the generations apart, the same context. -/
theorem response_and_fills_commute (cid : ClientOrderId) (market strategy : String) (side : Side)
    (price qty : Nat) (hq : 0 < qty) (a : AttemptId) (r : CreateResponse) (fills : List FillRecord)
    (hids : (fills.map (·.fillId)).Nodup)
    (hfills : ∀ f ∈ fills, 0 < f.qty ∧ f.venueOrderId = some r.venueOrderId)
    (es fs : List OrderEvent) (hes : es.Perm (r.event :: fills.map .fill)) (hfs : fs.Perm es) :
    let o : Order := ⟨.submitStarted a, .new cid market strategy side price qty⟩
    (∀ out ∈ lifecycle.outputs o es, out.isHalt = false) →
      (∀ out ∈ lifecycle.outputs o fs, out.isHalt = false) ∧
        (lifecycle.final o fs).state = (lifecycle.final o es).state ∧
        (lifecycle.final o fs).ctx.sansEpochs = (lifecycle.final o es).ctx.sansEpochs := by
  intro o hok
  have hnew := holds_new cid market strategy side price qty
  have hstart : Tracked o.ctx a r [] o := by
    rw [Tracked, if_neg List.not_mem_nil]
    exact ⟨hnew, rfl, rfl⟩
  obtain ⟨hok', hsame⟩ := lifecycle.tracked_perm (T := Tracked o.ctx a r) (G := Agreed qty r)
    (V := Offered r) (K := (·.isHalt = false)) (R := SameButEpochs) Offered.part
    (fun hv h => h.part hv) (fun hv hg ht => Tracked.step hq hv hg ht) Offered.perm Agreed.perm
    Tracked.perm hstart ⟨hnew.fits, fun h => absurd h List.not_mem_nil⟩ hfs.symm
    ((offered_all hids hfills).perm hes.symm) hok
  exact ⟨hok', hsame.1.symm, hsame.2.symm⟩

/-- An immediate partial fill, told by the response first and by the response last. -/
theorem response_and_fills_commute_partial :
    let r : CreateResponse := ⟨⟨"V"⟩, 3, 7, some 40, some 2, some (.tsNs 9)⟩
    let f : FillRecord := ⟨⟨"f"⟩, 3, 40, 7, some ⟨"V"⟩, some 2⟩
    let g : FillRecord := ⟨⟨"g"⟩, 4, 40, 11, some ⟨"V"⟩, none⟩
    let o : Order := ⟨.submitStarted ⟨"a"⟩, .new ⟨"c"⟩ "m" "s" .buyYes 40 10⟩
    (lifecycle.final o [.fill g, r.event, .fill f]).state = .partialFill ⟨"V"⟩ 7 3 ∧
      (lifecycle.final o [.fill g, r.event, .fill f]).state =
        (lifecycle.final o [r.event, .fill f, .fill g]).state := by
  intro r f g o
  obtain ⟨_, hs, _⟩ := response_and_fills_commute ⟨"c"⟩ "m" "s" .buyYes 40 10 (by decide) ⟨"a"⟩ r
    [f, g] (by decide) (by decide) [r.event, .fill f, .fill g] [.fill g, r.event, .fill f]
    (by decide) (by decide) (by decide)
  exact ⟨by decide, hs⟩

end Omsrs.Lifecycle
