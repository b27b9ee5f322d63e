import Omsrs.Lifecycle.Lemmas.Verdict

/-!
# The create response and its backfill

A response that fits lands like any other event. One that contradicts the bound identity or counts
more than the order is refused, with its record already written.
-/

namespace Omsrs.Lifecycle
open Omsrs.Lib

variable {P : Scope} {R : Prop} {c d : OrderCtx} {fx : List Effect} {v : VenueOrderId}

theorem pushJournal_cons (e : Effect) (fx : List Effect) (jr : Option JournalRecord) :
    pushJournal (e :: fx) jr = e :: pushJournal fx jr := by
  cases jr <;> rfl

theorem Unanswered.keep (h : Unanswered c) (hk : Kept c d) (hv : d.venueOrderId = c.venueOrderId)
    (ha : c.authorityComplete = false → d.authorityComplete = false) : Unanswered d :=
  ⟨hv.trans h.unbound, ha h.unlatched, (congrArg (·.1) hk.response).trans h.unreported⟩

/-- An open state still agrees when its context moved on without booking. -/
theorem Agrees.keep {s : OrderState} (h : Agrees s c) (hk : Kept c d)
    (hq : d.attributedFillQty = c.attributedFillQty) (hu : Unanswered c → Unanswered d) :
    Agrees s d := by
  have hresp := hk.response
  simp only [OrderCtx.response, Prod.mk.injEq] at hresp
  obtain ⟨hrc, _, havg, hfee, _⟩ := hresp
  cases s with
  | new => exact hu h
  | submitPrepared => exact hu h
  | submitStarted _ => exact hu h
  | submitUnknown => exact hu h
  | accepted v => exact hk.venue v h
  | partialFill v _ _ => exact ⟨hk.venue v h.1, h.2.trans hq.symm⟩
  | cancelPending v _ _ _ _ _ _ =>
      obtain ⟨hv, hf, rfl, rfl, rfl, ht⟩ := h
      exact ⟨hk.venue v hv, hf.trans hq.symm, hrc.symm, havg.symm, hfee.symm, ht⟩
  | reconcilePending v _ _ _ _ _ _ => exact ⟨hk.venue v h.1, h.2.trans hq.symm⟩
  | immediateFillUnattributed v _ _ _ _ =>
      obtain ⟨hv, hc, rfl, rfl⟩ := h
      exact ⟨hk.venue v hv, hrc.trans hc, havg.symm, hfee.symm⟩
  | _ => trivial

/-- Taking in a fill never latches. -/
theorem Accounting.unlatched {f : FillRecord} {a : AccountAttempt} (h : Accounting c f a d)
    (ha : c.authorityComplete = false) : d.authorityComplete = false := by
  have hbook : (bookedCtx c f).authorityComplete = false := by
    obtain ⟨q, n, g, he⟩ :=
      accumulateResponseDomain_eq (bookedBase c f) f.qty f.priceCents f.feeCents f.tsNs
    rw [bookedCtx, he]
    rfl
  cases h with
  | ignored => exact ha
  | refused _ => exact ha
  | completed prev _ => exact ha
  | booked _ _ => exact hbook
  | overfilled _ _ => exact hbook

/-- Taking in a fill binds nothing. -/
theorem Accounting.venue {f : FillRecord} {a : AccountAttempt} (h : Accounting c f a d) :
    d.venueOrderId = c.venueOrderId := by
  have hbook : (bookedCtx c f).venueOrderId = c.venueOrderId := by
    obtain ⟨q, n, g, he⟩ :=
      accumulateResponseDomain_eq (bookedBase c f) f.qty f.priceCents f.feeCents f.tsNs
    rw [bookedCtx, he]
    rfl
  cases h with
  | ignored => rfl
  | refused _ => rfl
  | completed prev _ => rfl
  | booked _ _ => exact hbook
  | overfilled _ _ => exact hbook

/-! ## The create response -/

/-- The response as a waiting state and its context both have it. -/
def Answered (c : OrderCtx) (count : Nat) (avg fee : Option Nat) : Prop :=
  c.responseFillCount = some count ∧ avg = c.responseAvgPriceCents ∧ fee = c.responseFeeCents

theorem Answered.keep {count : Nat} {avg fee : Option Nat} (h : Answered c count avg fee)
    (hk : Kept c d) : Answered d count avg fee := by
  have hresp := hk.response
  simp only [OrderCtx.response, Prod.mk.injEq] at hresp
  obtain ⟨hrc, rfl, rfl⟩ := h
  exact ⟨hresp.1.trans hrc, hresp.2.2.1.symm, hresp.2.2.2.1.symm⟩

theorem resolveUnattributed_lands (ht : Trail (Deed P) c fx d) (hd : Sound d)
    (hv : d.venueOrderId = some v) (hr : R) {count : Nat} (remaining : Nat) {avg fee : Option Nat}
    (ha : Answered d count avg fee) :
    Lands P R c (resolveUnattributed d v count remaining avg fee fx).1
      (resolveUnattributed d v count remaining avg fee fx).2 := by
  obtain ⟨hrc, rfl, rfl⟩ := ha
  unfold resolveUnattributed
  split
  · exact .accepted rfl ht ⟨hd, hv, hrc, rfl, rfl⟩
  · exact .halted ht _
  · simp only [Option.or_self]
    exact routeLiveOrFilled_lands ht hd hv hr

theorem applyEmptyResponse_lands (ht : Trail (Deed P) c fx d) (hd : Sound d)
    (hv : d.venueOrderId = some v) (hr : R) (remaining : Nat) :
    Lands P R c (applyEmptyResponse d v remaining fx).1 (applyEmptyResponse d v remaining fx).2 := by
  unfold applyEmptyResponse
  split
  · split
    · exact routeLiveOrFilled_lands ht hd hv hr
    · exact .halted ht _
  · split
    · split
      · exact tryFinalizeTerminal_lands (Deeds.latched ht) hd.latch hv (fun _ => hr) _ _
      · exact .halted ht _
    · exact .accepted rfl ht ⟨hd, hv⟩

/-- The create response contradicts what the order knows; its record is written all the same, and a
fold of the record fails with the same reason. -/
inductive Refused (c : OrderCtx) : OrderEvent → HaltReason → List Effect → OrderCtx → Prop
  | conflict {v : VenueOrderId} {count remaining : Nat} {avg fee : Option Nat}
      {b : Option SnapshotBoundary} {reason : HaltReason} (h : bindVenueId c v = .error reason) :
      Refused c (.submitResponse v count remaining avg fee b) reason
        [.appendFsync (.submitResponse v count remaining avg fee b)] c
  | excess {v : VenueOrderId} {count remaining : Nat} {avg fee : Option Nat}
      {b : Option SnapshotBoundary} {jr : Option JournalRecord} {d : OrderCtx}
      (hb : bindVenueId c v = .ok (jr, d)) (hpos : 0 < count) (hq : c.qty < count) :
      Refused c (.submitResponse v count remaining avg fee b)
        (.obligationExceedsOrderQty count c.qty)
        (.appendFsync (.submitResponse v count remaining avg fee b) :: pushJournal [] jr)
        (setResponse (d.noteVenueRemaining remaining) count remaining avg fee b)

theorem bindVenueId_kept {v : VenueOrderId} {jr : Option JournalRecord}
    (h : bindVenueId c v = .ok (jr, d)) : Kept c d :=
  Moves.kept (P := .any) (bindVenueId_trail h)

/-- What a counted response raises. -/
theorem setResponse_raised {b : Option SnapshotBoundary} {count remaining : Nat}
    {avg fee : Option Nat} (hc : Accounted c)
    (hr : (setResponse c count remaining avg fee b).raiseFillObligation count = .ok d) :
    Accounted d ∧ Kept (setResponse c count remaining avg fee b) d ∧ count ≤ d.fillObligation ∧
      d.venueOrderId = c.venueOrderId ∧ d.lastVenueRemainingQty = c.lastVenueRemainingQty := by
  have hset : Accounted (setResponse c count remaining avg fee b) :=
    hc.congr rfl rfl rfl rfl le_rfl hc.bounded
  obtain ⟨hq, ⟨hle, rfl⟩ | ⟨hlt, rfl⟩⟩ := raiseFillObligation_ok hr
  · exact ⟨hset, .refl _, hle, rfl, rfl⟩
  · refine ⟨hset.raised hlt hq, .raised hlt, ?_⟩
    unfold raisedCtx
    split <;> exact ⟨le_rfl, rfl, rfl⟩

theorem Accounted.recompute (hc : Accounted c) : Accounted (recomputeResponseDomain c) := by
  rw [recomputeResponseDomain_eq]
  exact hc.congr rfl rfl rfl rfl le_rfl hc.bounded

/-- The context after a counted response has sound books again. -/
theorem answered_sound {b : Option SnapshotBoundary} {count remaining : Nat} {avg fee : Option Nat}
    (hc : Sound c) (hr : (setResponse c count remaining avg fee b).raiseFillObligation count = .ok d) :
    Sound (recomputeResponseDomain d) ∧ Answered (recomputeResponseDomain d) count avg fee := by
  obtain ⟨hacc, hk, hle, _⟩ := setResponse_raised hc.accounted hr
  have hresp := hk.response
  simp only [OrderCtx.response, setResponse, Prod.mk.injEq] at hresp
  refine ⟨⟨hacc.recompute, recompute_current d, ?_⟩, ?_⟩ <;> rw [recomputeResponseDomain_eq]
  · intro rc hrc
    have : rc = count := Option.some.inj (hrc.symm.trans hresp.1)
    exact this ▸ hle
  · exact ⟨hresp.1, hresp.2.2.1.symm, hresp.2.2.2.1.symm⟩

theorem immediateFill_echo {count remaining : Nat} {avg fee : Option Nat} (hc : Sound c)
    (hv : c.venueOrderId = some v) (hresp : c.responseFillCount = some count)
    (hrem : c.responseRemainingCount = some remaining) (havg : avg = c.responseAvgPriceCents)
    (hfee : fee = c.responseFeeCents) (hlast : c.lastVenueRemainingQty = some remaining) :
    Move P c [.appendFsync (.immediateFillUnattributed v count remaining avg fee)] c := by
  refine .echo rfl rfl fun hq => ?_
  have hle := hc.counted count hresp
  have hle' : ¬ c.qty < count := by omega
  have hlt : ¬ c.fillObligation < count := by omega
  subst havg hfee
  have hself : { c with
      responseFillCount := some count, responseRemainingCount := some remaining,
      lastVenueRemainingQty := some remaining } = c := by
    clear hc hv hle hle' hlt hq
    cases c
    simp only at hresp hrem hlast
    subst hresp hrem hlast
    rfl
  simp only [foldRecord, foldImmediateFill, bindForFold, bindVenueId_same hv, Except.map,
    restoreFillObligation, OrderCtx.noteVenueRemaining, bind, Except.bind, hle', hlt, if_false, hself]

theorem applySubmitResponse_lands (hc : Sound c) (hr : R) (v : VenueOrderId)
    (count remaining : Nat) (avg fee : Option Nat) (b : Option SnapshotBoundary) :
    Lands P R c (applySubmitResponse c v count remaining avg fee b).1
        (applySubmitResponse c v count remaining avg fee b).2 ∨
      ∃ reason fx, Refused c (.submitResponse v count remaining avg fee b) reason fx
          (applySubmitResponse c v count remaining avg fee b).2 ∧
        (applySubmitResponse c v count remaining avg fee b).1 = haltWithReason reason fx := by
  unfold applySubmitResponse
  cases hb : bindVenueId c v with
  | error reason => exact .inr ⟨_, _, .conflict hb, rfl⟩
  | ok r =>
      obtain ⟨jr, d⟩ := r
      have hd : Sound (d.noteVenueRemaining remaining) :=
        (hc.trail (P := .any) (bindVenueId_trail hb)).note _
      have hv : d.venueOrderId = some v := bindVenueId_bound hb
      simp only [pushJournal_cons]
      split
      · rename_i hzero
        subst hzero
        exact .inl (applyEmptyResponse_lands (.single (.inr (.empty hb))) hd hv hr _)
      · rename_i hpos
        cases hraise : (setResponse (d.noteVenueRemaining remaining) count remaining avg fee
            b).raiseFillObligation count with
        | error reason =>
            have hq : (setResponse (d.noteVenueRemaining remaining) count remaining avg fee b).qty =
                c.qty := (bindVenueId_kept hb).qty
            obtain ⟨hlt, rfl⟩ := raiseFillObligation_error hraise
            refine .inr ⟨_, _, ?_, rfl⟩
            rw [hq] at hlt ⊢
            exact .excess hb (by omega) hlt
        | ok d' =>
            obtain ⟨hs, ha⟩ := answered_sound hd hraise
            obtain ⟨_, hk, _, hven, hrem⟩ := setResponse_raised hd.accounted hraise
            have hven' : (recomputeResponseDomain d').venueOrderId = some v := by
              rw [recomputeResponseDomain_eq]
              exact hven.trans hv
            have htrail : Trail (Deed P) c (.appendFsync (.submitResponse v count remaining avg fee b) ::
                (pushJournal [] jr ++ raiseEffects (setResponse (d.noteVenueRemaining remaining) count
                  remaining avg fee b) d')) (recomputeResponseDomain d') :=
              .single (.inr (.counted hb (by omega) hraise))
            have hresp := hk.response
            simp only [OrderCtx.response, setResponse, Prod.mk.injEq] at hresp
            have hlast : (recomputeResponseDomain d').lastVenueRemainingQty = some remaining ∧
                (recomputeResponseDomain d').responseRemainingCount = some remaining := by
              rw [recomputeResponseDomain_eq]
              exact ⟨hrem, hresp.2.1⟩
            left
            dsimp only
            split
            · exact .halted htrail _
            · have hecho : Trail (Deed P) c _ (recomputeResponseDomain d') :=
                Deeds.idles (g := [.backfillFills v]) (Deeds.extend htrail
                  (.single (immediateFill_echo hs hven' ha.1 hlast.2 ha.2.1 ha.2.2 hlast.1)))
                  (by simp [Effect.isIdle])
              simp only [List.append_assoc, List.cons_append, List.nil_append] at hecho ⊢
              split
              · exact resolveUnattributed_lands hecho hs hven' hr remaining ha
              · exact .accepted rfl hecho ⟨hs, hven', ha⟩

theorem applyImmediateFillBackfill_lands (hc : Sound c) (hv : c.venueOrderId = some v) (hr : R)
    {count : Nat} (remaining : Nat) {avg fee : Option Nat} (ha : Answered c count avg fee)
    (fills : List FillRecord) (hf : ∀ f ∈ fills, P.offers f) :
    Lands P R c (applyImmediateFillBackfill c v count remaining avg fee fills).1
      (applyImmediateFillBackfill c v count remaining avg fee fills).2 := by
  unfold applyImmediateFillBackfill
  simp only [bindVenueId_same hv, pushJournal]
  obtain ⟨gx, he, hdr⟩ := accountFills_drained (P := P) (fun _ => none) c [] fills hf
  rw [List.nil_append] at he
  cases hres : accountFills (fun _ => none) c [] fills with
  | error r =>
      rw [hres] at he hdr
      exact .halted (Moves.deeds (he ▸ hdr.trail)) _
  | ok r =>
      rw [hres] at he hdr
      have ht := hdr.trail
      exact resolveUnattributed_lands (Moves.deeds (he ▸ ht)) (hc.trail ht)
        ((Moves.kept ht).venue v hv) hr remaining (ha.keep (Moves.kept ht))

end Omsrs.Lifecycle
