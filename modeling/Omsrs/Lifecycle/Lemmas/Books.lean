import Omsrs.Lifecycle.Lemmas.Moves

/-!
# The books of an order

The totals of the context are the sums over the booked fills, and the response domain is the sum over
the fills the response's snapshot covers. Every move keeps both.
-/

namespace Omsrs.Lifecycle
open Omsrs.Lib

/-! ## Totals -/

structure Accounted (c : OrderCtx) : Prop where
  qty : c.attributedFillQty = c.appliedFills.sumBy (·.qty)
  notional : c.attributedNotionalCents =
    min (c.appliedFills.sumBy fun p => p.qty * p.priceCents) u128Max
  fee : c.attributedFeeCents = c.appliedFills.sumBy (·.fee.getD 0)
  covered : c.attributedFillQty ≤ c.fillObligation
  bounded : c.fillObligation ≤ c.qty
  qtyWord : c.attributedFillQty ≤ u64Max
  feeWord : c.attributedFeeCents ≤ u64Max

theorem accounted_new (cid : ClientOrderId) (market strategy : String) (side : Side)
    (price qty : Nat) : Accounted (.new cid market strategy side price qty) :=
  ⟨rfl, rfl, rfl, le_rfl, Nat.zero_le _, Nat.zero_le _, Nat.zero_le _⟩

/-- The fields the totals are about. -/
theorem Accounted.congr {c d : OrderCtx} (h : Accounted c) (hf : d.appliedFills = c.appliedFills)
    (ha : d.attributedFillQty = c.attributedFillQty)
    (hn : d.attributedNotionalCents = c.attributedNotionalCents)
    (he : d.attributedFeeCents = c.attributedFeeCents) (ho : c.fillObligation ≤ d.fillObligation)
    (hq : d.fillObligation ≤ d.qty) : Accounted d := by
  refine ⟨?_, ?_, ?_, ?_, hq, ?_, ?_⟩
  · rw [ha, hf, h.qty]
  · rw [hn, hf, h.notional]
  · rw [he, hf, h.fee]
  · rw [ha]; exact h.covered.trans ho
  · rw [ha]; exact h.qtyWord
  · rw [he]; exact h.feeWord

theorem Accounted.note {c : OrderCtx} (h : Accounted c) (r : Nat) :
    Accounted (c.noteVenueRemaining r) :=
  h.congr rfl rfl rfl rfl le_rfl h.bounded

theorem Accounted.invalidate {c : OrderCtx} (h : Accounted c) : Accounted c.invalidateAuthority :=
  h.congr rfl rfl rfl rfl le_rfl h.bounded

theorem Accounted.raised {c : OrderCtx} {n : Nat} (h : Accounted c) (hlt : c.fillObligation < n)
    (hq : n ≤ c.qty) : Accounted (raisedCtx c n) := by
  unfold raisedCtx
  split <;> exact h.congr rfl rfl rfl rfl hlt.le hq

/-- A new fill adds itself to every total. -/
theorem Accounted.booked {c : OrderCtx} {f : FillRecord} (h : Accounted c) (hb : Bookable c f) :
    Accounted (bookedCtx c f) := by
  have hbase : Accounted (bookedBase c f) := by
    refine ⟨?_, ?_, ?_, ?_, ?_, hb.word, hb.fee⟩
    · simp only [bookedBase, OrdMap.sumBy_insert_new _ _ hb.fresh, h.qty, FillRecord.payload]
    · simp only [bookedBase, OrdMap.sumBy_insert_new _ _ hb.fresh, h.notional, FillRecord.payload,
        saturatingAdd_min]
    · simp only [bookedBase, OrdMap.sumBy_insert_new _ _ hb.fresh, h.fee, FillRecord.payload]
    · exact le_max_right _ _
    · exact max_le h.bounded hb.room
  obtain ⟨q, n, g, he⟩ :=
    accumulateResponseDomain_eq (bookedBase c f) f.qty f.priceCents f.feeCents f.tsNs
  rw [bookedCtx, he]
  exact hbase.congr rfl rfl rfl rfl le_rfl hbase.bounded

/-- A completed payload has the quantity and price it had, and its fee goes into the total. -/
theorem Accounted.completed {c : OrderCtx} {f : FillRecord} {prev : FillPayload} (h : Accounted c)
    (hc : Completes c f prev) : Accounted (completedCtx c f prev) := by
  have hq := OrdMap.sumBy_insert_old (completedPayload prev f) (·.qty) hc.known
  have hn := OrdMap.sumBy_insert_old (completedPayload prev f) (fun p => p.qty * p.priceCents) hc.known
  have hf := OrdMap.sumBy_insert_old (completedPayload prev f) (·.fee.getD 0) hc.known
  have hfee : (completedPayload prev f).fee.getD 0 =
      prev.fee.getD 0 + (feeDelta prev f).getD 0 := by
    rcases hc.fee with he | ⟨hp, fee, he, _⟩
    · simp [completedPayload, feeDelta, he]
    · simp [completedPayload, feeDelta, he, hp]
  have hword : c.attributedFeeCents + (feeDelta prev f).getD 0 ≤ u64Max := by
    rcases hc.fee with he | ⟨hp, fee, he, hle⟩
    · simpa [feeDelta, he] using h.feeWord
    · simpa [feeDelta, he, hp] using hle
  refine ⟨?_, ?_, ?_, h.covered, h.bounded, h.qtyWord, hword⟩
  · simp only [completedCtx, h.qty]
    simp only [completedPayload] at hq ⊢
    omega
  · simp only [completedCtx, h.notional]
    simp only [completedPayload] at hn ⊢
    congr 1
    omega
  · simp only [completedCtx, h.fee]
    omega

theorem Completion.accounted {c c' : OrderCtx} {fx : List Effect} (h : Completion c fx c')
    (ha : Accounted c) : Accounted c' := by
  obtain ⟨f, prev, hc, _, rfl⟩ := h
  exact ha.completed hc

theorem Settles.accounted {F : FillRecord → Prop} {c c' : OrderCtx} {fx : List Effect}
    (h : Settles F c fx c')
    (ha : Accounted c) : Accounted c' := by
  cases h with
  | book f _ hb => exact ha.booked hb
  | latch => exact ha.congr rfl rfl rfl rfl le_rfl ha.bounded

variable {P : Scope}

theorem Move.accounted {c c' : OrderCtx} {fx : List Effect} (h : Move P c fx c')
    (ha : Accounted c) : Accounted c' := by
  cases h with
  | idle _ => exact ha
  | echo _ _ _ => exact ha
  | invalidate => exact ha.invalidate
  | bind _ _ => exact ha.congr rfl rfl rfl rfl le_rfl ha.bounded
  | raise hlt hq => exact ha.raised hlt hq
  | complete h => exact h.accounted ha
  | settle h => exact h.accounted ha
  | remaining _ => exact ha.note _
  | observe _ _ _ => exact ha.note _
  | observeSettled _ _ hc hd =>
      exact hd.accounted (hc.preserves (I := fun _ c => Accounted c) (l := [])
        (fun ha h => Completion.accounted h ha) (ha.note _))
  | observeRaise _ hlt hq => exact (ha.note _).raised hlt hq
  | observeOver _ _ => exact ha.note _

/-! ## Identity and obligation -/

theorem bindVenueId_ok {c d : OrderCtx} {v : VenueOrderId} {jr : Option JournalRecord}
    (h : bindVenueId c v = .ok (jr, d)) :
    (c.venueOrderId = some v ∧ jr = none ∧ d = c) ∨
      (c.venueOrderId = none ∧ boundElsewhere v c.appliedFills.entries = none ∧
        jr = some (.venueBoundCid c.clientOrderId v) ∧ d = { c with venueOrderId := some v }) := by
  cases hv : c.venueOrderId with
  | none =>
      simp only [bindVenueId, hv] at h
      split at h
      · cases h
      · rename_i he
        cases h
        exact .inr ⟨rfl, he, rfl, rfl⟩
  | some existing =>
      simp only [bindVenueId, hv] at h
      split at h
      · rename_i he
        cases h
        exact .inl ⟨by rw [he], rfl, rfl⟩
      · cases h

theorem bindVenueId_bound {c d : OrderCtx} {v : VenueOrderId} {jr : Option JournalRecord}
    (h : bindVenueId c v = .ok (jr, d)) : d.venueOrderId = some v := by
  rcases bindVenueId_ok h with ⟨hv, _, rfl⟩ | ⟨_, _, _, rfl⟩
  · exact hv
  · rfl

theorem bindVenueId_same {c : OrderCtx} {v : VenueOrderId} (h : c.venueOrderId = some v) :
    bindVenueId c v = .ok (none, c) := by simp [bindVenueId, h]

/-- Binding moves along a trail of at most one record. -/
theorem bindVenueId_trail {c d : OrderCtx} {v : VenueOrderId} {jr : Option JournalRecord}
    (h : bindVenueId c v = .ok (jr, d)) : Trail (Move P) c (pushJournal [] jr) d := by
  rcases bindVenueId_ok h with ⟨_, rfl, rfl⟩ | ⟨hn, hv, rfl, rfl⟩
  · exact .nil _
  · exact .single (.bind hn hv)

theorem raiseFillObligation_ok {c d : OrderCtx} {n : Nat} (h : c.raiseFillObligation n = .ok d) :
    n ≤ c.qty ∧ ((n ≤ c.fillObligation ∧ d = c) ∨ (c.fillObligation < n ∧ d = raisedCtx c n)) := by
  simp only [OrderCtx.raiseFillObligation] at h
  split at h
  · cases h
  · rename_i hq
    refine ⟨by omega, ?_⟩
    split at h
    · rename_i hlt
      refine .inr ⟨hlt, ?_⟩
      unfold raisedCtx
      split at h <;> (cases h; simp_all)
    · rename_i hle
      cases h
      exact .inl ⟨by omega, rfl⟩

theorem raiseFillObligation_error {c : OrderCtx} {n : Nat} {reason : HaltReason}
    (h : c.raiseFillObligation n = .error reason) :
    c.qty < n ∧ reason = .obligationExceedsOrderQty n c.qty := by
  simp only [OrderCtx.raiseFillObligation] at h
  split at h
  · rename_i hq
    cases h
    exact ⟨hq, rfl⟩
  · split at h
    · split at h <;> cases h
    · cases h

theorem noteFillEvidence_ok {c d : OrderCtx} {n : Nat} {jr : Option JournalRecord}
    (h : noteFillEvidence c n = .ok (jr, d)) :
    n ≤ c.qty ∧ ((n ≤ c.fillObligation ∧ jr = none ∧ d = c) ∨
      (c.fillObligation < n ∧ jr = some (.obligationRaised n (raisedCtx c n).authorityEpoch) ∧
        d = raisedCtx c n)) := by
  cases hr : c.raiseFillObligation n with
  | error reason => simp [noteFillEvidence, hr] at h
  | ok c' =>
      simp only [noteFillEvidence, hr] at h
      obtain ⟨hq, ⟨hle, rfl⟩ | ⟨hlt, rfl⟩⟩ := raiseFillObligation_ok hr
      · simp only [lt_irrefl, if_false, Except.ok.injEq, Prod.mk.injEq] at h
        exact ⟨hq, .inl ⟨hle, h.1.symm, h.2.symm⟩⟩
      · have ho : (raisedCtx c n).fillObligation = n := by unfold raisedCtx; split <;> rfl
        simp only [ho, hlt, if_true, Except.ok.injEq, Prod.mk.injEq] at h
        exact ⟨hq, .inr ⟨hlt, h.1.symm, h.2.symm⟩⟩

theorem noteFillEvidence_trail {c d : OrderCtx} {n : Nat} {jr : Option JournalRecord}
    (h : noteFillEvidence c n = .ok (jr, d)) : Trail (Move P) c (pushJournal [] jr) d := by
  obtain ⟨hq, ⟨_, rfl, rfl⟩ | ⟨hlt, rfl, rfl⟩⟩ := noteFillEvidence_ok h
  · exact .nil _
  · exact .single (.raise hlt hq)

/-! ## What stays out of the books -/

/-- The fields of a booked context that hold the books. -/
theorem bookedCtx_books (c : OrderCtx) (f : FillRecord) :
    (bookedCtx c f).appliedFills = c.appliedFills.insert f.fillId f.payload ∧
      (bookedCtx c f).attributedFillQty = c.attributedFillQty + f.qty ∧
      (bookedCtx c f).attributedFeeCents = c.attributedFeeCents + f.feeCents.getD 0 := by
  obtain ⟨q, n, g, he⟩ :=
    accumulateResponseDomain_eq (bookedBase c f) f.qty f.priceCents f.feeCents f.tsNs
  rw [bookedCtx, he]
  exact ⟨rfl, rfl, rfl⟩

theorem raisedCtx_books (c : OrderCtx) (n : Nat) :
    (raisedCtx c n).appliedFills = c.appliedFills ∧
      (raisedCtx c n).attributedFillQty = c.attributedFillQty ∧
      (raisedCtx c n).attributedFeeCents = c.attributedFeeCents := by
  unfold raisedCtx
  split <;> exact ⟨rfl, rfl, rfl⟩

theorem bindVenueId_books {c d : OrderCtx} {v : VenueOrderId} {jr : Option JournalRecord}
    (h : bindVenueId c v = .ok (jr, d)) :
    d.appliedFills = c.appliedFills ∧ d.attributedFillQty = c.attributedFillQty ∧
      d.attributedFeeCents = c.attributedFeeCents := by
  rcases bindVenueId_ok h with ⟨_, _, rfl⟩ | ⟨_, _, _, rfl⟩ <;> exact ⟨rfl, rfl, rfl⟩

theorem raisedCtx_obligation (c : OrderCtx) (n : Nat) : (raisedCtx c n).fillObligation = n := by
  unfold raisedCtx
  split <;> rfl

theorem raisedCtx_remaining (c : OrderCtx) (n : Nat) :
    (raisedCtx c n).lastVenueRemainingQty = c.lastVenueRemainingQty := by
  unfold raisedCtx
  split <;> rfl

theorem raisedCtx_venue (c : OrderCtx) (n : Nat) :
    (raisedCtx c n).venueOrderId = c.venueOrderId := by
  unfold raisedCtx
  split <;> rfl

/-! ## The response domain -/

/-- The response counts fills and its snapshot reaches the fill. -/
def inDomain (c : OrderCtx) (tsNs : Int) : Bool :=
  c.responseFillCount.isSome && fillInResponseDomain c tsNs

/-- The sum of `g` over the booked fills of the response domain. -/
def domainSum (c : OrderCtx) (g : FillPayload → Nat) : Nat :=
  c.appliedFills.sumBy fun p => if inDomain c p.tsNs then g p else 0

/-- The accumulators are the sums over the response domain. -/
structure DomainCurrent (c : OrderCtx) : Prop where
  qty : c.responseDomainQty = min (domainSum c (·.qty)) u64Max
  notional : c.responseDomainNotionalCents =
    min (domainSum c fun p => p.qty * p.priceCents) u128Max
  fee : c.responseDomainFeeCents = min (domainSum c (·.fee.getD 0)) u64Max

theorem inDomain_congr {c d : OrderCtx} (h : d.response = c.response) (tsNs : Int) :
    inDomain d tsNs = inDomain c tsNs := by
  simp only [OrderCtx.response, Prod.mk.injEq] at h
  simp only [inDomain, fillInResponseDomain, h.1, h.2.2.2.2]

theorem hasReliableBoundary_of_inDomain {c : OrderCtx} {tsNs : Int}
    (h : fillInResponseDomain c tsNs = true) : hasReliableBoundary c = true := by
  revert h
  simp only [fillInResponseDomain, hasReliableBoundary]
  split <;> simp

/-- The context with other accumulators. -/
def OrderCtx.withDomain (c : OrderCtx) (qty notional fee : Nat) : OrderCtx :=
  { c with
    responseDomainQty := qty, responseDomainNotionalCents := notional, responseDomainFeeCents := fee }

theorem withDomain_self (c : OrderCtx) :
    c.withDomain c.responseDomainQty c.responseDomainNotionalCents c.responseDomainFeeCents = c := rfl

theorem accumulateResponseDomain_if (c : OrderCtx) (qty price : Nat) (fee : Option Nat) (ts : Int) :
    accumulateResponseDomain c qty price fee ts =
      if inDomain c ts then
        c.withDomain (saturatingAdd u64Max c.responseDomainQty qty)
          (saturatingAdd u128Max c.responseDomainNotionalCents (qty * price))
          (fee.elim c.responseDomainFeeCents (saturatingAdd u64Max c.responseDomainFeeCents))
      else c := by
  unfold accumulateResponseDomain inDomain
  cases hc : c.responseFillCount with
  | none => simp
  | some rc =>
      cases hd : fillInResponseDomain c ts with
      | false => simp
      | true =>
          simp only [Option.isNone_some, hasReliableBoundary_of_inDomain hd, Bool.not_true,
            Option.isSome_some, Bool.and_self, if_true]
          cases fee <;> simp [OrderCtx.withDomain, hc]

/-- Accumulators that are sums already stay sums. -/
theorem accumulate_withDomain (c : OrderCtx) (a b e qty price : Nat) (fee : Option Nat) (ts : Int) :
    accumulateResponseDomain (c.withDomain (min a u64Max) (min b u128Max) (min e u64Max)) qty price
        fee ts =
      c.withDomain (min (a + if inDomain c ts then qty else 0) u64Max)
        (min (b + if inDomain c ts then qty * price else 0) u128Max)
        (min (e + if inDomain c ts then fee.getD 0 else 0) u64Max) := by
  have hd : inDomain (c.withDomain (min a u64Max) (min b u128Max) (min e u64Max)) ts =
      inDomain c ts := rfl
  rw [accumulateResponseDomain_if, hd]
  cases inDomain c ts with
  | false => simp
  | true =>
      cases fee <;> simp only [OrderCtx.withDomain, if_true, saturatingAdd_min, Option.elim,
        Option.getD_some, Option.getD_none, Nat.add_zero]

/-- What the loop of `recomputeResponseDomain` adds up. -/
theorem foldl_accumulate (ps : List FillPayload) (c : OrderCtx) (a b e : Nat) :
    ps.foldl (fun c p => accumulateResponseDomain c p.qty p.priceCents p.fee p.tsNs)
        (c.withDomain (min a u64Max) (min b u128Max) (min e u64Max)) =
      c.withDomain (min (a + (ps.map fun p => if inDomain c p.tsNs then p.qty else 0).sum) u64Max)
        (min (b + (ps.map fun p => if inDomain c p.tsNs then p.qty * p.priceCents else 0).sum)
          u128Max)
        (min (e + (ps.map fun p => if inDomain c p.tsNs then p.fee.getD 0 else 0).sum) u64Max) := by
  induction ps generalizing a b e with
  | nil => simp
  | cons p ps ih =>
      rw [List.foldl_cons, accumulate_withDomain, ih]
      simp only [List.map_cons, List.sum_cons, Nat.add_assoc]

theorem recomputeResponseDomain_eq (c : OrderCtx) :
    recomputeResponseDomain c =
      c.withDomain (min (domainSum c (·.qty)) u64Max)
        (min (domainSum c fun p => p.qty * p.priceCents) u128Max)
        (min (domainSum c (·.fee.getD 0)) u64Max) := by
  unfold recomputeResponseDomain
  dsimp only
  split
  · rename_i h
    have hd : ∀ ts, inDomain c ts = false := by
      intro ts
      cases hf : fillInResponseDomain c ts with
      | false => simp [inDomain, hf]
      | true =>
          have hr : hasReliableBoundary c = true := hasReliableBoundary_of_inDomain hf
          cases hc : c.responseFillCount with
          | none => simp [inDomain, hc]
          | some rc => simp_all [hasReliableBoundary]
    have hz : ∀ g, domainSum c g = 0 := by intro g; simp [domainSum, OrdMap.sumBy, hd]
    simp [hz, OrderCtx.withDomain]
  · have hfold := foldl_accumulate c.appliedFills.values c 0 0 0
    simp only [Nat.zero_add, Nat.zero_min] at hfold
    exact hfold

theorem domainCurrent_iff {c : OrderCtx} : DomainCurrent c ↔ recomputeResponseDomain c = c := by
  rw [recomputeResponseDomain_eq]
  constructor
  · intro h
    rw [← h.qty, ← h.notional, ← h.fee, withDomain_self]
  · intro h
    refine ⟨?_, ?_, ?_⟩
    · exact (congrArg OrderCtx.responseDomainQty h).symm
    · exact (congrArg OrderCtx.responseDomainNotionalCents h).symm
    · exact (congrArg OrderCtx.responseDomainFeeCents h).symm

theorem recompute_current (c : OrderCtx) : DomainCurrent (recomputeResponseDomain c) := by
  rw [recomputeResponseDomain_eq]
  exact ⟨rfl, rfl, rfl⟩

theorem domainSum_congr {c d : OrderCtx} (hf : d.appliedFills = c.appliedFills)
    (hr : d.response = c.response) (g : FillPayload → Nat) : domainSum d g = domainSum c g := by
  simp only [domainSum, hf, inDomain_congr hr]

theorem DomainCurrent.congr {c d : OrderCtx} (h : DomainCurrent c)
    (hf : d.appliedFills = c.appliedFills) (hr : d.response = c.response)
    (hq : d.responseDomainQty = c.responseDomainQty)
    (hn : d.responseDomainNotionalCents = c.responseDomainNotionalCents)
    (he : d.responseDomainFeeCents = c.responseDomainFeeCents) : DomainCurrent d := by
  have hs := domainSum_congr hf hr
  exact ⟨by rw [hq, hs, h.qty], by rw [hn, hs, h.notional], by rw [he, hs, h.fee]⟩

theorem DomainCurrent.note {c : OrderCtx} (h : DomainCurrent c) (r : Nat) :
    DomainCurrent (c.noteVenueRemaining r) := h.congr rfl rfl rfl rfl rfl

theorem DomainCurrent.raised {c : OrderCtx} (h : DomainCurrent c) (n : Nat) :
    DomainCurrent (raisedCtx c n) := by
  unfold raisedCtx
  split <;> exact h.congr rfl rfl rfl rfl rfl

theorem domainSum_booked {c : OrderCtx} {f : FillRecord} (hb : Bookable c f)
    (g : FillPayload → Nat) :
    domainSum (bookedBase c f) g = domainSum c g + if inDomain c f.tsNs then g f.payload else 0 :=
  OrdMap.sumBy_insert_new f.payload (fun p => if inDomain c p.tsNs then g p else 0) hb.fresh

theorem DomainCurrent.booked {c : OrderCtx} {f : FillRecord} (h : DomainCurrent c)
    (hb : Bookable c f) : DomainCurrent (bookedCtx c f) := by
  have hbase : bookedBase c f = (bookedBase c f).withDomain (min (domainSum c (·.qty)) u64Max)
      (min (domainSum c fun p => p.qty * p.priceCents) u128Max)
      (min (domainSum c (·.fee.getD 0)) u64Max) := by
    rw [← h.qty, ← h.notional, ← h.fee]
    rfl
  have hd : inDomain (bookedBase c f) f.tsNs = inDomain c f.tsNs := rfl
  have hctx : bookedCtx c f = recomputeResponseDomain (bookedBase c f) := by
    rw [recomputeResponseDomain_eq, domainSum_booked hb, domainSum_booked hb, domainSum_booked hb,
      bookedCtx, hbase, accumulate_withDomain, hd]
    rfl
  rw [hctx]
  exact recompute_current _

/-- Completing a payload moves its fee into the response domain, if the fill is in there. -/
theorem DomainCurrent.completed {c : OrderCtx} {f : FillRecord} {prev : FillPayload}
    (h : DomainCurrent c) (hc : Completes c f prev) : DomainCurrent (completedCtx c f prev) := by
  have hsum : ∀ g, domainSum (completedCtx c f prev) g +
      (if inDomain c prev.tsNs then g prev else 0) =
      domainSum c g + if inDomain c prev.tsNs then g (completedPayload prev f) else 0 := fun g =>
    OrdMap.sumBy_insert_old (completedPayload prev f) (fun p => if inDomain c p.tsNs then g p else 0)
      hc.known
  refine ⟨?_, ?_, ?_⟩
  · have hq := hsum (·.qty)
    have he : domainSum (completedCtx c f prev) (·.qty) = domainSum c (·.qty) := by
      simp only [completedPayload] at hq
      omega
    rw [he]
    exact h.qty
  · have hn := hsum fun p => p.qty * p.priceCents
    have he : (domainSum (completedCtx c f prev) fun p => p.qty * p.priceCents) =
        domainSum c fun p => p.qty * p.priceCents := by
      simp only [completedPayload] at hn
      omega
    rw [he]
    exact h.notional
  · have hf := hsum (·.fee.getD 0)
    simp only [completedPayload] at hf
    have hcomm : (fillInResponseDomain c prev.tsNs && c.responseFillCount.isSome) =
        inDomain c prev.tsNs := Bool.and_comm _ _
    rcases hc.fee with he | ⟨hp, fee, he, _⟩
    · have hd : feeDelta prev f = none := by simp [feeDelta, he]
      have hs : domainSum (completedCtx c f prev) (·.fee.getD 0) = domainSum c (·.fee.getD 0) := by
        rw [he] at hf
        omega
      rw [hs]
      simpa only [completedCtx, hd] using h.fee
    · have hd : feeDelta prev f = some fee := by simp [feeDelta, he, hp]
      have hs : domainSum (completedCtx c f prev) (·.fee.getD 0) =
          domainSum c (·.fee.getD 0) + if inDomain c prev.tsNs then fee else 0 := by
        simpa [he, hp] using hf
      rw [hs]
      simp only [completedCtx, hd, hcomm, h.fee]
      cases inDomain c prev.tsNs with
      | false => simp
      | true => simp only [if_true, saturatingAdd_min]

theorem Completion.current {c c' : OrderCtx} {fx : List Effect} (h : Completion c fx c')
    (hd : DomainCurrent c) : DomainCurrent c' := by
  obtain ⟨f, prev, hc, _, rfl⟩ := h
  exact hd.completed hc

theorem Settles.current {F : FillRecord → Prop} {c c' : OrderCtx} {fx : List Effect}
    (h : Settles F c fx c')
    (hd : DomainCurrent c) : DomainCurrent c' := by
  cases h with
  | book f _ hb => exact hd.booked hb
  | latch => exact hd.congr rfl rfl rfl rfl rfl

theorem Move.current {c c' : OrderCtx} {fx : List Effect} (h : Move P c fx c')
    (hd : DomainCurrent c) : DomainCurrent c' := by
  cases h with
  | idle _ => exact hd
  | echo _ _ _ => exact hd
  | invalidate => exact hd.congr rfl rfl rfl rfl rfl
  | bind _ _ => exact hd.congr rfl rfl rfl rfl rfl
  | raise _ _ => exact hd.raised _
  | complete h => exact h.current hd
  | settle h => exact h.current hd
  | remaining _ => exact hd.note _
  | observe _ _ _ => exact hd.note _
  | observeSettled _ _ hc hs =>
      exact hs.current (hc.preserves (I := fun _ c => DomainCurrent c) (l := [])
        (fun hd h => Completion.current h hd) (hd.note _))
  | observeRaise _ _ _ => exact (hd.note _).raised _
  | observeOver _ _ => exact hd.note _

theorem Moves.accounted {c c' : OrderCtx} {fx : List Effect} (h : Trail (Move P) c fx c')
    (ha : Accounted c) : Accounted c' :=
  h.preserves (I := fun _ c => Accounted c) (l := []) (fun ha h => Move.accounted h ha) ha

theorem Moves.current {c c' : OrderCtx} {fx : List Effect} (h : Trail (Move P) c fx c')
    (hd : DomainCurrent c) : DomainCurrent c' :=
  h.preserves (I := fun _ c => DomainCurrent c) (l := []) (fun hd h => Move.current h hd) hd

end Omsrs.Lifecycle
