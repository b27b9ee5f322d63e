import Omsrs.Lifecycle.Lemmas.Steps

/-!
# A submission, its create response and its fills

The context of a started submission is a function of which fills were booked and whether the response
is in, whatever their order. Only the generations count the steps.
-/

namespace Omsrs.Lifecycle
open Omsrs.Lib

variable {b c d : OrderCtx} {fs : List FillRecord} {f : FillRecord} {fx : List Effect}

/-! ## The response -/

structure CreateResponse where
  venueOrderId : VenueOrderId
  fillCount : Nat
  remainingCount : Nat
  avgPriceCents : Option Nat
  feeCents : Option Nat
  snapshotBoundary : Option SnapshotBoundary
deriving DecidableEq

namespace CreateResponse

def event (r : CreateResponse) : OrderEvent :=
  .submitResponse r.venueOrderId r.fillCount r.remainingCount r.avgPriceCents r.feeCents
    r.snapshotBoundary

/-- What a context keeps of a response; one that counts no fills is not kept. -/
def kept (r : CreateResponse) :
    Option Nat × Option Nat × Option Nat × Option Nat × Option SnapshotBoundary :=
  if r.fillCount = 0 then (none, none, none, none, none)
  else
    (some r.fillCount, some r.remainingCount, r.avgPriceCents, r.feeCents, r.snapshotBoundary)

/-- The boundary decides which fills the response counts. -/
def bounded (r : CreateResponse) : Bool :=
  match r.snapshotBoundary with
  | some (.tsNs _) => true
  | _ => false

def covers (r : CreateResponse) (tsNs : Int) : Bool :=
  match r.snapshotBoundary with
  | some (.tsNs boundary) => decide (tsNs ≤ boundary)
  | _ => false

/-- The sum of `g` over the fills the response's snapshot covers. -/
def covered (r : CreateResponse) (g : FillPayload → Nat) (fs : List FillRecord) : Nat :=
  (fs.map fun f => if r.covers f.tsNs then g f.payload else 0).sum

/-- The covered fills agree with the response's remaining quantity, average price and fee. -/
structure Matches (r : CreateResponse) (qty : Nat) (fs : List FillRecord) : Prop where
  remaining : qty - r.fillCount = r.remainingCount
  average : r.avgPriceCents.bind (notionalAvgMismatch
    (min (r.covered (fun p => p.qty * p.priceCents) fs) u128Max) · r.fillCount) = none
  fee : feeCrossCheckMismatch r.feeCents (min (r.covered (·.fee.getD 0) fs) u64Max) = none

/-- The response and the fills do not contradict each other. -/
def Confirms (r : CreateResponse) (qty : Nat) (fs : List FillRecord) : Prop :=
  (r.fillCount = 0 ∧ (r.remainingCount = qty ∨ (r.remainingCount = 0 ∧ fs = []))) ∨
    (0 < r.fillCount ∧ r.fillCount ≤ qty ∧
      (r.bounded = true → r.covered (·.qty) fs ≤ r.fillCount ∧
        (r.covered (·.qty) fs = r.fillCount → r.Matches qty fs)))

end CreateResponse

/-- The fills fit the order quantity and the machine words. -/
structure Fits (qty : Nat) (fs : List FillRecord) : Prop where
  room : (fs.map (·.qty)).sum ≤ qty
  word : (fs.map (·.qty)).sum ≤ u64Max
  fee : (fs.map (·.feeCents.getD 0)).sum ≤ u64Max

theorem covered_le (r : CreateResponse) (g : FillPayload → Nat) (fs : List FillRecord) :
    r.covered g fs ≤ (fs.map fun f => g f.payload).sum := by
  induction fs with
  | nil => exact le_rfl
  | cons f fs ih =>
      simp only [CreateResponse.covered, List.map_cons, List.sum_cons] at ih ⊢
      split <;> omega

theorem covered_append (r : CreateResponse) (g : FillPayload → Nat) (fs gs : List FillRecord) :
    r.covered g (fs ++ gs) = r.covered g fs + r.covered g gs := by
  simp [CreateResponse.covered]

/-- Fills of positive quantity that add nothing to the covered quantity are not covered. -/
theorem covered_zero {r : CreateResponse} (hpos : ∀ f ∈ fs, 0 < f.qty) (h : r.covered (·.qty) fs = 0)
    (g : FillPayload → Nat) : r.covered g fs = 0 := by
  induction fs with
  | nil => rfl
  | cons f fs ih =>
      have hf : 0 < f.payload.qty := hpos f (by simp)
      simp only [CreateResponse.covered, List.map_cons, List.sum_cons] at h ih ⊢
      split at h
      · omega
      · rename_i hout
        have hrest := ih (fun f' hf' => hpos f' (by simp [hf'])) (by omega)
        simp only [hout, Bool.false_eq_true, if_false]
        omega

/-- A response that is confirmed was not contradicted by a part of the fills. -/
theorem CreateResponse.Confirms.part {r : CreateResponse} {qty : Nat} {fs gs : List FillRecord}
    (hpos : ∀ f ∈ gs, 0 < f.qty) (h : r.Confirms qty (fs ++ gs)) : r.Confirms qty fs := by
  rcases h with ⟨hr, hm | ⟨hm, hnil⟩⟩ | ⟨hr, hle, hb⟩
  · exact .inl ⟨hr, .inl hm⟩
  · exact .inl ⟨hr, .inr ⟨hm, (List.append_eq_nil_iff.mp hnil).1⟩⟩
  · refine .inr ⟨hr, hle, fun hbound => ?_⟩
    obtain ⟨hsum, hmatch⟩ := hb hbound
    rw [covered_append] at hsum hmatch
    refine ⟨by omega, fun heq => ?_⟩
    have hzero := covered_zero hpos (show r.covered (·.qty) gs = 0 by omega)
    obtain ⟨hrem, havg, hfee⟩ := hmatch (by omega)
    simp only [covered_append, hzero, Nat.add_zero] at havg hfee
    exact ⟨hrem, havg, hfee⟩

/-- Fills outside the response's domain leave a closed one confirmed. -/
theorem CreateResponse.Confirms.extend {r : CreateResponse} {qty : Nat} {fs gs : List FillRecord}
    (hpos : ∀ f ∈ gs, 0 < f.qty) (h : r.Confirms qty fs) (hm : ¬ (r.fillCount = 0 ∧ r.remainingCount ≠ qty))
    (hclosed : r.bounded = true → r.fillCount ≤ r.covered (·.qty) fs)
    (hover : r.bounded = true → 0 < r.fillCount → r.covered (·.qty) (fs ++ gs) ≤ r.fillCount) :
    r.Confirms qty (fs ++ gs) := by
  rcases h with ⟨hr, _⟩ | ⟨hr, hle, hb⟩
  · exact .inl ⟨hr, .inl (by omega)⟩
  · refine .inr ⟨hr, hle, fun hbound => ?_⟩
    have hsum := hover hbound hr
    have hfull := hclosed hbound
    refine ⟨hsum, fun _ => ?_⟩
    rw [covered_append] at hsum
    have hzero := covered_zero hpos (show r.covered (·.qty) gs = 0 by omega)
    obtain ⟨hrem, havg, hfee⟩ := (hb hbound).2 (by omega)
    refine ⟨hrem, ?_, ?_⟩
    · rwa [covered_append, hzero, Nat.add_zero]
    · rwa [covered_append, hzero, Nat.add_zero]

/-! ## The context -/

/-- What an order is created with. -/
def OrderCtx.identity (c : OrderCtx) : ClientOrderId × String × String × Side × Nat × Nat :=
  (c.clientOrderId, c.market, c.strategy, c.side, c.priceCents, c.qty)

/-- The context of the order created as `b`, with the fills `fs` booked and the response `r?` in. -/
structure Holds (b : OrderCtx) (r? : Option CreateResponse) (fs : List FillRecord) (c : OrderCtx) :
    Prop where
  identity : c.identity = b.identity
  fills : ∀ fid p, c.appliedFills.get? fid = some p ↔ ∃ f ∈ fs, f.fillId = fid ∧ f.payload = p
  sums : ∀ g, c.appliedFills.sumBy g = (fs.map fun f => g f.payload).sum
  accounted : Accounted c
  current : DomainCurrent c
  venue : c.venueOrderId = r?.map (·.venueOrderId)
  remaining : c.lastVenueRemainingQty = r?.map (·.remainingCount)
  response : c.response = (r?.map (·.kept)).getD (none, none, none, none, none)
  obligation : c.fillObligation = max ((r?.map (·.fillCount)).getD 0) c.attributedFillQty

variable {r : CreateResponse} {r? : Option CreateResponse}

theorem Holds.attributed (h : Holds b r? fs c) : c.attributedFillQty = (fs.map (·.qty)).sum :=
  h.accounted.qty.trans (h.sums _)

theorem Holds.fees (h : Holds b r? fs c) :
    c.attributedFeeCents = (fs.map (·.feeCents.getD 0)).sum :=
  h.accounted.fee.trans (h.sums _)

theorem Holds.qty (h : Holds b r? fs c) : c.qty = b.qty :=
  congrArg (·.2.2.2.2.2) h.identity

theorem Holds.fits (h : Holds b r? fs c) : Fits b.qty fs := by
  refine ⟨?_, h.attributed ▸ h.accounted.qtyWord, h.fees ▸ h.accounted.feeWord⟩
  rw [← h.attributed, ← h.qty]
  exact h.accounted.covered.trans h.accounted.bounded

/-- A fill fits exactly when the batch with it does. -/
theorem Holds.bookable_iff (h : Holds b r? fs c) (hnew : c.appliedFills.get? f.fillId = none)
    (hv : ∀ v, c.venueOrderId = some v → f.venueOrderId = some v) :
    Bookable c f ↔ Fits b.qty (fs ++ [f]) := by
  have hq := h.attributed
  have hf := h.fees
  have hb := h.qty
  constructor
  · intro hbook
    have hroom := hbook.room
    have hword := hbook.word
    have hfee := hbook.fee
    refine ⟨?_, ?_, ?_⟩ <;> simp only [List.map_append, List.map_cons, List.map_nil, List.sum_append,
      List.sum_cons, List.sum_nil] <;> omega
  · intro hfits
    obtain ⟨hroom, hword, hfee⟩ := hfits
    simp only [List.map_append, List.map_cons, List.map_nil, List.sum_append, List.sum_cons,
      List.sum_nil] at hroom hword hfee
    exact ⟨hnew, hv, by omega, by omega, by omega⟩

theorem Holds.booked (h : Holds b r? fs c) (hb : Bookable c f) :
    Holds b r? (fs ++ [f]) (bookedCtx c f) := by
  have hacc := h.accounted.booked hb
  have hcur := h.current.booked hb
  obtain ⟨q, n, g, he⟩ :=
    accumulateResponseDomain_eq (bookedBase c f) f.qty f.priceCents f.feeCents f.tsNs
  rw [bookedCtx, he] at hacc hcur ⊢
  refine ⟨h.identity, fun fid p => ?_, fun g => ?_, hacc, hcur, h.venue, h.remaining, h.response, ?_⟩
  · have hget : ((c.appliedFills.insert f.fillId f.payload).get? fid = some p) ↔
        (fid = f.fillId ∧ f.payload = p) ∨ (fid ≠ f.fillId ∧ c.appliedFills.get? fid = some p) := by
      rw [OrdMap.get?_insert]
      split <;> simp_all
    refine hget.trans ?_
    simp only [List.mem_append, List.mem_singleton, h.fills]
    constructor
    · rintro (⟨rfl, rfl⟩ | ⟨_, f', hf', rfl, rfl⟩)
      · exact ⟨f, .inr rfl, rfl, rfl⟩
      · exact ⟨f', .inl hf', rfl, rfl⟩
    · rintro ⟨f', hf' | rfl, rfl, rfl⟩
      · refine .inr ⟨fun heq => ?_, f', hf', rfl, rfl⟩
        have hknown : c.appliedFills.get? f'.fillId = some f'.payload :=
          (h.fills _ _).mpr ⟨f', hf', rfl, rfl⟩
        rw [heq, hb.fresh] at hknown
        cases hknown
      · exact .inl ⟨rfl, rfl⟩
  · simp only [bookedBase, OrdMap.sumBy_insert_new _ _ hb.fresh, h.sums, List.map_append,
      List.map_cons, List.map_nil, List.sum_append, List.sum_cons, List.sum_nil, Nat.add_zero]
  · simp only [bookedBase, h.obligation]
    omega

/-! ## Taking the response in -/

/-- The bound identity fits the fills that came before it. -/
theorem Holds.bind (h : Holds b none fs c) {v : VenueOrderId}
    (hfs : ∀ f ∈ fs, f.venueOrderId = some v) :
    bindVenueId c v = .ok (some (.venueBoundCid c.clientOrderId v), { c with venueOrderId := some v }) := by
  have hn : c.venueOrderId = none := h.venue
  have hfree : boundElsewhere v c.appliedFills.entries = none := by
    refine List.findSome?_eq_none_iff.mpr fun ⟨fid, p⟩ hmem => ?_
    obtain ⟨f, hf, _, rfl⟩ := (h.fills fid p).mp (OrdMap.mem_entries.mp hmem)
    simp [FillRecord.payload, hfs f hf]
  simp only [bindVenueId, hn, hfree]

theorem Holds.emptied (h : Holds b none fs c) (hr : r.fillCount = 0) :
    Holds b (some r) fs
      (OrderCtx.noteVenueRemaining { c with venueOrderId := some r.venueOrderId } r.remainingCount) := by
  have hacc : Accounted { c with venueOrderId := some r.venueOrderId } :=
    h.accounted.congr rfl rfl rfl rfl le_rfl h.accounted.bounded
  have hcur : DomainCurrent { c with venueOrderId := some r.venueOrderId } :=
    h.current.congr rfl rfl rfl rfl rfl
  refine ⟨h.identity, h.fills, h.sums, hacc.note _, hcur.note _, rfl, rfl, ?_, ?_⟩
  · refine h.response.trans ?_
    simp [CreateResponse.kept, hr]
  · have hob : c.fillObligation = c.attributedFillQty := by simpa using h.obligation
    refine hob.trans ?_
    rw [Option.map_some, Option.getD_some, hr, Nat.zero_max]
    rfl

/-- A raise changes the obligation, the generation and the latch, which it never sets. -/
theorem raiseFillObligation_fields {n : Nat} (h : c.raiseFillObligation n = .ok d) :
    ∃ e a, d = { c with
      fillObligation := max n c.fillObligation, authorityEpoch := e, authorityComplete := a } ∧
      (c.authorityComplete = false → a = false) := by
  obtain ⟨_, ⟨hle, rfl⟩ | ⟨hlt, rfl⟩⟩ := raiseFillObligation_ok h
  · exact ⟨d.authorityEpoch, d.authorityComplete, by rw [max_eq_right hle], id⟩
  · unfold raisedCtx
    rw [max_eq_left hlt.le]
    split
    · exact ⟨_, _, rfl, fun _ => rfl⟩
    · exact ⟨_, _, rfl, id⟩

/-- The context after the response's own fields, before the obligation follows. -/
def answeredCtx (r : CreateResponse) (c : OrderCtx) : OrderCtx :=
  setResponse (OrderCtx.noteVenueRemaining { c with venueOrderId := some r.venueOrderId }
    r.remainingCount) r.fillCount r.remainingCount r.avgPriceCents r.feeCents r.snapshotBoundary

theorem Holds.counted (h : Holds b none fs c) (hr : 0 < r.fillCount)
    (hd : (answeredCtx r c).raiseFillObligation r.fillCount = .ok d) :
    Holds b (some r) fs (recomputeResponseDomain d) := by
  have hacc : Accounted (OrderCtx.noteVenueRemaining { c with venueOrderId := some r.venueOrderId }
      r.remainingCount) := h.accounted.congr rfl rfl rfl rfl le_rfl h.accounted.bounded
  have hd' := (setResponse_raised hacc hd).1.recompute
  have hcur := recompute_current d
  have hob : c.fillObligation = c.attributedFillQty := by simpa using h.obligation
  have hresp : (answeredCtx r c).response = r.kept := by
    simp only [CreateResponse.kept, Nat.pos_iff_ne_zero.mp hr, if_false]
    rfl
  obtain ⟨e, a, rfl, _⟩ := raiseFillObligation_fields hd
  rw [recomputeResponseDomain_eq] at hcur hd' ⊢
  exact ⟨h.identity, h.fills, h.sums, hd', hcur, rfl, rfl, hresp, congrArg (max _) hob⟩

/-! ## The response domain -/

/-- A counted response as the context has it. -/
structure Counted (r : CreateResponse) (c : OrderCtx) : Prop where
  count : c.responseFillCount = some r.fillCount
  average : c.responseAvgPriceCents = r.avgPriceCents
  fee : c.responseFeeCents = r.feeCents
  boundary : c.responseSnapshotBoundary = r.snapshotBoundary

theorem Holds.count (h : Holds b (some r) fs c) (hr : 0 < r.fillCount) : Counted r c := by
  have hresp := h.response
  simp only [Option.map_some, Option.getD_some, CreateResponse.kept, Nat.pos_iff_ne_zero.mp hr,
    if_false, OrderCtx.response, Prod.mk.injEq] at hresp
  exact ⟨hresp.1, hresp.2.2.1, hresp.2.2.2.1, hresp.2.2.2.2⟩

theorem Holds.uncounted (h : Holds b (some r) fs c) (hr : r.fillCount = 0) :
    c.responseFillCount = none := by
  have hresp := h.response
  simp only [Option.map_some, Option.getD_some, CreateResponse.kept, hr, if_true, OrderCtx.response,
    Prod.mk.injEq] at hresp
  exact hresp.1

theorem Counted.bounded (h : Counted r c) : hasReliableBoundary c = r.bounded := by
  simp only [hasReliableBoundary, h.boundary]
  rfl

theorem Counted.inDomain (h : Counted r c) (tsNs : Int) : inDomain c tsNs = r.covers tsNs := by
  simp only [Lifecycle.inDomain, fillInResponseDomain, h.count, h.boundary, Option.isSome_some,
    Bool.true_and]
  rfl

/-- The accumulators are the sums over the covered fills. -/
theorem Holds.domain (h : Holds b (some r) fs c) (hr : 0 < r.fillCount) :
    c.responseDomainQty = r.covered (·.qty) fs ∧
      c.responseDomainNotionalCents =
        min (r.covered (fun p => p.qty * p.priceCents) fs) u128Max ∧
      c.responseDomainFeeCents = min (r.covered (·.fee.getD 0) fs) u64Max := by
  have hsum : ∀ g, domainSum c g = r.covered g fs := by
    intro g
    refine (h.sums _).trans ?_
    simp only [(h.count hr).inDomain]
    rfl
  have hle : r.covered (·.qty) fs ≤ u64Max := (covered_le r _ fs).trans h.fits.word
  refine ⟨?_, ?_, ?_⟩
  · rw [h.current.qty, hsum, min_eq_left hle]
  · rw [h.current.notional, hsum]
  · rw [h.current.fee, hsum]

/-! ## The verdict -/

namespace CreateResponse

/-- Fills that the response counts are still missing. -/
def waits (r : CreateResponse) (c : OrderCtx) : Bool :=
  decide ((if r.bounded then c.responseDomainQty else c.attributedFillQty) < r.fillCount)

end CreateResponse

theorem Holds.counts_le (h : Holds b (some r) fs c) : r.fillCount ≤ b.qty := by
  have hob := h.obligation
  have hb := h.accounted.bounded
  rw [h.qty] at hb
  simp only [Option.map_some, Option.getD_some] at hob
  omega

/-- While fills are missing nothing contradicts the response. -/
theorem Holds.confirms_of_waits (h : Holds b (some r) fs c) (hw : r.waits c = true) :
    r.Confirms b.qty fs := by
  have hlt := of_decide_eq_true hw
  have hr : 0 < r.fillCount := by omega
  refine .inr ⟨hr, h.counts_le, fun hb => ?_⟩
  rw [hb, if_pos rfl, (h.domain hr).1] at hlt
  exact ⟨hlt.le, fun heq => absurd heq hlt.ne⟩

/-- Once the counted fills are in, a response that is confirmed passes the terminal gate. -/
theorem Holds.gate (h : Holds b (some r) fs c) (hc : r.Confirms b.qty fs) (hw : r.waits c = false) :
    responseDomainGate c = none := by
  rcases hc with ⟨hr, _⟩ | ⟨hr, _, hc⟩
  · simp only [responseDomainGate, h.uncounted hr]
  · have hk := h.count hr
    obtain ⟨hq, hn, hf⟩ := h.domain hr
    cases hb : r.bounded with
    | false => simp only [responseDomainGate, hk.count, hk.bounded, hb, Bool.false_eq_true, if_false]
    | true =>
        obtain ⟨hle, hm⟩ := hc hb
        have hge : ¬ c.responseDomainQty < r.fillCount := by
          have := of_decide_eq_false hw
          rwa [hb, if_pos rfl] at this
        have heq : c.responseDomainQty = r.fillCount := by omega
        obtain ⟨_, havg, hfee⟩ := hm (hq ▸ heq)
        simp only [responseDomainGate, hk.count, hk.bounded, hb, heq, lt_irrefl, if_true, if_false,
          hk.average, hk.fee, hn, hf, havg, hfee]

/-- The check of a waiting response waits, resolves a confirmed one, or halts. -/
theorem Holds.check (h : Holds b (some r) fs c) (hr : 0 < r.fillCount) :
    (r.waits c = true ∧ checkUnattributed c r.fillCount r.remainingCount r.avgPriceCents r.feeCents =
      .wait) ∨
    (r.waits c = false ∧ r.Confirms b.qty fs ∧ checkUnattributed c r.fillCount r.remainingCount
      r.avgPriceCents r.feeCents = .resolved) ∨
    (¬ r.Confirms b.qty fs ∧ ∃ reason, checkUnattributed c r.fillCount r.remainingCount
      r.avgPriceCents r.feeCents = .halt reason) := by
  have hk := h.count hr
  obtain ⟨hq, hn, hf⟩ := h.domain hr
  have hqty := h.qty
  have hroom : c.attributedFillQty ≤ c.qty := h.accounted.covered.trans h.accounted.bounded
  cases hb : r.bounded with
  | false =>
      simp only [checkUnattributed, hk.bounded, CreateResponse.waits, hb, Bool.false_eq_true, if_false]
      by_cases hlt : c.attributedFillQty < r.fillCount
      · exact .inl ⟨decide_eq_true hlt, if_pos hlt⟩
      · have hrem : c.remainingQtyChecked.isNone = false := by
          simp [OrderCtx.remainingQtyChecked, checkedSub, hroom]
        refine .inr (.inl ⟨decide_eq_false hlt, .inr ⟨hr, h.counts_le, by simp [hb]⟩, ?_⟩)
        simp only [hlt, hrem, Bool.false_eq_true, if_false]
  | true =>
      have hconf : r.Confirms b.qty fs → c.responseDomainQty ≤ r.fillCount ∧
          (c.responseDomainQty = r.fillCount → r.Matches c.qty fs) := by
        rintro (⟨hz, _⟩ | ⟨_, _, hc⟩)
        · exact absurd hz (Nat.pos_iff_ne_zero.mp hr)
        · rw [hq, hqty]
          exact hc hb
      simp only [checkUnattributed, hk.bounded, hk.average, hk.fee, Option.or_self,
        CreateResponse.waits, hb, if_true]
      by_cases hlt : c.responseDomainQty < r.fillCount
      · exact .inl ⟨decide_eq_true hlt, if_pos hlt⟩
      rw [if_neg hlt]
      by_cases heq : c.responseDomainQty = r.fillCount
      · rw [if_neg (not_not.mpr heq)]
        split
        · rename_i hm
          exact .inr (.inr ⟨fun hc => hm ((hconf hc).2 heq).remaining, _, rfl⟩)
        · rename_i hm
          rw [hn, hf]
          split
          · rename_i havg
            refine .inr (.inr ⟨fun hc => ?_, _, rfl⟩)
            rw [((hconf hc).2 heq).average] at havg
            cases havg
          · rename_i havg
            split
            · rename_i hfee
              refine .inr (.inr ⟨fun hc => ?_, _, rfl⟩)
              rw [((hconf hc).2 heq).fee] at hfee
              cases hfee
            · rename_i hfee
              refine .inr (.inl ⟨decide_eq_false hlt, ?_, rfl⟩)
              exact .inr ⟨hr, h.counts_le, fun _ => ⟨(hq ▸ heq).le, fun _ =>
                ⟨hqty ▸ not_not.mp hm, havg, hfee⟩⟩⟩
      · rw [if_pos heq]
        exact .inr (.inr ⟨fun hc => heq (le_antisymm (hconf hc).1 (Nat.not_lt.mp hlt)), _, rfl⟩)

end Omsrs.Lifecycle
