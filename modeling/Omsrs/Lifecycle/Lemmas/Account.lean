import Omsrs.Lifecycle.Account

/-!
# What booking a fill can do

A fill is ignored, refused with nothing changed, booked under a new id, or it completes the payload
of a known id. The last two are described here without the branches of the source.
-/

namespace Omsrs.Lifecycle
open Omsrs.Lib

/-! ## A new fill -/

/-- The fill is new, names the bound venue and fits the quantity and the fee total. -/
structure Bookable (c : OrderCtx) (f : FillRecord) : Prop where
  fresh : c.appliedFills.get? f.fillId = none
  venue : ∀ v, c.venueOrderId = some v → f.venueOrderId = some v
  word : c.attributedFillQty + f.qty ≤ u64Max
  room : c.attributedFillQty + f.qty ≤ c.qty
  fee : c.attributedFeeCents + f.feeCents.getD 0 ≤ u64Max

/-- The context after a new fill, before the response domain follows. -/
def bookedBase (c : OrderCtx) (f : FillRecord) : OrderCtx :=
  { c with
    appliedFills := c.appliedFills.insert f.fillId f.payload
    attributedFillQty := c.attributedFillQty + f.qty
    attributedNotionalCents := saturatingAdd u128Max c.attributedNotionalCents (f.qty * f.priceCents)
    attributedFeeCents := c.attributedFeeCents + f.feeCents.getD 0
    fillObligation := max c.fillObligation (c.attributedFillQty + f.qty)
    authorityEpoch := saturatingAdd u64Max c.authorityEpoch 1
    authorityComplete := false }

def bookedCtx (c : OrderCtx) (f : FillRecord) : OrderCtx :=
  accumulateResponseDomain (bookedBase c f) f.qty f.priceCents f.feeCents f.tsNs

/-- The records of a new fill: the generation it opens, the obligation it may raise, itself. -/
def bookEffects (c : OrderCtx) (f : FillRecord) : List Effect :=
  .appendFsync (.authorityInvalidated (saturatingAdd u64Max c.authorityEpoch 1)) ::
    ((if c.fillObligation < c.attributedFillQty + f.qty then
        [.appendFsync (.obligationRaised (c.attributedFillQty + f.qty)
          (saturatingAdd u64Max c.authorityEpoch 1))] else []) ++
      fillEffects c f)

theorem firstSightingMismatch_none {c : OrderCtx} {f : FillRecord}
    (h : firstSightingMismatch c f = none) (hf : c.appliedFills.get? f.fillId = none) :
    ∀ v, c.venueOrderId = some v → f.venueOrderId = some v := by
  intro v hv
  have hc : c.appliedFills.contains f.fillId = false := OrdMap.contains_eq_false.mpr hf
  cases hg : f.venueOrderId with
  | none => simp [firstSightingMismatch, hv, hc, hg] at h
  | some got =>
      have hgot : got = v := by simpa [firstSightingMismatch, hv, hc, hg] using h
      rw [hgot]

theorem firstSightingMismatch_of_venue {c : OrderCtx} {f : FillRecord}
    (h : ∀ v, c.venueOrderId = some v → f.venueOrderId = some v) :
    firstSightingMismatch c f = none := by
  cases hv : c.venueOrderId with
  | none => simp only [firstSightingMismatch, hv]
  | some v =>
      simp only [firstSightingMismatch, hv, h v hv, if_true]
      split <;> rfl

theorem firstSightingMismatch_of_known {c : OrderCtx} {f : FillRecord} {p : FillPayload}
    (h : c.appliedFills.get? f.fillId = some p) : firstSightingMismatch c f = none := by
  have hc : c.appliedFills.contains f.fillId = true := OrdMap.contains_iff.mpr ⟨p, h⟩
  cases hv : c.venueOrderId <;> simp [firstSightingMismatch, hv, hc]

/-- A booking halts before anything changed, when the fill does not fit, or takes the fill in. -/
theorem bookFill_cases {c : OrderCtx} {f : FillRecord} (hv : firstSightingMismatch c f = none)
    (hf : c.appliedFills.get? f.fillId = none) :
    (¬ Bookable c f ∧ ∃ reason, bookFill c f false = (.halt reason [], c)) ∨
      (Bookable c f ∧ bookFill c f false =
        match responseDomainOverfillDetail (bookedCtx c f) with
        | some detail => (.halt (.crossCheckMismatch detail) (bookEffects c f), bookedCtx c f)
        | none => (.applied (bookEffects c f), bookedCtx c f)) := by
  unfold bookFill
  cases ha : checkedAdd u64Max c.attributedFillQty f.qty with
  | none =>
      refine .inl ⟨fun hb => ?_, _, rfl⟩
      have := checkedAdd_eq_none.mp ha
      have := hb.word
      omega
  | some newAttr =>
      obtain ⟨hword, rfl⟩ := checkedAdd_eq_some.mp ha
      dsimp only
      split
      · rename_i hover
        exact .inl ⟨fun hb => absurd hb.room (Nat.not_le.mpr hover), _, rfl⟩
      · rename_i hroom
        cases hfee : checkedAdd u64Max c.attributedFeeCents (f.feeCents.getD 0) with
        | none =>
            refine .inl ⟨fun hb => ?_, _, rfl⟩
            have := checkedAdd_eq_none.mp hfee
            have := hb.fee
            omega
        | some newFeeTotal =>
            obtain ⟨hsum, rfl⟩ := checkedAdd_eq_some.mp hfee
            refine .inr ⟨⟨hf, firstSightingMismatch_none hv hf, hword, by omega, hsum⟩, ?_⟩
            have hroom' : ¬ c.qty < c.attributedFillQty + f.qty := hroom
            by_cases hraise : c.fillObligation < c.attributedFillQty + f.qty
            · have hmax : max c.fillObligation (c.attributedFillQty + f.qty) =
                  c.attributedFillQty + f.qty := by omega
              simp only [insertFill, OrderCtx.invalidateAuthority, noteFillEvidence,
                OrderCtx.raiseFillObligation, hroom', hraise, pushJournal, settleDomain, fillEffects,
                bookedCtx, bookedBase, bookEffects, hmax, lt_irrefl, Bool.false_eq_true, if_true,
                if_false]
              rfl
            · have hmax : max c.fillObligation (c.attributedFillQty + f.qty) =
                  c.fillObligation := by omega
              simp only [insertFill, OrderCtx.invalidateAuthority, noteFillEvidence,
                OrderCtx.raiseFillObligation, hroom', hraise, pushJournal, settleDomain, fillEffects,
                bookedCtx, bookedBase, bookEffects, hmax, lt_irrefl, Bool.false_eq_true,
                if_false]
              rfl

/-! ## A known fill -/

/-- What a repeated fill adds to the fee. -/
def feeDelta (prev : FillPayload) (f : FillRecord) : Option Nat :=
  if prev.fee = f.feeCents then none else f.feeCents

/-- The fill is known as `prev` and only brings a venue or a fee that was missing. -/
structure Completes (c : OrderCtx) (f : FillRecord) (prev : FillPayload) : Prop where
  known : c.appliedFills.get? f.fillId = some prev
  qty : prev.qty = f.qty
  price : prev.priceCents = f.priceCents
  venue : prev.venueOrderId = f.venueOrderId ∨
    (prev.venueOrderId = none ∧ ∃ v, f.venueOrderId = some v ∧ ∀ b, c.venueOrderId = some b → v = b)
  fee : prev.fee = f.feeCents ∨
    (prev.fee = none ∧ ∃ fee, f.feeCents = some fee ∧ c.attributedFeeCents + fee ≤ u64Max)
  changed : ¬ (prev.venueOrderId = f.venueOrderId ∧ prev.fee = f.feeCents)

/-- The completed payload: the first timestamp stays. -/
def completedPayload (prev : FillPayload) (f : FillRecord) : FillPayload :=
  { prev with fee := f.feeCents, venueOrderId := f.venueOrderId }

def completedCtx (c : OrderCtx) (f : FillRecord) (prev : FillPayload) : OrderCtx :=
  { c with
    appliedFills := c.appliedFills.insert f.fillId (completedPayload prev f)
    attributedFeeCents := c.attributedFeeCents + (feeDelta prev f).getD 0
    responseDomainFeeCents :=
      match feeDelta prev f with
      | some delta =>
          if fillInResponseDomain c prev.tsNs && c.responseFillCount.isSome then
            saturatingAdd u64Max c.responseDomainFeeCents delta
          else c.responseDomainFeeCents
      | none => c.responseDomainFeeCents }

def completeEffects (c : OrderCtx) (f : FillRecord) (prev : FillPayload) : List Effect :=
  .appendFsync (fillJournalRecord c.clientOrderId { f with tsNs := prev.tsNs }) ::
    match feeDelta prev f with
    | some delta =>
        [.appendFsync (.feeCorrection f.fillId delta), .accountFeeCorrection f.fillId delta]
    | none => []

theorem upgradeVenue_cases (c : OrderCtx) (prev : FillPayload) (f : FillRecord) :
    (∃ reason, upgradeVenue c prev f = .error reason) ∨
      (prev.venueOrderId = f.venueOrderId ∧
        upgradeVenue c prev f = .ok (f.venueOrderId, false)) ∨
      (prev.venueOrderId = none ∧
        (∃ v, f.venueOrderId = some v ∧ ∀ b, c.venueOrderId = some b → v = b) ∧
        upgradeVenue c prev f = .ok (f.venueOrderId, true)) := by
  unfold upgradeVenue
  cases hp : prev.venueOrderId with
  | none =>
      cases hf : f.venueOrderId with
      | none => exact .inr (.inl ⟨rfl, rfl⟩)
      | some v =>
          cases hb : c.venueOrderId with
          | none => exact .inr (.inr ⟨rfl, ⟨v, rfl, by simp⟩, rfl⟩)
          | some bound =>
              by_cases hvb : v = bound
              · exact .inr (.inr ⟨rfl, ⟨v, rfl, by simp [hvb]⟩, by simp [hvb]⟩)
              · exact .inl ⟨_, by simp [hvb]; rfl⟩
  | some old =>
      cases hf : f.venueOrderId with
      | none => exact .inl ⟨_, rfl⟩
      | some new =>
          by_cases hon : old = new
          · exact .inr (.inl ⟨by rw [hon], by simp [hon]⟩)
          · exact .inl ⟨_, by simp [hon]; rfl⟩

theorem upgradeFee_cases (c : OrderCtx) (prev : FillPayload) (f : FillRecord) :
    (∃ reason, upgradeFee c prev f = .error reason) ∨
      (prev.fee = f.feeCents ∧ upgradeFee c prev f = .ok (f.feeCents, false, [], c)) ∨
      (∃ fee, prev.fee = none ∧ f.feeCents = some fee ∧ c.attributedFeeCents + fee ≤ u64Max ∧
        upgradeFee c prev f = .ok (f.feeCents, true,
          [.appendFsync (.feeCorrection f.fillId fee), .accountFeeCorrection f.fillId fee],
          { c with
            attributedFeeCents := c.attributedFeeCents + fee
            responseDomainFeeCents :=
              if fillInResponseDomain c prev.tsNs && c.responseFillCount.isSome then
                saturatingAdd u64Max c.responseDomainFeeCents fee
              else c.responseDomainFeeCents })) := by
  unfold upgradeFee
  cases hp : prev.fee with
  | none =>
      cases hf : f.feeCents with
      | none => exact .inr (.inl ⟨rfl, rfl⟩)
      | some fee =>
          cases ha : checkedAdd u64Max c.attributedFeeCents fee with
          | none => exact .inl ⟨.feeOverflow f.fillId, by simp only [ha]⟩
          | some total =>
              obtain ⟨hle, rfl⟩ := checkedAdd_eq_some.mp ha
              refine .inr (.inr ⟨fee, rfl, rfl, hle, ?_⟩)
              simp only [ha]
              split <;> rfl
  | some a =>
      cases hf : f.feeCents with
      | none => exact .inl ⟨_, rfl⟩
      | some b =>
          by_cases hab : a = b
          · exact .inr (.inl ⟨by rw [hab], by simp [hab]⟩)
          · exact .inl ⟨_, by simp [hab]; rfl⟩

/-- A repeated fill is ignored, refused with nothing changed, or completes the known payload. -/
theorem redeliverFill_cases {c : OrderCtx} {f : FillRecord} {prev : FillPayload}
    (hk : c.appliedFills.get? f.fillId = some prev) :
    redeliverFill c prev f = (.noOp, c) ∨
      (∃ reason, redeliverFill c prev f = (.halt reason [], c)) ∨
      (Completes c f prev ∧
        redeliverFill c prev f = (.enriched (completeEffects c f prev), completedCtx c f prev)) := by
  unfold redeliverFill
  split
  · exact .inl rfl
  · split
    · exact .inr (.inl ⟨_, rfl⟩)
    · rename_i _ heq
      obtain ⟨hq, hp⟩ : prev.qty = f.qty ∧ prev.priceCents = f.priceCents := by
        simpa only [ne_eq, not_or, Decidable.not_not] using heq
      rcases upgradeVenue_cases c prev f with ⟨reason, hv⟩ | ⟨hveq, hv⟩ | ⟨hvn, hvs, hv⟩
      · exact .inr (.inl ⟨reason, by simp only [hv]⟩)
      · rcases upgradeFee_cases c prev f with ⟨reason, hfe⟩ | ⟨hfeq, hfe⟩ | ⟨fee, hfn, hfs, hle, hfe⟩
        · exact .inr (.inl ⟨reason, by simp only [hv, hfe]⟩)
        · simp only [hv, hfe]
          split
          · split
            · exact .inl rfl
            · exact .inr (.inl ⟨_, rfl⟩)
          · simp_all
        · have hd : feeDelta prev f = some fee := by simp [feeDelta, hfn, hfs]
          refine .inr (.inr ⟨⟨hk, hq, hp, .inl hveq, .inr ⟨hfn, fee, hfs, hle⟩, ?_⟩, ?_⟩)
          · simp [hfn, hfs]
          · simp [hv, hfe, completeEffects, completedCtx, completedPayload, hd]
      · rcases upgradeFee_cases c prev f with ⟨reason, hfe⟩ | ⟨hfeq, hfe⟩ | ⟨fee, hfn, hfs, hle, hfe⟩
        · exact .inr (.inl ⟨reason, by simp only [hv, hfe]⟩)
        · have hd : feeDelta prev f = none := by simp [feeDelta, hfeq]
          refine .inr (.inr ⟨⟨hk, hq, hp, .inr ⟨hvn, hvs⟩, .inl hfeq, ?_⟩, ?_⟩)
          · obtain ⟨v, hvs, _⟩ := hvs
            simp [hvn, hvs]
          · simp [hv, hfe, completeEffects, completedCtx, completedPayload, hd]
        · have hd : feeDelta prev f = some fee := by simp [feeDelta, hfn, hfs]
          refine .inr (.inr ⟨⟨hk, hq, hp, .inr ⟨hvn, hvs⟩, .inr ⟨hfn, fee, hfs, hle⟩, ?_⟩, ?_⟩)
          · simp [hfn, hfs]
          · simp [hv, hfe, completeEffects, completedCtx, completedPayload, hd]

/-! ## One attempt, any fill -/

/-- What one attempt of `tryAccountFill` did: nothing, a completion or a booking. -/
inductive Accounting (c : OrderCtx) (f : FillRecord) : AccountAttempt → OrderCtx → Prop
  | ignored : Accounting c f .noOp c
  | refused (reason : HaltReason) : Accounting c f (.halt reason []) c
  | completed (prev : FillPayload) (h : Completes c f prev) :
      Accounting c f (.enriched (completeEffects c f prev)) (completedCtx c f prev)
  | booked (h : Bookable c f) (hd : responseDomainOverfillDetail (bookedCtx c f) = none) :
      Accounting c f (.applied (bookEffects c f)) (bookedCtx c f)
  | overfilled (h : Bookable c f) (detail : String) :
      Accounting c f (.halt (.crossCheckMismatch detail) (bookEffects c f)) (bookedCtx c f)

theorem tryAccountFill_accounting (c : OrderCtx) (f : FillRecord) :
    Accounting c f (tryAccountFill c f).1 (tryAccountFill c f).2 := by
  simp only [tryAccountFill, accountFillCore]
  cases hv : firstSightingMismatch c f with
  | some reason => exact .refused reason
  | none =>
      cases hk : c.appliedFills.get? f.fillId with
      | some prev =>
          dsimp only
          rcases redeliverFill_cases hk with he | ⟨reason, he⟩ | ⟨hc, he⟩
          · rw [he]; exact .ignored
          · rw [he]; exact .refused reason
          · rw [he]; exact .completed prev hc
      | none =>
          dsimp only
          rcases bookFill_cases hv hk with ⟨_, reason, he⟩ | ⟨hb, he⟩
          · rw [he]; exact .refused reason
          · rw [he]
            cases hd : responseDomainOverfillDetail (bookedCtx c f) with
            | some detail => exact .overfilled hb detail
            | none => exact .booked hb hd

/-- The attempt of a fill whose id is new and whose venue fits. -/
theorem tryAccountFill_new {c : OrderCtx} {f : FillRecord} (hv : firstSightingMismatch c f = none)
    (hf : c.appliedFills.get? f.fillId = none) :
    (¬ Bookable c f ∧ ∃ reason, tryAccountFill c f = (.halt reason [], c)) ∨
      (Bookable c f ∧ tryAccountFill c f =
        match responseDomainOverfillDetail (bookedCtx c f) with
        | some detail => (.halt (.crossCheckMismatch detail) (bookEffects c f), bookedCtx c f)
        | none => (.applied (bookEffects c f), bookedCtx c f)) := by
  simp only [tryAccountFill, accountFillCore, hv, hf]
  exact bookFill_cases hv hf

end Omsrs.Lifecycle
