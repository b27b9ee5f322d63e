import Omsrs.Lifecycle.Theorems.ExactlyOnce
import Omsrs.Lifecycle.Theorems.Reservation

/-!
# Release safety

The reservation is released behind the terminal gate only, and what the gate reads off the context is
true of the fills that were booked.
-/

namespace Omsrs.Lifecycle
open Omsrs.Lib

variable {P : Scope} {c d : OrderCtx} {fx : List Effect}

/-! ## What the gate says -/

theorem ownershipBlock_none {v : VenueOrderId} {fills : List (FillId × FillPayload)}
    (h : ownershipBlock v fills = none) : ∀ e ∈ fills, e.2.venueOrderId = some v := by
  intro e he
  have := List.findSome?_eq_none_iff.mp h e he
  obtain ⟨fid, p⟩ := e
  dsimp only at this ⊢
  split at this
  · rename_i got hgot
    split at this
    · rename_i heq
      rw [hgot, heq]
    · cases this
  · cases this

/-- The gates one by one. -/
theorem finalizeGate_none (h : finalizeGate c = none) :
    ownershipGate c = none ∧ c.authorityIsFresh = true ∧ c.attributedFillQty = c.fillObligation ∧
      responseDomainGate c = none := by
  unfold finalizeGate at h
  split at h
  · cases h
  · rename_i hown
    split at h
    · cases h
    · rename_i hfresh
      split at h
      · cases h
      · rename_i heq
        exact ⟨hown, by simpa using hfresh, by simpa using heq, h⟩

theorem ownershipGate_none {v : VenueOrderId} (hv : c.venueOrderId = some v)
    (h : ownershipGate c = none) {fid : FillId} {p : FillPayload}
    (hp : c.appliedFills.get? fid = some p) : p.venueOrderId = some v := by
  simp only [ownershipGate, hv] at h
  split at h
  · rename_i hb
    exact ownershipBlock_none hb (fid, p) (OrdMap.mem_entries.mpr hp)
  · cases h
  · cases h

/-- The sum of `g` over the applied fills up to a snapshot boundary. -/
def sumUpTo (c : OrderCtx) (boundary : Int) (g : FillPayload → Nat) : Nat :=
  c.appliedFills.sumBy fun p => if p.tsNs ≤ boundary then g p else 0

theorem domainSum_upTo {rc : Nat} {boundary : Int} (hrc : c.responseFillCount = some rc)
    (hb : c.responseSnapshotBoundary = some (.tsNs boundary)) (g : FillPayload → Nat) :
    domainSum c g = sumUpTo c boundary g := by
  simp only [domainSum, sumUpTo, inDomain, fillInResponseDomain, hrc, hb, Option.isSome_some,
    Bool.true_and, decide_eq_true_eq]

theorem sumUpTo_le (c : OrderCtx) (boundary : Int) (g : FillPayload → Nat) :
    sumUpTo c boundary g ≤ c.appliedFills.sumBy g :=
  OrdMap.sumBy_le_sumBy fun p _ => by split <;> omega

theorem notionalAvgMismatch_none {n avg rc : Nat} (hpos : 0 < rc)
    (h : notionalAvgMismatch n avg rc = none) : avg * rc ≤ n + rc ∧ n ≤ avg * rc + rc := by
  unfold notionalAvgMismatch at h
  rw [if_neg (by omega)] at h
  dsimp only at h
  have hdiff : ¬ rc < (if avg * rc ≤ n then n - avg * rc else avg * rc - n) := by
    intro hlt
    rw [if_pos hlt] at h
    cases h
  split at hdiff <;> omega

theorem feeCrossCheckMismatch_none {fee n : Nat} (h : feeCrossCheckMismatch (some fee) n = none) :
    fee = n := by
  simp only [feeCrossCheckMismatch] at h
  split at h
  · cases h
  · rename_i heq
    simpa using heq

/-- Fills without quantity have no notional. -/
theorem sumUpTo_zero {boundary : Int} (h : sumUpTo c boundary (·.qty) = 0) :
    (sumUpTo c boundary fun p => p.qty * p.priceCents) = 0 := by
  have hz : (sumUpTo c boundary fun p => p.qty * p.priceCents) =
      c.appliedFills.sumBy fun _ => 0 := by
    refine OrdMap.sumBy_congr fun p hp => ?_
    obtain ⟨fid, hfid⟩ := OrdMap.mem_values.mp hp
    have hle := OrdMap.le_sumBy (fun p => if p.tsNs ≤ boundary then p.qty else 0) hfid
    have hle' : (if p.tsNs ≤ boundary then p.qty else 0) ≤ 0 := hle.trans (Nat.le_of_eq h)
    split
    · rename_i hts
      rw [if_pos hts] at hle'
      have hq : p.qty = 0 := Nat.le_zero.mp hle'
      simp only [hq, Nat.zero_mul]
    · rfl
  rw [hz]
  simp [OrdMap.sumBy]

/-- The response domain's gate, where nothing saturates: the covered fills are the counted ones. -/
theorem responseDomainGate_none (ha : Accounted c) (hd : DomainCurrent c) (hp : Priced c)
    (h : responseDomainGate c = none) {rc : Nat} {boundary : Int}
    (hrc : c.responseFillCount = some rc)
    (hb : c.responseSnapshotBoundary = some (.tsNs boundary)) :
    sumUpTo c boundary (·.qty) = rc ∧
      (∀ avg, c.responseAvgPriceCents = some avg →
        avg * rc ≤ (sumUpTo c boundary fun p => p.qty * p.priceCents) + rc ∧
          (sumUpTo c boundary fun p => p.qty * p.priceCents) ≤ avg * rc + rc) ∧
      ∀ fee, c.responseFeeCents = some fee → fee = sumUpTo c boundary (·.fee.getD 0) := by
  have hqty : c.responseDomainQty = sumUpTo c boundary (·.qty) := by
    have hle : sumUpTo c boundary (·.qty) ≤ u64Max :=
      (sumUpTo_le c boundary _).trans (ha.qty ▸ ha.qtyWord)
    rw [hd.qty, domainSum_upTo hrc hb, Nat.min_eq_left hle]
  have hnot : c.responseDomainNotionalCents = sumUpTo c boundary fun p => p.qty * p.priceCents := by
    rw [hd.notional, domainSum_upTo hrc hb,
      Nat.min_eq_left ((sumUpTo_le c boundary _).trans (notional_le ha hp))]
  have hfee : c.responseDomainFeeCents = sumUpTo c boundary (·.fee.getD 0) := by
    have hle : sumUpTo c boundary (·.fee.getD 0) ≤ u64Max :=
      (sumUpTo_le c boundary _).trans (ha.fee ▸ ha.feeWord)
    rw [hd.fee, domainSum_upTo hrc hb, Nat.min_eq_left hle]
  have hrel : hasReliableBoundary c = true := by simp [hasReliableBoundary, hb]
  simp only [responseDomainGate, hrc, hrel, if_true] at h
  split at h
  · cases h
  · rename_i hlo
    split at h
    · cases h
    · rename_i hhi
      have hcount : sumUpTo c boundary (·.qty) = rc := by omega
      split at h
      · cases h
      · rename_i havg
        split at h
        · cases h
        · rename_i hfeeOk
          refine ⟨hcount, fun avg ha' => ?_, fun fee hf => ?_⟩
          · rw [ha', Option.bind_some, hnot] at havg
            by_cases hpos : 0 < rc
            · exact notionalAvgMismatch_none hpos havg
            · obtain rfl : rc = 0 := by omega
              rw [sumUpTo_zero hcount]
              omega
          · rw [hf, hfee] at hfeeOk
            exact feeCrossCheckMismatch_none hfeeOk

/-! ## Which steps release -/

theorem not_release_of_count (h : releases fx = 0) : Effect.releaseReservation ∉ fx :=
  List.count_eq_zero.mp h

/-- A step that releases went through the gate, and its event was no cancel. -/
theorem Stepped.release {o : Order} {e : OrderEvent} {out : TransitionOutcome}
    (h : Stepped P o e out d) (hr : .releaseReservation ∈ out.effects) :
    e.isCancel = false ∧ ∃ kind, Released kind d ∧ out.newState = some (terminalState kind) := by
  have hnone : ∀ {fx : List Effect}, (∀ g ∈ fx, g.isReservation = false) →
      Effect.releaseReservation ∉ fx := fun h hmem => by cases h _ hmem
  cases h with
  | rejected _ => cases hr
  | landed _ h =>
      cases h with
      | accepted _ ht _ => exact absurd hr (hnone (Deeds.unreserved ht))
      | halted ht reason =>
          exact absurd hr (not_release_of_count (counts_halt (Deeds.unreserved ht) reason).1)
      | @released kind _ _ hc _ hd => exact ⟨hc, kind, hd, rfl⟩
  | refused _ h => exact absurd hr (not_release_of_count (counts_halt h.unreserved _).1)
  | stranded h => simp [TransitionOutcome.effects] at hr
  | closed _ _ _ => cases hr
  | frozen _ _ ht => exact absurd hr (hnone (ht.writes fun h => Completion.unreserved h))
  | @thawed _ reason fx _ _ _ ht =>
      have hu := Deeds.unreserved (Moves.deeds ht)
      refine absurd hr ?_
      simp only [haltWithReason, TransitionOutcome.effects, List.mem_append, not_or]
      refine ⟨?_, by simp⟩
      unfold reserveIfReleased
      split
      · simp only [List.mem_append, not_or]
        exact ⟨hnone hu, by simp⟩
      · exact hnone hu

/-- The three true terminals. -/
def isTrueTerminal : OrderState → Bool
  | .filled | .canceled | .terminal => true
  | _ => false

theorem Stepped.terminal {o : Order} {e : OrderEvent} {out : TransitionOutcome}
    (h : Stepped P o e out d) (ho : isRestartFrozen o.state = false)
    (hs : isTrueTerminal (out.newState.getD o.state) = true) : .releaseReservation ∈ out.effects := by
  cases h with
  | rejected _ => cases hst : o.state <;> simp [TransitionOutcome.newState, hst, isTrueTerminal, isRestartFrozen] at hs ho
  | landed _ h =>
      cases h with
      | @accepted s _ _ hopen _ _ =>
          have hs' : isTrueTerminal s = true := hs
          cases s <;> first | (cases hopen; done) | cases hs'
      | halted _ _ => cases hs
      | released _ _ _ => simp [TransitionOutcome.effects, terminalEffects]
  | refused _ _ => cases hs
  | @stranded s _ _ h =>
      have hs' : isTrueTerminal s = true := hs
      cases s <;> first | (cases hs'; done) | cases h.halts.2.2
  | closed _ _ _ => cases hs
  | frozen hf _ _ => rw [ho] at hf; cases hf
  | thawed hf _ _ => rw [ho] at hf; cases hf

/-! ## The theorem -/

/-- Release safety along every run: what stands in the context when a step releases, which steps
release, and that cancels never do. -/
theorem release_behind_gate (cid : ClientOrderId) (market strategy : String) (side : Side)
    (price qty : Nat) (es : List OrderEvent) (e : OrderEvent) (hes : ∀ e' ∈ es, e'.InRange)
    (he : e.InRange) :
    let last := lifecycle.final (Order.new cid market strategy side price qty) es
    let out := (lifecycle.step last e).1
    let s := (lifecycle.step last e).2.state
    let c := (lifecycle.step last e).2.ctx
    releases out.effects ≤ 1 ∧
    (.releaseReservation ∈ out.effects →
      isTrueTerminal s = true ∧ c.authorityIsFresh = true ∧
      c.attributedFillQty = c.fillObligation ∧
      c.fillObligation = c.appliedFills.sumBy (·.qty) ∧
      (∃ v, c.venueOrderId = some v ∧
        ∀ fid p, c.appliedFills.get? fid = some p → p.venueOrderId = some v) ∧
      (∀ rc boundary, c.responseFillCount = some rc →
        c.responseSnapshotBoundary = some (.tsNs boundary) →
        sumUpTo c boundary (·.qty) = rc ∧
        (∀ avg, c.responseAvgPriceCents = some avg →
          avg * rc ≤ (sumUpTo c boundary fun p => p.qty * p.priceCents) + rc ∧
            (sumUpTo c boundary fun p => p.qty * p.priceCents) ≤ avg * rc + rc) ∧
        ∀ fee, c.responseFeeCents = some fee → fee = sumUpTo c boundary (·.fee.getD 0)) ∧
      (s = .filled → c.attributedFillQty = c.qty)) ∧
    (isRestartFrozen last.state = false → isTrueTerminal s = true →
      .releaseReservation ∈ out.effects) ∧
    (e.isCancel = true → .releaseReservation ∉ out.effects) := by
  intro last out s c
  have ho : OrderCoherent (Order.new cid market strategy side price qty) :=
    orderCoherent_new cid market strategy side price qty
  have hlast : OrderCoherent last := run_coherent ho es
  have hstep := stepOrder_stepped hlast e
  have hacc : Accounted c := (stepOrder_coherent hlast e).accounted
  have hpriced : Priced c := by
    have hall : ∀ e' ∈ es ++ [e], e'.InRange := by
      intro e' he'
      rcases List.mem_append.mp he' with he' | he'
      · exact hes e' he'
      · rw [List.mem_singleton.mp he']
        exact he
    have hrun := run_preserves (I := fun _ c => Priced c) (C := OrderEvent.InRange)
      (fun hC h _ hm => hm.priced (fun f hf => (hC f hf).2.1) h) ho (by intro _ _ h; cases h) hall
    rw [lifecycle.final_append] at hrun
    exact hrun
  refine ⟨?_, fun hr => ?_, hstep.terminal, fun hc hr => ?_⟩
  · exact hstep.settlement.releases_le
  · obtain ⟨_, kind, ⟨⟨v, hv⟩, hdom, hgate, hfull⟩, hs⟩ := hstep.release hr
    obtain ⟨hown, hfresh, hattr, hresp⟩ := finalizeGate_none hgate
    have hs' : s = terminalState kind := congrArg (·.getD last.state) hs
    refine ⟨by rw [hs']; cases kind <;> rfl, hfresh, hattr, hattr.symm.trans hacc.qty,
      ⟨v, hv, fun fid p hp => ownershipGate_none hv hown hp⟩,
      fun rc boundary hrc hb => responseDomainGate_none hacc hdom hpriced hresp hrc hb,
      fun hf => hfull ?_⟩
    rw [hs'] at hf
    cases kind <;> first | rfl | cases hf
  · rw [(hstep.release hr).1] at hc
    cases hc

/-- A confirmed cancel with one fill booked. -/
theorem release_behind_gate_canceled :
    let es := restingRun 10 ++ [.fill ⟨⟨"f"⟩, 3, 40, 7, some ⟨"V"⟩, none⟩, .cancelRequested]
    let e := .reconcileResult .canceled (some ⟨"V"⟩) 3 0 [] true
    let o := lifecycle.final (Order.new ⟨"c"⟩ "m" "s" .buyYes 40 10) es
    let r := lifecycle.step o e
    .releaseReservation ∈ r.1.effects ∧ releases r.1.effects ≤ 1 ∧ isTrueTerminal r.2.state = true ∧
      r.2.ctx.attributedFillQty = r.2.ctx.fillObligation := by
  intro es e o r
  obtain ⟨honce, hgate, _⟩ :=
    release_behind_gate ⟨"c"⟩ "m" "s" .buyYes 40 10 es e (by decide) (by decide)
  have hr : .releaseReservation ∈ r.1.effects := by decide
  obtain ⟨hs, _, hattr, _⟩ := hgate hr
  exact ⟨hr, honce, hs, hattr⟩

end Omsrs.Lifecycle
