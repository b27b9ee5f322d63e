import Omsrs.Lifecycle.Lemmas.Books
import Omsrs.Lifecycle.Lemmas.Left
import Omsrs.Lifecycle.Lemmas.Waits
import Omsrs.Lifecycle.Theorems.Evidence
import Omsrs.Lifecycle.Theorems.Reservation

/-!
# The frame of a member

A venue order that several members share is reported as a whole, with what the others have filled. A
member of quantity `Q` should read the row as a sole owner of quantity `Q - o` reads the row without the
others' part. It does where the verdict is read off the member's own share, and not where it is read off
the whole quantity.
-/

namespace Omsrs.Lifecycle
open Omsrs.Lib

variable {c d : OrderCtx} {o : Nat} {f : FillRecord} {v w : VenueOrderId} {fx pre : List Effect}
  {r : BackfillOrderRecord}

/-! ## The property and its condition -/

/-- The order of a member whose fellows have filled `o` of the venue order, taken by itself. -/
def OrderCtx.share (c : OrderCtx) (o : Nat) : OrderCtx := { c with qty := c.qty - o }

/-- The row without the part of the other members. -/
def BackfillOrderRecord.share (r : BackfillOrderRecord) : BackfillOrderRecord :=
  { r with filledQty := r.filledQty - r.otherMembersFilled, otherMembersFilled := 0 }

/-- The same kind of state with the same quantities, and the same decision to release. -/
structure SameVerdict (a b : TransitionOutcome) : Prop where
  state : ∃ s t, a.newState = some s ∧ b.newState = some t ∧ stateName s = stateName t ∧
    s.filledQty = t.filledQty ∧ leftIn s = leftIn t
  release : .releaseReservation ∈ a.effects ↔ .releaseReservation ∈ b.effects

/-- The context once the row's venue, evidence and fills are in and its authority is latched. -/
def rowBooked (c : OrderCtx) (r : BackfillOrderRecord) : Option OrderCtx :=
  match bindVenueId c r.venueOrderId with
  | .error _ => none
  | .ok (_, c) =>
      match noteFillEvidence (c.noteVenueRemaining r.remainingQty)
          (r.filledQty - r.otherMembersFilled) with
      | .error _ => none
      | .ok (_, c) =>
          match accountFills (missingVenue r.venueOrderId) c.latchAuthorityComplete [] r.fills with
          | .error _ => none
          | .ok (_, c) => some (c.noteVenueRemaining r.remainingQty).latchAuthorityComplete

/-- The verdict on a status does not read the whole quantity: a working row is booked to its share or
not at all, the gates let a canceled row through. -/
def StatusFree (c : OrderCtx) (share : Nat) : BackfillOrderStatus → Prop
  | .canceled => finalizeGate c = none
  | .filled => False
  | .openOrder | .partialFill => c.attributedFillQty = share ∨ c.attributedFillQty = 0

/-- Nobody else has filled anything, or the verdict on the booked row is free of the frame. -/
def FrameFree (c : OrderCtx) (r : BackfillOrderRecord) : Prop :=
  r.otherMembersFilled = 0 ∨
    ∀ d, rowBooked c r = some d → StatusFree d (r.filledQty - r.otherMembersFilled) r.status

/-! ## Booking in a share -/

theorem bindVenueId_share {jr : Option JournalRecord} (h : bindVenueId (c.share o) v = .ok (jr, d)) :
    ∃ c', bindVenueId c v = .ok (jr, c') ∧ d = c'.share o := by
  have hv : (c.share o).venueOrderId = c.venueOrderId := rfl
  have hf : (c.share o).appliedFills = c.appliedFills := rfl
  simp only [bindVenueId, hv, hf] at h ⊢
  cases hb : c.venueOrderId with
  | none =>
      simp only [hb] at h ⊢
      cases hw : boundElsewhere v c.appliedFills.entries with
      | some reason =>
          simp only [hw] at h
          cases h
      | none =>
          simp only [hw] at h
          cases h
          exact ⟨_, rfl, rfl⟩
  | some u =>
      simp only [hb] at h ⊢
      split at h
      · cases h
        rename_i hu
        exact ⟨c, by rw [if_pos hu], rfl⟩
      · cases h

theorem noteFillEvidence_share {n : Nat} {jr : Option JournalRecord}
    (h : noteFillEvidence (c.share o) n = .ok (jr, d)) :
    ∃ c', noteFillEvidence c n = .ok (jr, c') ∧ d = c'.share o ∧ n ≤ c.qty - o := by
  obtain ⟨hle, hcase⟩ := noteFillEvidence_ok h
  have hq : ¬ c.qty < n := Nat.not_lt.mpr (hle.trans (Nat.sub_le _ _))
  have hobl : (c.share o).fillObligation = c.fillObligation := rfl
  rw [hobl] at hcase
  rcases hcase with ⟨hlow, rfl, rfl⟩ | ⟨hlt, rfl, rfl⟩
  · refine ⟨c, ?_, rfl, hle⟩
    simp [noteFillEvidence, OrderCtx.raiseFillObligation, hq, Nat.not_lt.mpr hlow]
  · have hshare : raisedCtx (c.share o) n = (raisedCtx c n).share o := by
      have hattr : (c.share o).attributedFillQty = c.attributedFillQty := rfl
      simp only [raisedCtx, hattr]
      split <;> rfl
    refine ⟨raisedCtx c n, ?_, hshare, hle⟩
    have hepoch : (raisedCtx (c.share o) n).authorityEpoch = (raisedCtx c n).authorityEpoch := by
      rw [hshare]
      rfl
    have hraise : c.raiseFillObligation n = .ok (raisedCtx c n) := by
      simp only [OrderCtx.raiseFillObligation, hq, hlt, if_true, if_false, raisedCtx]
      split <;> rfl
    simp only [noteFillEvidence, hraise, raisedCtx_obligation, hlt, if_true, hepoch]

theorem accumulateResponseDomain_share (c : OrderCtx) (o qty price : Nat) (fee : Option Nat) (ts : Int) :
    accumulateResponseDomain (c.share o) qty price fee ts =
      (accumulateResponseDomain c qty price fee ts).share o := by
  have hcount : (c.share o).responseFillCount = c.responseFillCount := rfl
  have hb : hasReliableBoundary (c.share o) = hasReliableBoundary c := rfl
  have hin : fillInResponseDomain (c.share o) ts = fillInResponseDomain c ts := rfl
  simp only [accumulateResponseDomain, hcount, hb, hin]
  split
  · rfl
  · split
    · rfl
    · split <;> rfl

theorem redeliverFill_share (c : OrderCtx) (o : Nat) (prev : FillPayload) (f : FillRecord) :
    redeliverFill (c.share o) prev f =
      ((redeliverFill c prev f).1, (redeliverFill c prev f).2.share o) := by
  have hv : upgradeVenue (c.share o) prev f = upgradeVenue c prev f := rfl
  have hfee : upgradeFee (c.share o) prev f =
      (upgradeFee c prev f).map fun x => (x.1, x.2.1, x.2.2.1, x.2.2.2.share o) := by
    have hsum : (c.share o).attributedFeeCents = c.attributedFeeCents := rfl
    have hin : fillInResponseDomain (c.share o) prev.tsNs = fillInResponseDomain c prev.tsNs := rfl
    have hcount : (c.share o).responseFillCount = c.responseFillCount := rfl
    simp only [upgradeFee, hsum, hin, hcount]
    cases prev.fee <;> cases f.feeCents
    · rfl
    · dsimp only
      split
      · rfl
      · split <;> rfl
    · rfl
    · dsimp only
      split <;> rfl
  simp only [redeliverFill, hv, hfee]
  split
  · rfl
  · split
    · rfl
    · cases upgradeVenue c prev f with
      | error reason => rfl
      | ok u =>
          dsimp only
          cases upgradeFee c prev f with
          | error reason => rfl
          | ok x =>
              simp only [Except.map]
              split
              · split <;> rfl
              · rfl

/-- A fill that the share takes is taken alike by the whole order. -/
theorem tryAccountFill_share
    (h : ∀ reason fx, (tryAccountFill (c.share o) f).1 ≠ .halt reason fx) :
    (tryAccountFill c f).1 = (tryAccountFill (c.share o) f).1 ∧
      (tryAccountFill (c.share o) f).2 = (tryAccountFill c f).2.share o := by
  have hs : firstSightingMismatch (c.share o) f = firstSightingMismatch c f := rfl
  have hf : (c.share o).appliedFills = c.appliedFills := rfl
  cases hsight : firstSightingMismatch c f with
  | some reason =>
      exact absurd (by simp [tryAccountFill, accountFillCore, hs, hsight]) (h reason [])
  | none =>
      cases hk : c.appliedFills.get? f.fillId with
      | some prev =>
          simp only [tryAccountFill, accountFillCore, hs, hsight, hf, hk, redeliverFill_share, and_self]
      | none =>
          have hbooked : bookedCtx (c.share o) f = (bookedCtx c f).share o :=
            accumulateResponseDomain_share (bookedBase c f) o f.qty f.priceCents f.feeCents f.tsNs
          rcases tryAccountFill_new (hs.trans hsight) (hf ▸ hk) with ⟨-, reason, he⟩ | ⟨hb, he⟩
          · exact absurd (by rw [he]) (h reason [])
          · have hbig : Bookable c f :=
              ⟨hk, hb.venue, hb.word, hb.room.trans (Nat.sub_le _ _), hb.fee⟩
            rcases tryAccountFill_new hsight hk with ⟨hno, -⟩ | ⟨-, he'⟩
            · exact absurd hbig hno
            · have hdetail : responseDomainOverfillDetail (bookedCtx (c.share o) f) =
                  responseDomainOverfillDetail (bookedCtx c f) := by
                rw [hbooked]
                rfl
              rw [he, he', hdetail, hbooked]
              cases responseDomainOverfillDetail (bookedCtx c f) <;> exact ⟨rfl, rfl⟩

theorem accountFills_share {refuse : FillRecord → Option HaltReason} {fills : List FillRecord}
    {fx' : List Effect} (h : accountFills refuse (c.share o) fx fills = .ok (fx', d)) :
    ∃ c', accountFills refuse c fx fills = .ok (fx', c') ∧ d = c'.share o := by
  induction fills generalizing c fx with
  | nil =>
      cases h
      exact ⟨c, rfl, rfl⟩
  | cons f fills ih =>
      simp only [accountFills] at h ⊢
      split at h
      · cases h
      · have hstep := tryAccountFill_share (c := c) (o := o) (f := f)
        cases ha : tryAccountFill (c.share o) f with
        | mk att d₁ =>
            rw [ha] at hstep h
            cases att with
            | halt reason e => cases h
            | noOp =>
                obtain ⟨h₁, h₂⟩ := hstep (by simp)
                dsimp only at h h₁ h₂
                rw [h₂] at h
                obtain ⟨c', hc', hd⟩ := ih h
                exact ⟨c', by rw [← hc', ← Prod.mk.eta (p := tryAccountFill c f), h₁], hd⟩
            | applied e =>
                obtain ⟨h₁, h₂⟩ := hstep (by simp)
                dsimp only at h h₁ h₂
                rw [h₂] at h
                obtain ⟨c', hc', hd⟩ := ih h
                exact ⟨c', by rw [← hc', ← Prod.mk.eta (p := tryAccountFill c f), h₁], hd⟩
            | enriched e =>
                obtain ⟨h₁, h₂⟩ := hstep (by simp)
                dsimp only at h h₁ h₂
                rw [h₂] at h
                obtain ⟨c', hc', hd⟩ := ih h
                exact ⟨c', by rw [← hc', ← Prod.mk.eta (p := tryAccountFill c f), h₁], hd⟩

/-- What a loop over fills leaves of identity and quantity, and what it writes. -/
theorem accountFills_moves {refuse : FillRecord → Option HaltReason} {fills : List FillRecord}
    {fx' : List Effect} (h : accountFills refuse c fx fills = .ok (fx', d)) :
    Kept c d ∧ ∃ gx, fx' = fx ++ gx ∧ .releaseReservation ∉ gx := by
  obtain ⟨gx, he, hdr⟩ := accountFills_drained (P := .any) refuse c fx fills fun _ _ => trivial
  rw [h] at he hdr
  refine ⟨Moves.kept hdr.trail, gx, he, fun hm => ?_⟩
  have := hdr.trail.writes (fun h => Move.unreserved h) _ hm
  cases this

theorem rowBooked_eq_some : rowBooked c r = some d ↔
    ∃ jr₁ c₁ jr₂ c₂ gx c₃, bindVenueId c r.venueOrderId = .ok (jr₁, c₁) ∧
      noteFillEvidence (c₁.noteVenueRemaining r.remainingQty) (r.filledQty - r.otherMembersFilled) =
        .ok (jr₂, c₂) ∧
      accountFills (missingVenue r.venueOrderId) c₂.latchAuthorityComplete [] r.fills = .ok (gx, c₃) ∧
      d = (c₃.noteVenueRemaining r.remainingQty).latchAuthorityComplete := by
  constructor
  · intro h
    simp only [rowBooked] at h
    split at h
    · cases h
    · rename_i jr₁ c₁ hb
      split at h
      · cases h
      · rename_i jr₂ c₂ hn
        split at h
        · cases h
        · rename_i gx c₃ ha
          exact ⟨jr₁, c₁, jr₂, c₂, gx, c₃, hb, hn, ha, (Option.some.inj h).symm⟩
  · rintro ⟨jr₁, c₁, jr₂, c₂, gx, c₃, hb, hn, ha, rfl⟩
    simp only [rowBooked, hb, hn, ha]

theorem rowBooked_share (h : rowBooked (c.share r.otherMembersFilled) r.share = some d) :
    ∃ c', rowBooked c r = some c' ∧ d = c'.share r.otherMembersFilled ∧
      r.filledQty - r.otherMembersFilled ≤ c'.qty - r.otherMembersFilled := by
  obtain ⟨jr₁, d₁, jr₂, d₂, gx, d₃, hb, hn, ha, rfl⟩ := rowBooked_eq_some.mp h
  obtain ⟨c₁, hb', rfl⟩ := bindVenueId_share hb
  obtain ⟨c₂, hn', rfl, hle⟩ := noteFillEvidence_share (c := c₁.noteVenueRemaining r.remainingQty) hn
  obtain ⟨c₃, ha', rfl⟩ := accountFills_share (c := c₂.latchAuthorityComplete) ha
  refine ⟨_, rowBooked_eq_some.mpr ⟨jr₁, c₁, jr₂, c₂, gx, c₃, hb', hn', ha', rfl⟩, rfl, ?_⟩
  have hq : c₃.qty = c₁.qty :=
    (accountFills_moves ha').1.qty.trans (SameAccount.evidence hn').qty
  have hgoal : (c₃.noteVenueRemaining r.remainingQty).latchAuthorityComplete.qty = c₁.qty := hq
  rw [hgoal]
  exact hle

/-! ## The condition on the order and the row -/

theorem rowBooked_brought (h : rowBooked c r = some d) : Brought c r.fills d := by
  obtain ⟨jr₁, c₁, jr₂, c₂, gx, c₃, hb, hn, ha, rfl⟩ := rowBooked_eq_some.mp h
  have hbefore : SameAccount c c₂.latchAuthorityComplete :=
    (((SameAccount.bind hb).trans (.note c₁ r.remainingQty)).trans (.evidence hn)).trans (.latch c₂)
  have hafter : SameAccount c₃ (c₃.noteVenueRemaining r.remainingQty).latchAuthorityComplete :=
    (SameAccount.note c₃ r.remainingQty).trans (.latch _)
  exact ((Brought.batch ha).after hbefore).before hafter

/-- The verdict on a working row is free of the frame where what is attributed and the row's new fills
make its share, or nothing. -/
theorem frameFree_working (hst : r.status = .openOrder ∨ r.status = .partialFill)
    (h : rowBooked c r = some d) :
    FrameFree c r ↔ r.otherMembersFilled = 0 ∨
      c.attributedFillQty + ((c.newFills r.fills).map (·.qty)).sum =
        r.filledQty - r.otherMembersFilled ∨
      c.attributedFillQty + ((c.newFills r.fills).map (·.qty)).sum = 0 := by
  rw [← (rowBooked_brought h).attributed]
  rcases hst with hst | hst <;> simp [FrameFree, h, StatusFree, hst]

/-! ## The run of a unique row -/

theorem accountFills_append_effects (refuse : FillRecord → Option HaltReason) (c : OrderCtx)
    (fx gx : List Effect) (fills : List FillRecord) :
    accountFills refuse c (fx ++ gx) fills =
      match accountFills refuse c gx fills with
      | .ok (hx, d) => .ok (fx ++ hx, d)
      | .error (reason, hx, d) => .error (reason, fx ++ hx, d) := by
  induction fills generalizing c gx with
  | nil => rfl
  | cons f fills ih =>
      simp only [accountFills]
      split
      · rfl
      · rcases hres : tryAccountFill c f with ⟨a, d⟩
        cases a with
        | noOp => exact ih d gx
        | applied e => simpa only [List.append_assoc] using ih d (gx ++ e)
        | enriched e => simpa only [List.append_assoc] using ih d (gx ++ e)
        | halt reason e => simp only [List.append_assoc]

theorem not_release_pushJournal {jr : Option JournalRecord} (h : .releaseReservation ∉ fx) :
    .releaseReservation ∉ pushJournal fx jr := by
  cases jr with
  | none => exact h
  | some j => simpa [pushJournal] using h

theorem observedEffect_ne (c : OrderCtx) (v : VenueOrderId) (q r o : Nat) (b : Bool) :
    Effect.releaseReservation ≠ observedEffect c v q r o b := by simp [observedEffect]

@[simp] theorem prependEffects_isHalt (pre : List Effect) (out : TransitionOutcome) :
    (out.prependEffects pre).isHalt = out.isHalt := by cases out <;> rfl

theorem backfillMemberQuantities_share (ho : r.otherMembersFilled ≤ r.filledQty)
    (hq : r.otherMembersFilled ≤ c.qty) :
    backfillMemberQuantities c r.filledQty r.otherMembersFilled =
      .ok (r.filledQty - r.otherMembersFilled, c.qty - r.otherMembersFilled) := by
  simp [backfillMemberQuantities, checkedSub, ho, hq]

/-- Evidence that is no news. -/
theorem noteFillEvidence_low {n : Nat} (hq : n ≤ c.qty) (ho : n ≤ c.fillObligation) :
    noteFillEvidence c n = .ok (none, c) := by
  simp [noteFillEvidence, OrderCtx.raiseFillObligation, Nat.not_lt.mpr hq, Nat.not_lt.mpr ho]

/-- The records of a row that come before its fills do not release. -/
theorem observed_quiet (jr₁ jr₂ : Option JournalRecord) (c : OrderCtx) (v : VenueOrderId) (q n o : Nat) :
    .releaseReservation ∉
      pushJournal (pushJournal [] jr₁ ++ [observedEffect c v q n o false]) jr₂ := by
  refine not_release_pushJournal fun hm => ?_
  rcases List.mem_append.mp hm with hm | hm
  · exact not_release_pushJournal (by simp) hm
  · exact observedEffect_ne _ _ _ _ _ _ (List.mem_singleton.mp hm)

/-- A row that is routed over its booked fills: it halts where more is attributed than the share, and its
status decides otherwise. -/
theorem routeBooked_run (hv : c.venueOrderId = some r.venueOrderId)
    (ho : r.otherMembersFilled ≤ r.filledQty) (hq : r.otherMembersFilled ≤ c.qty)
    (hfit : r.filledQty - r.otherMembersFilled ≤ c.qty)
    (hob : r.filledQty - r.otherMembersFilled ≤ c.fillObligation) :
    (r.filledQty - r.otherMembersFilled < c.attributedFillQty →
        (routeFromBackfillStatus c r.venueOrderId r.status r.filledQty r.remainingQty
          r.otherMembersFilled [] true true).1.isHalt = true) ∧
      (c.attributedFillQty ≤ r.filledQty - r.otherMembersFilled →
        ∃ fx, .releaseReservation ∉ fx ∧
          (routeFromBackfillStatus c r.venueOrderId r.status r.filledQty r.remainingQty
              r.otherMembersFilled [] true true).1 =
            routeStatus (c.noteVenueRemaining r.remainingQty).latchAuthorityComplete r.venueOrderId
              r.status r.filledQty r.remainingQty (r.filledQty - r.otherMembersFilled)
              (c.qty - r.otherMembersFilled) fx true true) := by
  have hnote : noteFillEvidence (c.noteVenueRemaining r.remainingQty)
      (r.filledQty - r.otherMembersFilled) = .ok (none, c.noteVenueRemaining r.remainingQty) :=
    noteFillEvidence_low (c := c.noteVenueRemaining r.remainingQty) hfit hob
  simp only [routeFromBackfillStatus, backfillMemberQuantities_share ho hq, bindVenueId_same hv, hnote,
    routeBackfillFills, accountFills, noteAuthorityComplete, if_true]
  have hattr : (c.noteVenueRemaining r.remainingQty).latchAuthorityComplete.attributedFillQty =
      c.attributedFillQty := rfl
  rw [hattr]
  constructor
  · intro hlt
    rw [if_pos hlt]
    rfl
  · intro hle
    rw [if_neg (Nat.not_lt.mpr hle)]
    refine ⟨_, fun hm => ?_, rfl⟩
    rcases List.mem_append.mp hm with hm | hm
    · exact not_release_pushJournal (observed_quiet _ _ _ _ _ _ _) hm
    · exact observedEffect_ne _ _ _ _ _ _ (List.mem_singleton.mp hm)

/-- The fills of a unique row: one of them is refused, or they are booked and the row is routed. -/
theorem bookUniqueBackfill_run (hfx : .releaseReservation ∉ fx)
    (hv : c.venueOrderId = some r.venueOrderId) (ho : r.otherMembersFilled ≤ r.filledQty)
    (hq : r.otherMembersFilled ≤ c.qty) (hfit : r.filledQty - r.otherMembersFilled ≤ c.qty)
    (hob : r.filledQty - r.otherMembersFilled ≤ c.fillObligation) :
    ((∃ e, accountFills (missingVenue r.venueOrderId) c [] r.fills = .error e) ∧
        (bookUniqueBackfill c r fx).1.isHalt = true) ∨
      ∃ hx d, accountFills (missingVenue r.venueOrderId) c [] r.fills = .ok (hx, d) ∧
        d.qty = c.qty ∧ r.filledQty - r.otherMembersFilled ≤ d.fillObligation ∧
        (r.filledQty - r.otherMembersFilled < d.attributedFillQty →
          (bookUniqueBackfill c r fx).1.isHalt = true) ∧
        (d.attributedFillQty ≤ r.filledQty - r.otherMembersFilled →
          ∃ pre gx, .releaseReservation ∉ pre ∧ .releaseReservation ∉ gx ∧
            (bookUniqueBackfill c r fx).1 =
              (routeStatus (d.noteVenueRemaining r.remainingQty).latchAuthorityComplete
                r.venueOrderId r.status r.filledQty r.remainingQty
                (r.filledQty - r.otherMembersFilled) (c.qty - r.otherMembersFilled) gx true
                true).prependEffects pre) := by
  have happ := accountFills_append_effects (missingVenue r.venueOrderId) c fx [] r.fills
  rw [List.append_nil] at happ
  simp only [bookUniqueBackfill, happ]
  cases ha : accountFills (missingVenue r.venueOrderId) c [] r.fills with
  | error e => exact .inl ⟨⟨e, rfl⟩, rfl⟩
  | ok x =>
      obtain ⟨hx, d⟩ := x
      dsimp only
      obtain ⟨hk, gx, hgx, hgq⟩ := accountFills_moves ha
      have hrouted := routeBooked_run (c := d.latchAuthorityComplete) (r := r) (hk.venue _ hv) ho
        (hq.trans_eq hk.qty.symm) (hfit.trans_eq hk.qty.symm) (hob.trans hk.obligation)
      have hlatch : (d.latchAuthorityComplete.noteVenueRemaining r.remainingQty).latchAuthorityComplete =
          (d.noteVenueRemaining r.remainingQty).latchAuthorityComplete := rfl
      have hqty : d.latchAuthorityComplete.qty = c.qty := hk.qty
      rw [hlatch, hqty] at hrouted
      simp only [noteAuthorityComplete, if_true, prependEffects_isHalt]
      refine .inr ⟨hx, d, rfl, hk.qty, hob.trans hk.obligation, hrouted.1, fun hle => ?_⟩
      obtain ⟨hx', hquiet, he⟩ := hrouted.2 hle
      refine ⟨_, hx', not_release_pushJournal fun hm => ?_, hquiet, by rw [he]⟩
      rcases List.mem_append.mp hm with hm | hm
      · exact hfx hm
      · rw [hgx] at hm
        exact hgq (by simpa using hm)

/-- A unique row halts, or leaves the booked context to the verdict on its status. -/
theorem uniqueBackfill_run (ho : r.otherMembersFilled ≤ r.filledQty)
    (hq : r.otherMembersFilled ≤ c.qty) :
    (rowBooked c r = none ∧ (applyUniqueBackfill c r).1.isHalt = true) ∨
      ∃ d, rowBooked c r = some d ∧ d.qty = c.qty ∧
        r.filledQty - r.otherMembersFilled ≤ d.fillObligation ∧
        (r.filledQty - r.otherMembersFilled < d.attributedFillQty →
          (applyUniqueBackfill c r).1.isHalt = true) ∧
        (d.attributedFillQty ≤ r.filledQty - r.otherMembersFilled →
          ∃ pre fx, .releaseReservation ∉ pre ∧ .releaseReservation ∉ fx ∧
            (applyUniqueBackfill c r).1 =
              (routeStatus d r.venueOrderId r.status r.filledQty r.remainingQty
                (r.filledQty - r.otherMembersFilled) (c.qty - r.otherMembersFilled) fx true
                true).prependEffects pre) := by
  simp only [rowBooked, applyUniqueBackfill, backfillMemberQuantities_share ho hq]
  cases hb : bindVenueId c r.venueOrderId with
  | error reason => exact .inl ⟨rfl, rfl⟩
  | ok x =>
      obtain ⟨jr₁, c₁⟩ := x
      dsimp only
      obtain ⟨hv₁, hq₁⟩ : c₁.venueOrderId = some r.venueOrderId ∧ c₁.qty = c.qty := by
        rcases bindVenueId_ok hb with ⟨hv, -, rfl⟩ | ⟨-, -, -, rfl⟩
        · exact ⟨hv, rfl⟩
        · exact ⟨rfl, rfl⟩
      cases hn : noteFillEvidence (c₁.noteVenueRemaining r.remainingQty)
          (r.filledQty - r.otherMembersFilled) with
      | error reason => exact .inl ⟨rfl, rfl⟩
      | ok x =>
          obtain ⟨jr₂, c₂⟩ := x
          dsimp only
          obtain ⟨hfit, hcase⟩ := noteFillEvidence_ok hn
          obtain ⟨hv₂, hq₂, ho₂⟩ : c₂.venueOrderId = some r.venueOrderId ∧ c₂.qty = c.qty ∧
              r.filledQty - r.otherMembersFilled ≤ c₂.fillObligation := by
            rcases hcase with ⟨hle, -, rfl⟩ | ⟨-, -, rfl⟩
            · exact ⟨hv₁, hq₁, hle⟩
            · refine ⟨(raisedCtx_venue _ _).trans hv₁, ?_, (raisedCtx_obligation _ _).ge⟩
              simp only [raisedCtx]
              split <;> exact hq₁
          simp only [noteAuthorityComplete, if_true]
          have hquiet := observed_quiet jr₁ jr₂ (c₁.noteVenueRemaining r.remainingQty) r.venueOrderId
            r.filledQty r.remainingQty r.otherMembersFilled
          rcases bookUniqueBackfill_run (c := c₂.latchAuthorityComplete) (r := r)
              (not_release_pushJournal hquiet) hv₂ ho (hq.trans_eq hq₂.symm)
              ((hfit.trans_eq hq₁).trans_eq hq₂.symm) ho₂ with
            ⟨⟨e, herr⟩, hhalt⟩ | ⟨hx, d, hok, hqd, hobd, hover, hrun⟩
          · exact .inl ⟨by rw [herr], hhalt⟩
          · have hqty : c₂.latchAuthorityComplete.qty = c.qty := hq₂
            rw [hqty] at hqd hrun
            rw [hok]
            exact .inr ⟨_, rfl, hqd, hobd, hover, hrun⟩

/-! ## The verdict on a status -/

/-- The order waits with its attribution and what is left of its own quantity. -/
structure Waits (c : OrderCtx) (out : TransitionOutcome) : Prop where
  state : ∃ v t count avg fee, out.newState =
    some (.reconcilePending v c.attributedFillQty c.remainingQty t count avg fee)
  keeps : .releaseReservation ∉ out.effects

structure Releases (s : OrderState) (out : TransitionOutcome) : Prop where
  state : out.newState = some s
  gives : .releaseReservation ∈ out.effects

/-- The order goes on at the venue. -/
structure GoesOn (s : OrderState) (out : TransitionOutcome) : Prop where
  state : out.newState = some s
  keeps : .releaseReservation ∉ out.effects

theorem notReadyForTerminal_waits (hfx : .releaseReservation ∉ fx) (fb : ReconcileTerminal)
    (ask : Bool) (rem : Option Nat) : Waits c (notReadyForTerminal c v fx fb ask rem) := by
  refine ⟨⟨_, _, _, _, _, rfl⟩, ?_⟩
  simp only [notReadyForTerminal, accept, TransitionOutcome.effects]
  split_ifs <;> simp [hfx]

/-- Without a `Filled` the terminal gates decide alone. -/
theorem tryFinalizeTerminal_plain (hfx : .releaseReservation ∉ fx) {p : ProposedTerminal}
    (hp : ∀ q n, p ≠ .filled q n) (fb : ReconcileTerminal)
    (hg : ∀ reason, finalizeGate c ≠ some (.halt reason)) :
    (finalizeGate c = none ∧ Releases p.state (tryFinalizeTerminal c p v fx fb)) ∨
      (finalizeGate c ≠ none ∧ Waits c (tryFinalizeTerminal c p v fx fb)) := by
  simp only [tryFinalizeTerminal]
  cases hgate : finalizeGate c with
  | none =>
      refine .inl ⟨rfl, ?_⟩
      cases p with
      | filled q n => exact absurd rfl (hp q n)
      | canceled => exact ⟨rfl, by simp [releaseTerminal, accept, TransitionOutcome.effects]⟩
      | terminal => exact ⟨rfl, by simp [releaseTerminal, accept, TransitionOutcome.effects]⟩
  | some failure =>
      cases failure with
      | halt reason => exact absurd hgate (hg reason)
      | notReady backfill ask =>
          refine .inr ⟨by simp, notReadyForTerminal_waits ?_ _ _ _⟩
          split
          · simp [hfx]
          · exact hfx

theorem finalizeGate_quiet {p : ProposedTerminal} {fb : ReconcileTerminal}
    (h : (tryFinalizeTerminal c p v fx fb).isHalt = false) (reason : HaltReason) :
    finalizeGate c ≠ some (.halt reason) := by
  intro hg
  simp only [tryFinalizeTerminal, hg] at h
  cases h

/-- A `Filled` is released when the gates pass and it fills the whole order by the order's own fills. -/
theorem tryFinalizeTerminal_filled (hfx : .releaseReservation ∉ fx) {q n : Nat} (fb : ReconcileTerminal)
    (ha : c.attributedFillQty ≤ c.qty) (hq : q ≤ c.qty)
    (hg : ∀ reason, finalizeGate c ≠ some (.halt reason)) :
    ((finalizeGate c = none ∧ q = c.qty ∧ n = 0 ∧ c.attributedFillQty = c.qty) ∧
        Releases .filled (tryFinalizeTerminal c (.filled q n) v fx fb)) ∨
      (¬ (finalizeGate c = none ∧ q = c.qty ∧ n = 0 ∧ c.attributedFillQty = c.qty) ∧
        Waits c (tryFinalizeTerminal c (.filled q n) v fx fb)) := by
  simp only [tryFinalizeTerminal]
  cases hgate : finalizeGate c with
  | some failure =>
      cases failure with
      | halt reason => exact absurd hgate (hg reason)
      | notReady backfill ask =>
          refine .inr ⟨by simp, notReadyForTerminal_waits ?_ _ _ _⟩
          split
          · simp [hfx]
          · exact hfx
  | none =>
      have hrem : c.remainingQtyChecked = some (c.qty - c.attributedFillQty) := by
        simp [OrderCtx.remainingQtyChecked, checkedSub, ha]
      simp only [finalizeFilled, hrem, Nat.not_lt.mpr hq, Nat.not_lt.mpr ha, if_false]
      split
      · rename_i hcov
        exact .inr ⟨by omega, notReadyForTerminal_waits hfx _ _ _⟩
      · rename_i hcov
        simp only [not_or, not_not] at hcov
        refine .inl ⟨⟨trivial, hcov.1, hcov.2.1, by omega⟩, rfl, ?_⟩
        simp [releaseTerminal, accept, TransitionOutcome.effects]

theorem Waits.same {a b : TransitionOutcome} (ha : Waits c a) (hb : Waits d b) :
    SameVerdict a b ↔ c.attributedFillQty = d.attributedFillQty ∧ c.remainingQty = d.remainingQty := by
  obtain ⟨⟨v, t, count, avg, fee, hs⟩, hk⟩ := ha
  obtain ⟨⟨v', t', count', avg', fee', hs'⟩, hk'⟩ := hb
  constructor
  · intro h
    obtain ⟨s, s', hsa, hsb, -, hq, hr⟩ := h.state
    rw [hs] at hsa
    rw [hs'] at hsb
    cases hsa
    cases hsb
    exact ⟨Option.some.inj hq, Option.some.inj hr⟩
  · intro ⟨hq, hr⟩
    exact ⟨⟨_, _, hs, hs', rfl, congrArg some hq, congrArg some hr⟩, iff_of_false hk hk'⟩

theorem Waits.not_same_released {a b : TransitionOutcome} {s : OrderState} (ha : Waits c a)
    (hb : Releases s b) : ¬ SameVerdict a b := fun h => ha.keeps (h.release.mpr hb.gives)

theorem Releases.same {a b : TransitionOutcome} {s : OrderState} (ha : Releases s a)
    (hb : Releases s b) : SameVerdict a b :=
  ⟨⟨s, s, ha.state, hb.state, rfl, rfl, rfl⟩, iff_of_true ha.gives hb.gives⟩

theorem GoesOn.same {a b : TransitionOutcome} {s s' : OrderState} (ha : GoesOn s a) (hb : GoesOn s' b) :
    SameVerdict a b ↔ stateName s = stateName s' ∧ s.filledQty = s'.filledQty ∧ leftIn s = leftIn s' := by
  constructor
  · intro h
    obtain ⟨t, t', hta, htb, hrest⟩ := h.state
    rw [ha.state] at hta
    rw [hb.state] at htb
    cases hta
    cases htb
    exact hrest
  · exact fun h => ⟨⟨s, s', ha.state, hb.state, h⟩, iff_of_false ha.keeps hb.keeps⟩

theorem SameVerdict.prepend {a b : TransitionOutcome} {pre pre' : List Effect}
    (hpre : .releaseReservation ∉ pre) (hpre' : .releaseReservation ∉ pre') :
    SameVerdict (a.prependEffects pre) (b.prependEffects pre') ↔ SameVerdict a b := by
  have hs : ∀ (o : TransitionOutcome) (fx : List Effect), (o.prependEffects fx).newState = o.newState := by
    intro o fx
    cases o <;> rfl
  have he : ∀ (o : TransitionOutcome) {fx : List Effect}, .releaseReservation ∉ fx →
      (.releaseReservation ∈ (o.prependEffects fx).effects ↔ .releaseReservation ∈ o.effects) := by
    intro o fx hfx
    cases o with
    | reject reason => rfl
    | _ => simp [TransitionOutcome.prependEffects, TransitionOutcome.effects, hfx]
  constructor
  · rintro ⟨hst, hr⟩
    rw [hs, hs] at hst
    rw [he a hpre, he b hpre'] at hr
    exact ⟨hst, hr⟩
  · rintro ⟨hst, hr⟩
    refine ⟨?_, ?_⟩
    · rw [hs, hs]
      exact hst
    · rw [he a hpre, he b hpre']
      exact hr

/-- A working row that is booked to its share has to agree with what is left of the capacity. -/
theorem routeStatus_working_isHalt {status : BackfillOrderStatus} {q rem m cap : Nat}
    (hst : status = .openOrder ∨ status = .partialFill) :
    (routeStatus c v status q rem m cap fx true true).isHalt =
      (decide (c.attributedFillQty = m) && (checkedSub cap m).all (fun n => decide (rem ≠ n))) := by
  have hopen : routeStatus c v status q rem m cap fx true true =
      routeStatus c v .openOrder q rem m cap fx true true := by
    rcases hst with rfl | rfl <;> rfl
  rw [hopen]
  simp only [routeStatus, Bool.not_true, Bool.and_false, Bool.false_eq_true, if_false]
  by_cases hm : c.attributedFillQty = m
  · simp only [hm, ne_eq, not_true_eq_false, if_false, decide_true, Bool.true_and]
    cases checkedSub cap m with
    | none => rfl
    | some n =>
        simp only [Option.all_some]
        split
        · rename_i hr
          simp [hr, haltWithReason, TransitionOutcome.isHalt]
        · rename_i hr
          rw [not_not] at hr
          split <;> simp [hr, accept, TransitionOutcome.isHalt]
  · simp only [hm, ne_eq, not_false_eq_true, if_true, continueReconcilePending, Bool.not_true,
      Bool.and_false, Bool.false_eq_true, if_false, decide_false, Bool.false_and]
    split <;> rfl

/-- A working row: the order goes on with what is left of its quantity, or of the capacity once it is
booked to its share. -/
theorem routeStatus_working {status : BackfillOrderStatus} {q rem m cap : Nat}
    (hst : status = .openOrder ∨ status = .partialFill) (hfx : .releaseReservation ∉ fx)
    (hh : (routeStatus c v status q rem m cap fx true true).isHalt = false) :
    GoesOn
      (if c.attributedFillQty = 0 then .accepted v
        else .partialFill v c.attributedFillQty
          (if c.attributedFillQty = m then cap - c.attributedFillQty else c.remainingQty))
      (routeStatus c v status q rem m cap fx true true) := by
  have hopen : routeStatus c v status q rem m cap fx true true =
      routeStatus c v .openOrder q rem m cap fx true true := by
    rcases hst with rfl | rfl <;> rfl
  rw [hopen] at hh ⊢
  simp only [routeStatus, Bool.not_true, Bool.and_false, Bool.false_eq_true, if_false] at hh ⊢
  by_cases hm : c.attributedFillQty = m
  · simp only [hm, ne_eq, not_true_eq_false, if_false, if_true] at hh ⊢
    cases hsub : checkedSub cap m with
    | none =>
        rw [hsub] at hh
        cases hh
    | some n =>
        have hn : n = cap - m := by
          simp only [checkedSub] at hsub
          split at hsub
          · exact (Option.some.inj hsub).symm
          · cases hsub
        simp only [hsub] at hh ⊢
        split at hh
        · cases hh
        · rename_i hr
          rw [if_neg hr]
          split
          · exact ⟨rfl, hfx⟩
          · exact ⟨by rw [hn]; rfl, hfx⟩
  · simp only [hm, ne_eq, not_false_eq_true, if_true, if_false, continueReconcilePending, Bool.not_true,
      Bool.and_false, Bool.false_eq_true]
    have hfx' : ∀ b : Prop, ∀ [Decidable b], .releaseReservation ∉
        (if b then fx ++ [Effect.backfillFills v] else fx ++ [.backfillFills v]) := by
      intro b _
      split <;> simp [hfx]
    split
    · exact ⟨rfl, hfx' _⟩
    · exact ⟨rfl, hfx' _⟩

/-! ## The two frames -/

theorem share_remaining_iff (hoq : o ≤ c.qty) (ha : c.attributedFillQty ≤ c.qty - o) :
    c.remainingQty = (c.share o).remainingQty ↔ o = 0 := by
  have hattr : (c.share o).attributedFillQty = c.attributedFillQty := rfl
  have hqty : (c.share o).qty = c.qty - o := rfl
  rw [remainingQty_eq, remainingQty_eq, hattr, hqty]
  omega

/-- On a working row the frames part only by what is left to an order that is not booked to its share. -/
theorem routeStatus_frames_working {gx : List Effect} (hfx : .releaseReservation ∉ fx)
    (hgx : .releaseReservation ∉ gx) {status : BackfillOrderStatus} {q rem : Nat}
    (hst : status = .openOrder ∨ status = .partialFill)
    (hleft : c.remainingQty = (c.share o).remainingQty ↔ o = 0)
    (hh : (routeStatus (c.share o) v status (q - o) rem (q - o) (c.qty - o) gx true true).isHalt =
      false) :
    SameVerdict (routeStatus c v status q rem (q - o) (c.qty - o) fx true true)
        (routeStatus (c.share o) v status (q - o) rem (q - o) (c.qty - o) gx true true) ↔
      o = 0 ∨ c.attributedFillQty = q - o ∨ c.attributedFillQty = 0 := by
  have hattr : (c.share o).attributedFillQty = c.attributedFillQty := rfl
  have hh' : (routeStatus c v status q rem (q - o) (c.qty - o) fx true true).isHalt = false := by
    rw [routeStatus_working_isHalt hst] at hh ⊢
    exact hh
  rw [(routeStatus_working hst hfx hh').same (routeStatus_working hst hgx hh)]
  rw [hattr]
  by_cases hz : c.attributedFillQty = 0
  · simp [hz]
  · by_cases hm : c.attributedFillQty = q - o
    · simp [hm]
    · simp [hz, hm, leftIn, stateName, OrderState.filledQty, hleft]

/-- On a canceled row the frames part only where the gates keep the order waiting. -/
theorem routeStatus_frames_canceled {gx : List Effect} (hfx : .releaseReservation ∉ fx)
    (hgx : .releaseReservation ∉ gx) {q rem : Nat}
    (hleft : c.remainingQty = (c.share o).remainingQty ↔ o = 0)
    (hh : (routeStatus (c.share o) v .canceled (q - o) rem (q - o) (c.qty - o) gx true true).isHalt =
      false) :
    SameVerdict (routeStatus c v .canceled q rem (q - o) (c.qty - o) fx true true)
        (routeStatus (c.share o) v .canceled (q - o) rem (q - o) (c.qty - o) gx true true) ↔
      o = 0 ∨ finalizeGate c = none := by
  have hattr : (c.share o).attributedFillQty = c.attributedFillQty := rfl
  simp only [routeStatus, stayUnknown, Bool.not_true, Bool.and_false, Bool.false_eq_true,
    if_false] at hh ⊢
  -- neither frame changes what the gates read
  have hquiet : ∀ reason, finalizeGate c ≠ some (.halt reason) :=
    finalizeGate_quiet (c := c.share o) hh
  have hshare := tryFinalizeTerminal_plain (c := c.share o) (v := v) (p := .canceled) hgx (by simp)
    .canceled hquiet
  rcases tryFinalizeTerminal_plain (v := v) (p := .canceled) hfx (by simp) .canceled hquiet with
    ⟨hg, hr⟩ | ⟨hg, hw⟩
  · rcases hshare with ⟨-, hr'⟩ | ⟨hg', -⟩
    · exact iff_of_true (hr.same hr') (.inr hg)
    · exact absurd hg hg'
  · rcases hshare with ⟨hg', -⟩ | ⟨-, hw'⟩
    · exact absurd hg' hg
    · rw [hw.same hw', hattr, hleft]
      simp [hg]

/-- On a `Filled` row the frames part wherever other members have filled. -/
theorem routeStatus_frames_filled {gx : List Effect} (hfx : .releaseReservation ∉ fx)
    (hgx : .releaseReservation ∉ gx) {q rem : Nat} (hq : o ≤ q) (hoq : o ≤ c.qty)
    (hfit : q - o ≤ c.qty - o) (ha : c.attributedFillQty ≤ q - o)
    (hleft : c.remainingQty = (c.share o).remainingQty ↔ o = 0)
    (hh : (routeStatus (c.share o) v .filled (q - o) rem (q - o) (c.qty - o) gx true true).isHalt =
      false) :
    SameVerdict (routeStatus c v .filled q rem (q - o) (c.qty - o) fx true true)
        (routeStatus (c.share o) v .filled (q - o) rem (q - o) (c.qty - o) gx true true) ↔
      o = 0 := by
  have hattr : (c.share o).attributedFillQty = c.attributedFillQty := rfl
  have hqty : (c.share o).qty = c.qty - o := rfl
  simp only [routeStatus, stayUnknown, Bool.not_true, Bool.and_false, Bool.false_eq_true,
    if_false] at hh ⊢
  have hquiet : ∀ reason, finalizeGate c ≠ some (.halt reason) :=
    finalizeGate_quiet (c := c.share o) hh
  have hshare := tryFinalizeTerminal_filled (c := c.share o) (v := v) (n := rem) (q := q - o) hgx
    .filled (by rw [hattr, hqty]; omega) (by rw [hqty]; omega) hquiet
  rw [hattr, hqty] at hshare
  rcases tryFinalizeTerminal_filled (c := c) (v := v) (n := rem) hfx .filled (by omega)
      (show q ≤ c.qty by omega) hquiet with ⟨⟨hg, hfull, hz, hown⟩, hr⟩ | ⟨hno, hw⟩
  · -- the order's own fills cover the whole quantity, so nothing is left for other members
    obtain rfl : o = 0 := by omega
    rcases hshare with ⟨-, hr'⟩ | ⟨hno', -⟩
    · exact iff_of_true (hr.same hr') rfl
    · exact absurd ⟨hg, by omega, hz, by omega⟩ hno'
  · rcases hshare with ⟨⟨hg, hfull, hz, hown⟩, hr'⟩ | ⟨-, hw'⟩
    · exact iff_of_false (hw.not_same_released hr') fun h0 => hno ⟨hg, by omega, hz, by omega⟩
    · rw [hw.same hw', hattr, hleft]
      simp

/-- The verdicts of the two frames on a booked row. -/
theorem routeStatus_frames {gx : List Effect} (hfx : .releaseReservation ∉ fx)
    (hgx : .releaseReservation ∉ gx) {status : BackfillOrderStatus} {q rem : Nat} (hq : o ≤ q)
    (hoq : o ≤ c.qty) (hfit : q - o ≤ c.qty - o) (ha : c.attributedFillQty ≤ q - o)
    (hh : (routeStatus (c.share o) v status (q - o) rem (q - o) (c.qty - o) gx true true).isHalt =
      false) :
    SameVerdict (routeStatus c v status q rem (q - o) (c.qty - o) fx true true)
        (routeStatus (c.share o) v status (q - o) rem (q - o) (c.qty - o) gx true true) ↔
      o = 0 ∨ StatusFree c (q - o) status := by
  have hleft := share_remaining_iff hoq (ha.trans hfit)
  cases status with
  | openOrder => exact routeStatus_frames_working hfx hgx (.inl rfl) hleft hh
  | partialFill => exact routeStatus_frames_working hfx hgx (.inr rfl) hleft hh
  | canceled => exact routeStatus_frames_canceled hfx hgx hleft hh
  | filled =>
      rw [routeStatus_frames_filled hfx hgx hq hoq hfit ha hleft hh]
      simp [StatusFree]

/-- A member reads a unique row like a sole owner of its share exactly when the verdict does not read
the whole quantity. -/
theorem member_frame_iff (c : OrderCtx) (r : BackfillOrderRecord)
    (ho : r.otherMembersFilled ≤ min r.filledQty c.qty)
    (hh : (applyEvent .submitUnknown (c.share r.otherMembersFilled)
      (.unknownBackfillResult true [r.share])).1.isHalt = false) :
    SameVerdict (applyEvent .submitUnknown c (.unknownBackfillResult true [r])).1
        (applyEvent .submitUnknown (c.share r.otherMembersFilled)
          (.unknownBackfillResult true [r.share])).1 ↔
      FrameFree c r := by
  have hclient : r.share.clientOrderId = r.clientOrderId := rfl
  have hown : (c.share r.otherMembersFilled).clientOrderId = c.clientOrderId := rfl
  simp only [applyEvent, applySubmitUnknown, applyUnknownBackfill, hclient, hown] at hh ⊢
  split at hh
  · cases hh
  · rename_i hid
    rw [if_neg hid, if_neg hid]
    simp only [Bool.not_true, Bool.false_eq_true, if_false] at hh ⊢
    rcases uniqueBackfill_run (c := c.share r.otherMembersFilled) (r := r.share) (Nat.zero_le _)
        (Nat.zero_le _) with ⟨-, hhalt⟩ | ⟨d, hd, -, -, hover, hrun⟩
    · rw [hhalt] at hh
      cases hh
    · obtain ⟨c', hc', rfl, hfit⟩ := rowBooked_share hd
      have ha : c'.attributedFillQty ≤ r.filledQty - r.otherMembersFilled := by
        by_contra hlt
        have := hover (Nat.not_le.mp hlt)
        rw [this] at hh
        cases hh
      obtain ⟨pre, fx, hpre, hfx, he⟩ := hrun ha
      rcases uniqueBackfill_run (c := c) (r := r) (by omega) (by omega) with
        ⟨hnone, -⟩ | ⟨c'', hc'', hq, -, -, hrun'⟩
      · rw [hc'] at hnone
        cases hnone
      · obtain rfl : c' = c'' := Option.some.inj (hc'.symm.trans hc'')
        obtain ⟨pre', fx', hpre', hfx', he'⟩ := hrun' ha
        rw [he, prependEffects_isHalt] at hh
        rw [he', he, SameVerdict.prepend hpre' hpre, ← hq]
        have hcap : (c.share r.otherMembersFilled).qty - r.share.otherMembersFilled =
            c'.qty - r.otherMembersFilled := by
          rw [hq]
          rfl
        rw [hcap] at hh ⊢
        have hframes := routeStatus_frames (c := c') hfx' hfx (show r.otherMembersFilled ≤ r.filledQty
          by omega) (by omega) hfit ha hh
        refine hframes.trans ?_
        simp only [FrameFree, hc', Option.some.injEq, forall_eq']
        exact Iff.rfl

/-! ## Rows of a shared order -/

/-- An order of five that the venue shares with other members. -/
def sharedCtx : OrderCtx := .new ⟨"c"⟩ "M" "x" .buyYes 40 5

/-- A row whose other members have filled `o`, with one fill of `n` for this member. -/
def sharedRow (status : BackfillOrderStatus) (filled remaining o n : Nat) : BackfillOrderRecord where
  clientOrderId := ⟨"c"⟩
  venueOrderId := ⟨"V"⟩
  status := status
  filledQty := filled
  remainingQty := remaining
  otherMembersFilled := o
  fills := [⟨⟨"f"⟩, n, 40, 1, some ⟨"V"⟩, none⟩]

/-- A working row that is booked to the member's share. -/
theorem member_frame_open :
    SameVerdict
      (applyEvent .submitUnknown sharedCtx
        (.unknownBackfillResult true [sharedRow .partialFill 3 2 1 2])).1
      (applyEvent .submitUnknown (sharedCtx.share 1)
        (.unknownBackfillResult true [(sharedRow .partialFill 3 2 1 2).share])).1 := by
  refine (member_frame_iff sharedCtx (sharedRow .partialFill 3 2 1 2) (by decide) (by decide)).mpr ?_
  have hbooked : (rowBooked sharedCtx (sharedRow .partialFill 3 2 1 2)).isSome = true := by decide
  obtain ⟨d, hd⟩ := Option.isSome_iff_exists.mp hbooked
  exact (frameFree_working (.inr rfl) hd).mpr (by decide)

/-- The venue order is filled, and the member has its whole share of three: by itself the share is
released, in the shared frame the order waits. -/
theorem filled_share_waits :
    ¬ ∀ (c : OrderCtx) (r : BackfillOrderRecord), r.otherMembersFilled ≤ min r.filledQty c.qty →
      (applyEvent .submitUnknown (c.share r.otherMembersFilled)
        (.unknownBackfillResult true [r.share])).1.isHalt = false →
      SameVerdict (applyEvent .submitUnknown c (.unknownBackfillResult true [r])).1
        (applyEvent .submitUnknown (c.share r.otherMembersFilled)
          (.unknownBackfillResult true [r.share])).1 := by
  intro h
  have hsame := h sharedCtx (sharedRow .filled 5 0 2 3) (by decide) (by decide)
  have hwaits : .releaseReservation ∉ (applyEvent .submitUnknown sharedCtx
      (.unknownBackfillResult true [sharedRow .filled 5 0 2 3])).1.effects := by decide
  have hreleases : .releaseReservation ∈ (applyEvent .submitUnknown (sharedCtx.share 2)
      (.unknownBackfillResult true [(sharedRow .filled 5 0 2 3).share])).1.effects := by decide
  exact hwaits (hsame.release.mpr hreleases)

end Omsrs.Lifecycle
