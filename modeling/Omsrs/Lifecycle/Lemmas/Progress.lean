import Omsrs.Lifecycle.Lemmas.Replay

/-!
# What only grows

Every act moves the evidence of an order forward: the obligation and the generation do not fall, a
bound venue stays bound, a booked fill keeps what it says and gains at most what it did not say.
-/

namespace Omsrs.Lifecycle
open Omsrs.Lib

variable {P : Scope} {c d e : OrderCtx} {fx : List Effect} {v : VenueOrderId}

/-! ## Payloads -/

/-- The stored fill is the one of before; a fee and a venue may have been added. -/
structure FillPayload.Grown (p q : FillPayload) : Prop where
  qty : q.qty = p.qty
  price : q.priceCents = p.priceCents
  firstSeen : q.tsNs = p.tsNs
  fee : ∀ fee, p.fee = some fee → q.fee = some fee
  venue : ∀ v, p.venueOrderId = some v → q.venueOrderId = some v

theorem FillPayload.Grown.refl (p : FillPayload) : p.Grown p :=
  ⟨rfl, rfl, rfl, fun _ h => h, fun _ h => h⟩

theorem FillPayload.Grown.trans {p q r : FillPayload} (h : p.Grown q) (h' : q.Grown r) : p.Grown r :=
  ⟨h'.qty.trans h.qty, h'.price.trans h.price, h'.firstSeen.trans h.firstSeen,
    fun fee hf => h'.fee fee (h.fee fee hf), fun v hv => h'.venue v (h.venue v hv)⟩

theorem Completes.grown {f : FillRecord} {prev : FillPayload} (h : Completes c f prev) :
    prev.Grown (completedPayload prev f) := by
  refine ⟨rfl, rfl, rfl, ?_, ?_⟩
  · intro fee hfee
    rcases h.fee with he | ⟨hn, _⟩
    · exact he.symm.trans hfee
    · rw [hn] at hfee
      cases hfee
  · intro v hv
    rcases h.venue with he | ⟨hn, _⟩
    · exact he.symm.trans hv
    · rw [hn] at hv
      cases hv

/-! ## Contexts -/

/-- From `c` to `d` no evidence was taken back. -/
structure Advanced (c d : OrderCtx) : Prop where
  obligation : c.fillObligation ≤ d.fillObligation
  epoch : c.authorityEpoch ≤ d.authorityEpoch
  venue : ∀ v, c.venueOrderId = some v → d.venueOrderId = some v
  fills : ∀ id p, c.appliedFills.get? id = some p →
    ∃ q, d.appliedFills.get? id = some q ∧ p.Grown q

theorem Advanced.refl (c : OrderCtx) : Advanced c c :=
  ⟨le_rfl, le_rfl, fun _ h => h, fun _ p hp => ⟨p, hp, .refl p⟩⟩

theorem Advanced.trans (h : Advanced c d) (h' : Advanced d e) : Advanced c e := by
  refine ⟨h.obligation.trans h'.obligation, h.epoch.trans h'.epoch,
    fun v hv => h'.venue v (h.venue v hv), ?_⟩
  intro id p hp
  obtain ⟨q, hq, hpq⟩ := h.fills id p hp
  obtain ⟨r, hr, hqr⟩ := h'.fills id q hq
  exact ⟨r, hr, hpq.trans hqr⟩

/-- Nothing was booked or completed. -/
theorem Advanced.unbooked (ho : c.fillObligation ≤ d.fillObligation)
    (he : c.authorityEpoch ≤ d.authorityEpoch)
    (hv : ∀ v, c.venueOrderId = some v → d.venueOrderId = some v)
    (hf : d.appliedFills = c.appliedFills) : Advanced c d :=
  ⟨ho, he, hv, fun _ p hp => ⟨p, hf ▸ hp, .refl p⟩⟩

theorem nextEpoch_le (h : c.authorityEpoch ≤ u64Max) :
    c.authorityEpoch ≤ saturatingAdd u64Max c.authorityEpoch 1 := by
  simp only [saturatingAdd]
  omega

theorem Advanced.invalidate (h : c.authorityEpoch ≤ u64Max) : Advanced c c.invalidateAuthority :=
  .unbooked le_rfl (nextEpoch_le h) (fun _ hv => hv) rfl

theorem Advanced.note (c : OrderCtx) (r : Nat) : Advanced c (c.noteVenueRemaining r) :=
  .unbooked le_rfl le_rfl (fun _ hv => hv) rfl

theorem Advanced.raised {n : Nat} (h : c.authorityEpoch ≤ u64Max) (hlt : c.fillObligation < n) :
    Advanced c (raisedCtx c n) := by
  refine .unbooked (Kept.raised hlt).obligation ?_ (Kept.raised hlt).venue (raisedCtx_books c n).1
  unfold raisedCtx
  split
  · exact nextEpoch_le h
  · exact le_rfl

theorem Advanced.booked {f : FillRecord} (h : c.authorityEpoch ≤ u64Max) (hb : Bookable c f) :
    Advanced c (bookedCtx c f) := by
  have hk : Kept c (bookedCtx c f) := .booked c f
  refine ⟨hk.obligation, ?_, hk.venue, ?_⟩
  · obtain ⟨q, n, g, he⟩ :=
      accumulateResponseDomain_eq (bookedBase c f) f.qty f.priceCents f.feeCents f.tsNs
    rw [bookedCtx, he]
    exact nextEpoch_le h
  · intro id p hp
    have hne : id ≠ f.fillId := by
      rintro rfl
      rw [hb.fresh] at hp
      cases hp
    rw [(bookedCtx_books c f).1, OrdMap.get?_insert_ne _ _ hne]
    exact ⟨p, hp, .refl p⟩

theorem Completion.advanced (h : Completion c fx d) : Advanced c d := by
  obtain ⟨f, prev, hc, _, rfl⟩ := h
  refine ⟨le_rfl, le_rfl, fun _ hv => hv, ?_⟩
  intro id p hp
  simp only [completedCtx, OrdMap.get?_insert]
  split_ifs with hid
  · rw [hid, hc.known] at hp
    obtain rfl := Option.some.inj hp
    exact ⟨_, rfl, hc.grown⟩
  · exact ⟨p, hp, .refl p⟩

theorem Settles.advanced {F : FillRecord → Prop} (h : Settles F c fx d)
    (hc : c.authorityEpoch ≤ u64Max) : Advanced c d := by
  cases h with
  | book f _ hb => exact .booked hc hb
  | latch => exact .unbooked le_rfl le_rfl (fun _ hv => hv) rfl

theorem Move.advanced (h : Move P c fx d) (hc : c.authorityEpoch ≤ u64Max) : Advanced c d := by
  cases h with
  | idle _ => exact .refl c
  | echo _ _ _ => exact .refl c
  | invalidate => exact .invalidate hc
  | bind hn _ => exact .unbooked le_rfl le_rfl (fun v hv => by simp [hn] at hv) rfl
  | raise hlt _ => exact .raised hc hlt
  | complete h => exact h.advanced
  | settle h => exact h.advanced hc
  | remaining _ => exact .note c _
  | observe _ _ _ => exact .note c _
  | observeSettled _ _ hcs hd =>
      have hword := hcs.preserves (I := fun _ c => c.authorityEpoch ≤ u64Max) (l := [])
        (fun hc h => Completion.word h hc) hc
      exact (Advanced.note c _).trans
        ((hcs.relates Advanced.refl Advanced.trans fun h => Completion.advanced h).trans
          (hd.advanced hword))
  | observeRaise _ hlt _ => exact (Advanced.note c _).trans (.raised hc hlt)
  | observeOver _ _ => exact .note c _

theorem bindVenueId_advanced {jr : Option JournalRecord} (h : bindVenueId c v = .ok (jr, d)) :
    Advanced c d := by
  rcases bindVenueId_ok h with ⟨_, _, rfl⟩ | ⟨hn, _, _, rfl⟩
  · exact .refl _
  · exact .unbooked le_rfl le_rfl (fun v hv => by simp [hn] at hv) rfl

/-- The response is noted after its venue is bound. -/
theorem setResponse_advanced {jr : Option JournalRecord} {r count remaining : Nat}
    {avg fee : Option Nat} {b : Option SnapshotBoundary} (h : bindVenueId c v = .ok (jr, d)) :
    Advanced c (setResponse (d.noteVenueRemaining r) count remaining avg fee b) :=
  (bindVenueId_advanced h).trans (.unbooked le_rfl le_rfl (fun _ hv => hv) rfl)

theorem recompute_advanced (c : OrderCtx) : Advanced c (recomputeResponseDomain c) := by
  rw [recomputeResponseDomain_eq]
  exact .unbooked le_rfl le_rfl (fun _ hv => hv) rfl

theorem Answer.advanced (h : Answer c fx d) (hc : c.authorityEpoch ≤ u64Max) : Advanced c d := by
  cases h with
  | empty hb => exact (bindVenueId_advanced hb).trans (.note _ _)
  | counted hb _ hr =>
      have hword := bindVenueId_word hb hc
      obtain ⟨_, ⟨_, rfl⟩ | ⟨hlt, rfl⟩⟩ := raiseFillObligation_ok hr
      · exact (setResponse_advanced hb).trans (recompute_advanced _)
      · refine (setResponse_advanced hb).trans (.trans (.raised ?_ hlt) (recompute_advanced _))
        exact hword

theorem Act.advanced (h : Act P c fx d) (hc : c.authorityEpoch ≤ u64Max) : Advanced c d := by
  cases h with
  | deed h => exact h.elim (fun h => Move.advanced h hc) fun h => Answer.advanced h hc
  | refused h =>
      cases h with
      | conflict _ => exact .refl c
      | excess hb _ _ => exact setResponse_advanced hb
  | release _ => exact .refl c
  | reserve => exact .refl c
  | halt => exact .refl c

/-! ## The latch -/

/-- A latch that is set was set in the current generation. -/
def LatchedNow (c : OrderCtx) : Prop :=
  c.authorityComplete = true → c.authorityLatchedEpoch = c.authorityEpoch

theorem latchedNow_of_unlatched (h : c.authorityComplete = false) : LatchedNow c := by
  intro ht
  rw [h] at ht
  cases ht

theorem LatchedNow.raised (h : LatchedNow c) (n : Nat) : LatchedNow (raisedCtx c n) := by
  unfold raisedCtx
  split
  · exact latchedNow_of_unlatched rfl
  · exact h

theorem Settles.latchedNow {F : FillRecord → Prop} (h : Settles F c fx d) : LatchedNow d := by
  cases h with
  | book f _ _ =>
      obtain ⟨q, n, g, he⟩ :=
        accumulateResponseDomain_eq (bookedBase c f) f.qty f.priceCents f.feeCents f.tsNs
      rw [bookedCtx, he]
      exact latchedNow_of_unlatched rfl
  | latch => exact fun _ => rfl

theorem Move.latchedNow (h : Move P c fx d) (hc : LatchedNow c) : LatchedNow d := by
  cases h with
  | invalidate => exact latchedNow_of_unlatched rfl
  | raise _ _ => exact hc.raised _
  | complete h =>
      obtain ⟨f, prev, _, _, rfl⟩ := h
      exact hc
  | settle h => exact h.latchedNow
  | observeSettled _ _ _ hd => exact hd.latchedNow
  | observeRaise _ _ _ => exact LatchedNow.raised (c := c.noteVenueRemaining _) hc _
  | _ => exact hc

theorem bindVenueId_latchedNow {jr : Option JournalRecord} (h : bindVenueId c v = .ok (jr, d))
    (hc : LatchedNow c) : LatchedNow d := by
  rcases bindVenueId_ok h with ⟨_, _, rfl⟩ | ⟨_, _, _, rfl⟩ <;> exact hc

theorem recompute_latchedNow (h : LatchedNow c) : LatchedNow (recomputeResponseDomain c) := by
  rw [recomputeResponseDomain_eq]
  exact h

theorem Answer.latchedNow (h : Answer c fx d) (hc : LatchedNow c) : LatchedNow d := by
  cases h with
  | empty hb =>
      have hb' := bindVenueId_latchedNow hb hc
      exact hb'
  | counted hb _ hr =>
      have hb' := bindVenueId_latchedNow hb hc
      obtain ⟨_, ⟨_, rfl⟩ | ⟨_, rfl⟩⟩ := raiseFillObligation_ok hr
      · exact recompute_latchedNow hb'
      · refine recompute_latchedNow (LatchedNow.raised ?_ _)
        exact hb'

theorem Act.latchedNow (h : Act P c fx d) (hc : LatchedNow c) : LatchedNow d := by
  cases h with
  | deed h => exact h.elim (fun h => Move.latchedNow h hc) fun h => Answer.latchedNow h hc
  | refused h =>
      cases h with
      | conflict _ => exact hc
      | excess hb _ _ =>
          have hb' := bindVenueId_latchedNow hb hc
          exact hb'
  | release _ => exact hc
  | reserve => exact hc
  | halt => exact hc

end Omsrs.Lifecycle
