import Omsrs.Lifecycle.Lemmas.Books

/-!
# What an event takes in

In whatever state and context: an event books or completes fills that it carries itself, and leaves
every other fill and the identity of the order alone.
-/

namespace Omsrs.Lifecycle
open Omsrs.Lib

/-! ## The relation -/

/-- The stored payload says what the record says. -/
structure Carries (p : FillPayload) (f : FillRecord) : Prop where
  qty : p.qty = f.qty
  price : p.priceCents = f.priceCents
  fee : p.fee = f.feeCents
  venue : p.venueOrderId = f.venueOrderId

/-- From `c` to `d` nothing was booked or completed but fills of `F`. -/
structure TakesIn (F : FillRecord → Prop) (c d : OrderCtx) : Prop where
  client : d.clientOrderId = c.clientOrderId
  market : d.market = c.market
  side : d.side = c.side
  fills : ∀ id, d.appliedFills.get? id = c.appliedFills.get? id ∨
    ∃ f p, F f ∧ f.fillId = id ∧ d.appliedFills.get? id = some p ∧ Carries p f
  total : c.attributedFillQty = c.appliedFills.sumBy (·.qty) →
    d.attributedFillQty = d.appliedFills.sumBy (·.qty)

variable {F : FillRecord → Prop} {c d e : OrderCtx} {v : VenueOrderId} {fx : List Effect}

theorem TakesIn.refl (c : OrderCtx) : TakesIn F c c := ⟨rfl, rfl, rfl, fun _ => .inl rfl, id⟩

theorem TakesIn.trans (h : TakesIn F c d) (h' : TakesIn F d e) : TakesIn F c e := by
  refine ⟨h'.client.trans h.client, h'.market.trans h.market, h'.side.trans h.side, ?_,
    fun ht => h'.total (h.total ht)⟩
  intro id
  rcases h'.fills id with heq | hf
  · rcases h.fills id with heq' | ⟨f, p, hF, hid, hp, hc⟩
    · exact .inl (heq.trans heq')
    · exact .inr ⟨f, p, hF, hid, heq.trans hp, hc⟩
  · exact .inr hf

theorem TakesIn.mono {G : FillRecord → Prop} (h : TakesIn F c d) (hFG : ∀ f, F f → G f) :
    TakesIn G c d := by
  refine ⟨h.client, h.market, h.side, fun id => ?_, h.total⟩
  rcases h.fills id with heq | ⟨f, p, hF, hid, hp, hc⟩
  · exact .inl heq
  · exact .inr ⟨f, p, hFG f hF, hid, hp, hc⟩

/-- A booked fill stays booked. -/
theorem TakesIn.keeps (h : TakesIn F c d) {id : FillId} (hc : c.appliedFills.contains id = true) :
    d.appliedFills.contains id = true := by
  obtain ⟨p, hp⟩ := OrdMap.contains_iff.mp hc
  rcases h.fills id with heq | ⟨_, p', _, _, hp', _⟩
  · exact OrdMap.contains_iff.mpr ⟨p, heq.trans hp⟩
  · exact OrdMap.contains_iff.mpr ⟨p', hp'⟩

/-- The books and the identity are the same. -/
def SameBooks (c d : OrderCtx) : Prop :=
  d.clientOrderId = c.clientOrderId ∧ d.market = c.market ∧ d.side = c.side ∧
    d.appliedFills = c.appliedFills ∧ d.attributedFillQty = c.attributedFillQty

theorem SameBooks.takes (h : SameBooks c d) : TakesIn F c d := by
  obtain ⟨hc, hm, hs, hf, ha⟩ := h
  exact ⟨hc, hm, hs, fun id => .inl (by rw [hf]), fun ht => by rw [ha, hf, ht]⟩

/-- One fill of `F`, stored as it was offered. -/
theorem TakesIn.stores {f : FillRecord} {p : FillPayload} (hF : F f) (hp : Carries p f)
    (hid : d.clientOrderId = c.clientOrderId ∧ d.market = c.market ∧ d.side = c.side)
    (hf : d.appliedFills = c.appliedFills.insert f.fillId p)
    (ht : c.attributedFillQty = c.appliedFills.sumBy (·.qty) →
      d.attributedFillQty = d.appliedFills.sumBy (·.qty)) : TakesIn F c d := by
  refine ⟨hid.1, hid.2.1, hid.2.2, fun id => ?_, ht⟩
  rw [hf, OrdMap.get?_insert]
  split_ifs with hi
  · exact .inr ⟨f, p, hF, hi.symm, rfl, hp⟩
  · exact .inl rfl

/-! ## Fills -/

theorem takes_booked {f : FillRecord} (hF : F f) (h : Bookable c f) : TakesIn F c (bookedCtx c f) := by
  obtain ⟨hf, ha, _⟩ := bookedCtx_books c f
  obtain ⟨q, n, g, he⟩ :=
    accumulateResponseDomain_eq (bookedBase c f) f.qty f.priceCents f.feeCents f.tsNs
  refine .stores hF ⟨rfl, rfl, rfl, rfl⟩ ?_ hf fun ht => ?_
  · rw [bookedCtx, he]
    exact ⟨rfl, rfl, rfl⟩
  · rw [ha, hf, OrdMap.sumBy_insert_new _ _ h.fresh, ht]
    rfl

theorem takes_completed {f : FillRecord} {prev : FillPayload} (hF : F f) (h : Completes c f prev) :
    TakesIn F c (completedCtx c f prev) := by
  refine .stores (p := completedPayload prev f) hF ⟨h.qty, h.price, rfl, rfl⟩ ⟨rfl, rfl, rfl⟩ rfl
    fun ht => ?_
  have hq := OrdMap.sumBy_insert_old (completedPayload prev f) (·.qty) h.known
  have hsame : (completedPayload prev f).qty = prev.qty := rfl
  simp only [completedCtx]
  rw [hsame] at hq
  omega

theorem takes_attempt {f : FillRecord} (hF : F f) : TakesIn F c (tryAccountFill c f).2 := by
  have h := tryAccountFill_accounting c f
  generalize hr : tryAccountFill c f = r at h ⊢
  obtain ⟨a, d⟩ := r
  cases h with
  | ignored => exact .refl _
  | refused reason => exact .refl _
  | completed prev hc => exact takes_completed hF hc
  | booked hb _ => exact takes_booked hF hb
  | overfilled hb _ => exact takes_booked hF hb

/-- The context a batch of fills ends with, halted or not. -/
def accountedCtx : Except (HaltReason × List Effect × OrderCtx) (List Effect × OrderCtx) → OrderCtx
  | .ok (_, d) | .error (_, _, d) => d

theorem takes_accountFills (refuse : FillRecord → Option HaltReason) {fills : List FillRecord}
    (hF : ∀ f ∈ fills, F f) (c : OrderCtx) (fx : List Effect) :
    TakesIn F c (accountedCtx (accountFills refuse c fx fills)) := by
  induction fills generalizing c fx with
  | nil => exact .refl c
  | cons f fills ih =>
      have ht : TakesIn F c (tryAccountFill c f).2 := takes_attempt (hF f List.mem_cons_self)
      have hF' : ∀ g ∈ fills, F g := fun g hg => hF g (List.mem_cons_of_mem _ hg)
      simp only [accountFills]
      split
      · exact .refl c
      · split <;> rename_i hr <;> rw [hr] at ht
        · exact ht.trans (ih hF' _ _)
        · exact ht.trans (ih hF' _ _)
        · exact ht.trans (ih hF' _ _)
        · exact ht

/-! ## The parts that book nothing -/

theorem bindVenueId_same_books {jr : Option JournalRecord} (h : bindVenueId c v = .ok (jr, d)) :
    SameBooks c d := by
  rcases bindVenueId_ok h with ⟨_, _, rfl⟩ | ⟨_, _, _, rfl⟩ <;> exact ⟨rfl, rfl, rfl, rfl, rfl⟩

theorem raisedCtx_same_books (c : OrderCtx) (n : Nat) : SameBooks c (raisedCtx c n) := by
  unfold raisedCtx
  split <;> exact ⟨rfl, rfl, rfl, rfl, rfl⟩

theorem raiseFillObligation_same_books {n : Nat} (h : c.raiseFillObligation n = .ok d) :
    SameBooks c d := by
  obtain ⟨_, ⟨_, rfl⟩ | ⟨_, rfl⟩⟩ := raiseFillObligation_ok h
  · exact ⟨rfl, rfl, rfl, rfl, rfl⟩
  · exact raisedCtx_same_books c n

theorem noteFillEvidence_same_books {n : Nat} {jr : Option JournalRecord}
    (h : noteFillEvidence c n = .ok (jr, d)) : SameBooks c d := by
  obtain ⟨_, ⟨_, _, rfl⟩ | ⟨_, _, rfl⟩⟩ := noteFillEvidence_ok h
  · exact ⟨rfl, rfl, rfl, rfl, rfl⟩
  · exact raisedCtx_same_books c n

theorem noteAuthorityComplete_same_books (c : OrderCtx) (b : Bool) :
    SameBooks c (noteAuthorityComplete c b).2 := by
  cases b <;> exact ⟨rfl, rfl, rfl, rfl, rfl⟩

theorem recompute_same_books (c : OrderCtx) : SameBooks c (recomputeResponseDomain c) := by
  rw [recomputeResponseDomain_eq]
  exact ⟨rfl, rfl, rfl, rfl, rfl⟩

theorem note_same_books (c : OrderCtx) (r : Nat) : SameBooks c (c.noteVenueRemaining r) :=
  ⟨rfl, rfl, rfl, rfl, rfl⟩

/-! ## The create response -/

theorem routeLiveOrFilled_takes : TakesIn F c (routeLiveOrFilled c v fx).2 := by
  unfold routeLiveOrFilled
  split
  · exact .refl c
  · split
    · exact (noteAuthorityComplete_same_books c true).takes
    · split <;> exact .refl c

theorem resolveUnattributed_takes {rc remaining : Nat} {avg fee : Option Nat} :
    TakesIn F c (resolveUnattributed c v rc remaining avg fee fx).2 := by
  unfold resolveUnattributed
  split
  · exact .refl c
  · exact .refl c
  · refine TakesIn.trans ?_ routeLiveOrFilled_takes
    exact SameBooks.takes ⟨rfl, rfl, rfl, rfl, rfl⟩

theorem applyEmptyResponse_takes {remaining : Nat} :
    TakesIn F c (applyEmptyResponse c v remaining fx).2 := by
  unfold applyEmptyResponse
  split
  · split
    · exact routeLiveOrFilled_takes
    · exact .refl c
  · split
    · split
      · exact (noteAuthorityComplete_same_books c true).takes
      · exact .refl c
    · exact .refl c

theorem applySubmitResponse_takes {count remaining : Nat} {avg fee : Option Nat}
    {b : Option SnapshotBoundary} :
    TakesIn F c (applySubmitResponse c v count remaining avg fee b).2 := by
  unfold applySubmitResponse
  dsimp only
  split
  · exact .refl c
  · rename_i bound hb
    have hbound : TakesIn F c (bound.noteVenueRemaining remaining) :=
      (bindVenueId_same_books hb).takes.trans (note_same_books _ _).takes
    split
    · exact hbound.trans applyEmptyResponse_takes
    · have hset : TakesIn F c
          (setResponse (bound.noteVenueRemaining remaining) count remaining avg fee b) :=
        hbound.trans (SameBooks.takes ⟨rfl, rfl, rfl, rfl, rfl⟩)
      split
      · exact hset
      · rename_i hr
        have hraised := (hset.trans (raiseFillObligation_same_books hr).takes).trans
          (recompute_same_books _).takes
        split
        · exact hraised
        · split
          · exact hraised.trans resolveUnattributed_takes
          · exact hraised

theorem applyImmediateFillBackfill_takes {rc remaining : Nat} {avg fee : Option Nat}
    {fills : List FillRecord} (hF : ∀ f ∈ fills, F f) :
    TakesIn F c (applyImmediateFillBackfill c v rc remaining avg fee fills).2 := by
  unfold applyImmediateFillBackfill
  split
  · exact .refl c
  · rename_i jr bound hb
    have hbound : TakesIn F c bound := (bindVenueId_same_books hb).takes
    have hacc := takes_accountFills (fun _ => none) hF bound (pushJournal [] jr)
    split <;> rename_i ha <;> rw [ha] at hacc
    · exact hbound.trans hacc
    · exact (hbound.trans hacc).trans resolveUnattributed_takes

/-! ## Fills on open orders -/

theorem afterFillTarget_takes {target : ReconcileTarget} {remaining : Nat} :
    TakesIn F c (afterFillTarget c v target fx remaining).2 := by
  unfold afterFillTarget
  split
  · exact .refl c
  · rename_i jr d hn
    have hd : TakesIn F c d := (noteFillEvidence_same_books hn).takes
    dsimp only
    split
    · split <;> exact hd
    · split
      · exact hd.trans (noteAuthorityComplete_same_books _ _).takes
      · exact hd

theorem afterFillCancelOrReconcile_takes {target : Option ReconcileTarget} {last : Nat}
    {enriched : Bool} :
    TakesIn F c (afterFillCancelOrReconcile c v target fx last enriched).2 := by
  unfold afterFillCancelOrReconcile
  split
  · exact .refl c
  · split
    · exact afterFillTarget_takes
    · split
      · exact (noteAuthorityComplete_same_books c true).takes
      · exact .refl c

theorem applyFillWhileOpen_takes {s : OrderState} {f : FillRecord} (hF : F f) :
    TakesIn F c (applyFillWhileOpen s c f).2 := by
  have ht : TakesIn F c (tryAccountFill c f).2 := takes_attempt hF
  unfold applyFillWhileOpen
  split <;> rename_i hr <;> rw [hr] at ht
  · exact ht
  · exact ht
  · split
    · exact ht.trans afterFillCancelOrReconcile_takes
    · exact ht.trans afterFillCancelOrReconcile_takes
    · exact ht
  · split
    · exact ht
    · exact ht.trans afterFillCancelOrReconcile_takes
    · exact ht.trans afterFillCancelOrReconcile_takes
    · exact ht.trans routeLiveOrFilled_takes

theorem applyFillDedupOnly_takes {s : OrderState} {f : FillRecord} (hF : F f) :
    TakesIn F c (applyFillDedupOnly c f s).2 := by
  have ht : TakesIn F c (tryAccountFill c f).2 := takes_attempt hF
  unfold applyFillDedupOnly
  split <;> rename_i hr <;> rw [hr] at ht <;> exact ht

/-! ## Backfills and reconciliation -/

theorem routeBackfillFills_takes {status : BackfillOrderStatus} {q r others m cap : Nat}
    {fills : List FillRecord} {complete unknown : Bool} (hF : ∀ f ∈ fills, F f) :
    TakesIn F c (routeBackfillFills c v status q r others m cap fx fills complete unknown).2 := by
  unfold routeBackfillFills
  have hacc := takes_accountFills (fun _ => none) hF c fx
  split <;> rename_i ha <;> rw [ha] at hacc
  · exact hacc
  · dsimp only
    split <;> exact hacc.trans (noteAuthorityComplete_same_books _ _).takes

theorem routeFromBackfillStatus_takes {status : BackfillOrderStatus} {q r others : Nat}
    {fills : List FillRecord} {complete unknown : Bool} (hF : ∀ f ∈ fills, F f) :
    TakesIn F c (routeFromBackfillStatus c v status q r others fills complete unknown).2 := by
  unfold routeFromBackfillStatus
  split
  · exact .refl c
  · split
    · exact .refl c
    · rename_i bound hb
      have hbound : TakesIn F c (bound.noteVenueRemaining r) :=
        (bindVenueId_same_books hb).takes.trans (note_same_books _ _).takes
      dsimp only
      split
      · exact hbound
      · rename_i hn
        exact (hbound.trans (noteFillEvidence_same_books hn).takes).trans
          (routeBackfillFills_takes hF)

theorem bookUniqueBackfill_takes {r : BackfillOrderRecord} (hF : ∀ f ∈ r.fills, F f) :
    TakesIn F c (bookUniqueBackfill c r fx).2 := by
  unfold bookUniqueBackfill
  have hacc := takes_accountFills (missingVenue r.venueOrderId) hF c fx
  split <;> rename_i ha <;> rw [ha] at hacc
  · exact hacc
  · exact (hacc.trans (noteAuthorityComplete_same_books _ true).takes).trans
      (routeFromBackfillStatus_takes (by simp))

theorem applyUniqueBackfill_takes {r : BackfillOrderRecord} (hF : ∀ f ∈ r.fills, F f) :
    TakesIn F c (applyUniqueBackfill c r).2 := by
  unfold applyUniqueBackfill
  split
  · exact .refl c
  · split
    · exact .refl c
    · rename_i bound hb
      have hbound : TakesIn F c (bound.noteVenueRemaining r.remainingQty) :=
        (bindVenueId_same_books hb).takes.trans (note_same_books _ _).takes
      dsimp only
      split
      · exact hbound
      · rename_i hn
        exact ((hbound.trans (noteFillEvidence_same_books hn).takes).trans
          (noteAuthorityComplete_same_books _ true).takes).trans (bookUniqueBackfill_takes hF)

theorem applyUnknownBackfill_takes {exhaustive : Bool} {matched : List BackfillOrderRecord}
    (hF : ∀ r ∈ matched, ∀ f ∈ r.fills, F f) :
    TakesIn F c (applyUnknownBackfill c exhaustive matched).2 := by
  unfold applyUnknownBackfill
  split
  · split <;> exact .refl c
  · rename_i r
    split
    · exact .refl c
    · split
      · exact .refl c
      · exact applyUniqueBackfill_takes (hF r (by simp))
  · exact .refl c

/-- The context of a resolution, halted or not. -/
def resolvedCtx :
    Except (HaltReason × Option JournalRecord × OrderCtx)
      (VenueOrderId × Option JournalRecord × OrderCtx) → OrderCtx
  | .ok (_, _, d) | .error (_, _, d) => d

theorem resolveReconcileVenue_takes {ev : Option VenueOrderId} :
    TakesIn F c (resolvedCtx (resolveReconcileVenue c v ev)) := by
  unfold resolveReconcileVenue
  split
  · exact .refl c
  · rename_i hb
    have hbound := (bindVenueId_same_books hb).takes (F := F)
    split
    · exact hbound
    · split
      · rename_i hb'
        exact hbound.trans (bindVenueId_same_books hb').takes
      · rename_i hb'
        exact hbound.trans (bindVenueId_same_books hb').takes
      · exact hbound

theorem applyReconcileResult_takes {status : BackfillOrderStatus} {ev : Option VenueOrderId}
    {q r : Nat} {fills : List FillRecord} {complete : Bool} (hF : ∀ f ∈ fills, F f) :
    TakesIn F c (applyReconcileResult c v status ev q r fills complete).2 := by
  unfold applyReconcileResult
  have hres : TakesIn F c (resolvedCtx (resolveReconcileVenue c v ev)) := resolveReconcileVenue_takes
  split <;> rename_i hr <;> rw [hr] at hres
  · exact hres
  · exact hres.trans (routeFromBackfillStatus_takes hF)

/-! ## Cancel, closure, claims -/

/-- The context of a carried response or target, halted or not. -/
def carriedCtx : Except (HaltReason × OrderCtx) (List Effect × OrderCtx) → OrderCtx
  | .ok (_, d) | .error (_, d) => d

theorem carryResponse_takes {rc avg fee : Option Nat} :
    TakesIn F c (carriedCtx (carryResponse c fx rc avg fee)) := by
  unfold carryResponse
  cases rc with
  | none => exact SameBooks.takes ⟨rfl, rfl, rfl, rfl, rfl⟩
  | some n =>
      dsimp only
      cases hr : ({ c with responseFillCount := c.responseFillCount.or (some n) } :
          OrderCtx).raiseFillObligation n with
      | error reason => exact SameBooks.takes ⟨rfl, rfl, rfl, rfl, rfl⟩
      | ok raised =>
          have hset : SameBooks c { c with responseFillCount := c.responseFillCount.or (some n) } :=
            ⟨rfl, rfl, rfl, rfl, rfl⟩
          have hraised : TakesIn F c raised :=
            hset.takes.trans (raiseFillObligation_same_books hr).takes
          exact hraised.trans (SameBooks.takes ⟨rfl, rfl, rfl, rfl, rfl⟩)

theorem carryTarget_takes {target : Option ReconcileTarget} :
    TakesIn F c (accountedCtx (carryTarget c fx target)) := by
  unfold carryTarget
  split
  · exact .refl c
  · split
    · exact .refl c
    · rename_i hn
      refine (noteFillEvidence_same_books hn).takes.trans ?_
      dsimp only [accountedCtx]
      split
      · exact (note_same_books _ _).takes
      · exact .refl _

theorem applyCancelOutcome_takes {q r : Nat} {rc avg fee : Option Nat}
    {target : Option ReconcileTarget} {outcome : CancelOutcome} :
    TakesIn F c (applyCancelOutcome c v q r rc avg fee target outcome).2 := by
  unfold applyCancelOutcome
  dsimp only
  have hinv : TakesIn F c (authorityInvalidateEffects c).2 := SameBooks.takes ⟨rfl, rfl, rfl, rfl, rfl⟩
  have hresp : TakesIn F (authorityInvalidateEffects c).2
      (carriedCtx (carryResponse (authorityInvalidateEffects c).2
        ((authorityInvalidateEffects c).1 ++
          [.appendFsync (.cancelOutcomeCid (authorityInvalidateEffects c).2.clientOrderId outcome)])
        rc avg fee)) := carryResponse_takes
  split <;> rename_i hr <;> rw [hr] at hresp
  · exact hinv.trans hresp
  · rename_i fx' d
    have htarget : TakesIn F d (accountedCtx (carryTarget d fx' target)) := carryTarget_takes
    split <;> rename_i ht <;> rw [ht] at htarget
    · exact (hinv.trans hresp).trans htarget
    · split
      · exact (hinv.trans hresp).trans htarget
      · rename_i hb
        exact ((hinv.trans hresp).trans htarget).trans (bindVenueId_same_books hb).takes

theorem applyUserOrderRestingClaim_takes {s : OrderState} {remaining : Nat} :
    TakesIn F c (applyUserOrderRestingClaim s c v remaining).2 := by
  unfold applyUserOrderRestingClaim
  split
  · exact .refl c
  · split
    · exact .refl c
    · rename_i hb
      exact (bindVenueId_same_books hb).takes.trans (note_same_books _ _).takes

theorem applyUserOrderTerminalClaim_takes {s : OrderState} {filled : Nat} {executed : Bool} :
    TakesIn F c (applyUserOrderTerminalClaim s c v filled executed).2 := by
  unfold applyUserOrderTerminalClaim
  split
  · exact .refl c
  · exact (note_same_books c 0).takes.trans (noteAuthorityComplete_same_books _ true).takes

theorem restartSafeHandle_takes {s : OrderState} {ev : OrderEvent} (hF : ∀ f ∈ ev.fills, F f) :
    TakesIn F c (restartSafeHandle s c ev).2 := by
  cases ev with
  | fill f =>
      have ht : TakesIn F c (tryAccountFill c f).2 := takes_attempt (hF f (by simp [OrderEvent.fills]))
      simp only [restartSafeHandle]
      split <;> rename_i hr <;> rw [hr] at ht <;> exact ht
  | _ => exact .refl c

theorem applyFrozen_takes {s : OrderState} {ev : OrderEvent} (hF : ∀ f ∈ ev.fills, F f) :
    TakesIn F c (applyFrozen s c ev).2 := by
  unfold applyFrozen
  split
  · exact .refl c
  · exact .refl c
  · exact restartSafeHandle_takes hF

/-! ## The dispatch -/

theorem applySubmitStarted_takes {a : AttemptId} {ev : OrderEvent} (hF : ∀ f ∈ ev.fills, F f) :
    TakesIn F c (applySubmitStarted a c ev).2 := by
  unfold applySubmitStarted
  dsimp only
  split
  · exact applySubmitResponse_takes
  · exact .refl c
  · exact applyFillWhileOpen_takes (hF _ (by simp [OrderEvent.fills]))
  all_goals exact .refl c

theorem applySubmitUnknown_takes {ev : OrderEvent} (hF : ∀ f ∈ ev.fills, F f) :
    TakesIn F c (applySubmitUnknown c ev).2 := by
  unfold applySubmitUnknown
  split
  · exact applyUnknownBackfill_takes fun r hr f hf =>
      hF f (List.mem_flatMap.mpr ⟨r, hr, hf⟩)
  · exact applyUserOrderRestingClaim_takes
  · split <;> exact .refl c
  · exact applyFillDedupOnly_takes (hF _ (by simp [OrderEvent.fills]))
  · exact .refl c
  · exact .refl c

theorem applyLive_takes {s : OrderState} {ev : OrderEvent} (hF : ∀ f ∈ ev.fills, F f) :
    TakesIn F c (applyLive s v c ev).2 := by
  unfold applyLive
  split
  · exact applyUserOrderTerminalClaim_takes
  · exact applyFillWhileOpen_takes (hF _ (by simp [OrderEvent.fills]))
  · exact SameBooks.takes ⟨rfl, rfl, rfl, rfl, rfl⟩
  all_goals exact .refl c

theorem applyCancelPending_takes {s : OrderState} {q r : Nat} {rc avg fee : Option Nat}
    {target : Option ReconcileTarget} {ev : OrderEvent} (hF : ∀ f ∈ ev.fills, F f) :
    TakesIn F c (applyCancelPending s v q r rc avg fee target c ev).2 := by
  unfold applyCancelPending
  split
  · exact applyUserOrderTerminalClaim_takes
  · exact applyCancelOutcome_takes
  · exact applyFillWhileOpen_takes (hF _ (by simp [OrderEvent.fills]))
  · exact applyReconcileResult_takes hF
  all_goals exact .refl c

theorem applyReconcilePending_takes {s : OrderState} {ev : OrderEvent} (hF : ∀ f ∈ ev.fills, F f) :
    TakesIn F c (applyReconcilePending s v c ev).2 := by
  unfold applyReconcilePending
  split
  · exact applyUserOrderTerminalClaim_takes
  · exact applyFillWhileOpen_takes (hF _ (by simp [OrderEvent.fills]))
  · exact applyReconcileResult_takes hF
  all_goals exact .refl c

theorem applyImmediateFillUnattributed_takes {s : OrderState} {rc r : Nat} {avg fee : Option Nat}
    {ev : OrderEvent} (hF : ∀ f ∈ ev.fills, F f) :
    TakesIn F c (applyImmediateFillUnattributed s v rc r avg fee c ev).2 := by
  unfold applyImmediateFillUnattributed
  split
  · exact applyImmediateFillBackfill_takes hF
  · exact applyImmediateFillBackfill_takes hF
  · exact SameBooks.takes ⟨rfl, rfl, rfl, rfl, rfl⟩
  all_goals exact .refl c

/-- Whatever the state: an event takes in its own fills and nothing else. -/
theorem applyEvent_takes (s : OrderState) (c : OrderCtx) (ev : OrderEvent) :
    TakesIn (· ∈ ev.fills) c (applyEvent s c ev).2 := by
  have hF : ∀ f ∈ ev.fills, f ∈ ev.fills := fun _ h => h
  cases s with
  | new => cases ev <;> exact .refl c
  | submitPrepared => exact .refl c
  | submitStarted a => exact applySubmitStarted_takes hF
  | submitUnknown => exact applySubmitUnknown_takes hF
  | accepted v => exact applyLive_takes hF
  | partialFill v q r => exact applyLive_takes hF
  | cancelPending v q r rc avg fee target => exact applyCancelPending_takes hF
  | reconcilePending v q r target rc avg fee => exact applyReconcilePending_takes hF
  | immediateFillUnattributed v rc r avg fee => exact applyImmediateFillUnattributed_takes hF
  | _ => exact applyFrozen_takes hF

end Omsrs.Lifecycle
