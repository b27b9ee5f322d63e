import Omsrs.Lifecycle.Theorems.Redelivery

/-!
# Orders that wait although their fills cover them

What an event's fills bring is told from the context before it. From there on, each handler that leaves
a covered order waiting says what stood in the way: the ownership of a fill, the response, or the venue's
own word.
-/

namespace Omsrs.Lifecycle
open Omsrs.Lib

variable {c d e : OrderCtx} {v : VenueOrderId} {fx gx : List Effect} {s : OrderState}
  {s' : OrderState} {f : FillRecord} {fills : List FillRecord}

/-! ## Waiting -/

/-- An order that is neither over nor halted, although its fills cover it, waits for further authority. -/
structure WaitsCovered (o : Order) : Prop where
  waiting : isRestartFrozen o.state = false
  full : o.ctx.attributedFillQty = o.ctx.qty

/-- The terminal intent a fill meets in a working order: none yet, or a target. -/
def OrderState.intent : OrderState → Option (Option ReconcileTarget)
  | .accepted _ | .partialFill .. => some none
  | .cancelPending _ _ _ _ _ _ target => some target
  | .reconcilePending _ _ _ target _ _ _ => some (some target)
  | _ => none

/-- The known target counts the whole order and, where it is a `Filled`, leaves nothing at the venue. -/
def TargetCovers (c : OrderCtx) : Option ReconcileTarget → Prop
  | none => True
  | some t =>
      c.qty ≤ t.venueFilledQty ∧
        (t.terminal = .filled → (t.venueRemainingQty.or c.lastVenueRemainingQty).getD 0 = 0)

/-- A booked fill names no venue, or the response domain is open. -/
def Blocked (c : OrderCtx) : Prop :=
  (∃ id p, c.appliedFills.get? id = some p ∧ p.venueOrderId = none) ∨
    ∃ rc, c.responseFillCount = some rc ∧ hasReliableBoundary c = true ∧ c.responseDomainQty < rc

/-! ## What fills bring -/

/-- The fills whose id is not known, each id once, at its first sighting. -/
def newFills (known : FillId → Bool) : List FillRecord → List FillRecord
  | [] => []
  | f :: fills =>
      if known f.fillId then newFills known fills
      else f :: newFills (fun id => decide (id = f.fillId) || known id) fills

namespace OrderCtx

def newFills (c : OrderCtx) (fills : List FillRecord) : List FillRecord :=
  Lifecycle.newFills c.appliedFills.contains fills

/-- With what these fills bring, the order is covered. -/
def coveredWith (c : OrderCtx) (fills : List FillRecord) : Bool :=
  decide (c.attributedFillQty + ((c.newFills fills).map (·.qty)).sum = c.qty)

/-- Every booked fill names its venue, or these fills tell of it again, and all of them name one. -/
def namedWith (c : OrderCtx) (fills : List FillRecord) : Bool :=
  c.appliedFills.entries.all (fun e => e.2.venueOrderId.isSome || fills.any (·.fillId = e.1)) &&
    fills.all (·.venueOrderId.isSome)

/-- With these fills, the response's snapshot holds no less than the response counts. -/
def closedWith (c : OrderCtx) (fills : List FillRecord) : Bool :=
  match c.responseFillCount with
  | none => true
  | some rc =>
      !hasReliableBoundary c ||
        decide (rc ≤ domainSum c (·.qty) +
          (((c.newFills fills).filter fun f => inDomain c f.tsNs).map (·.qty)).sum)

end OrderCtx

/-- The books, the quantity and the response's snapshot are the same. -/
structure SameAccount (c d : OrderCtx) : Prop where
  fills : d.appliedFills = c.appliedFills
  attributed : d.attributedFillQty = c.attributedFillQty
  qty : d.qty = c.qty
  count : d.responseFillCount = c.responseFillCount
  boundary : d.responseSnapshotBoundary = c.responseSnapshotBoundary

namespace SameAccount

theorem refl (c : OrderCtx) : SameAccount c c := ⟨rfl, rfl, rfl, rfl, rfl⟩

theorem trans (h : SameAccount c d) (h' : SameAccount d e) : SameAccount c e :=
  ⟨h'.fills.trans h.fills, h'.attributed.trans h.attributed, h'.qty.trans h.qty,
    h'.count.trans h.count, h'.boundary.trans h.boundary⟩

theorem inDomain (h : SameAccount c d) (ts : Int) : inDomain d ts = inDomain c ts := by
  simp only [Lifecycle.inDomain, fillInResponseDomain, h.count, h.boundary]

theorem domainSum (h : SameAccount c d) (g : FillPayload → Nat) : domainSum d g = domainSum c g := by
  simp only [Lifecycle.domainSum, h.fills, h.inDomain]

theorem newFills (h : SameAccount c d) (fills : List FillRecord) : d.newFills fills = c.newFills fills := by
  simp only [OrderCtx.newFills, h.fills]

theorem bind {jr : Option JournalRecord} (h : bindVenueId c v = .ok (jr, d)) : SameAccount c d := by
  rcases bindVenueId_ok h with ⟨-, -, rfl⟩ | ⟨-, -, -, rfl⟩
  · exact .refl _
  · exact ⟨rfl, rfl, rfl, rfl, rfl⟩

theorem raised (c : OrderCtx) (n : Nat) : SameAccount c (raisedCtx c n) := by
  unfold raisedCtx
  split <;> exact ⟨rfl, rfl, rfl, rfl, rfl⟩

theorem evidence {n : Nat} {jr : Option JournalRecord} (h : noteFillEvidence c n = .ok (jr, d)) :
    SameAccount c d := by
  obtain ⟨-, ⟨-, -, rfl⟩ | ⟨-, -, rfl⟩⟩ := noteFillEvidence_ok h
  · exact .refl _
  · exact .raised _ n

theorem latch (c : OrderCtx) : SameAccount c c.latchAuthorityComplete := ⟨rfl, rfl, rfl, rfl, rfl⟩

theorem note (c : OrderCtx) (r : Nat) : SameAccount c (c.noteVenueRemaining r) :=
  ⟨rfl, rfl, rfl, rfl, rfl⟩

theorem recompute (c : OrderCtx) : SameAccount c (recomputeResponseDomain c) := by
  rw [recomputeResponseDomain_eq]
  exact ⟨rfl, rfl, rfl, rfl, rfl⟩

theorem authority (c : OrderCtx) (complete : Bool) :
    SameAccount c (noteAuthorityComplete c complete).2 := by
  cases complete with
  | true => exact .latch c
  | false => exact .refl c

end SameAccount

/-- From `c` to `d` the fills were booked or completed, none of them refused. -/
structure Brought (c : OrderCtx) (fills : List FillRecord) (d : OrderCtx) : Prop where
  attributed : d.attributedFillQty = c.attributedFillQty + ((c.newFills fills).map (·.qty)).sum
  qty : d.qty = c.qty
  count : d.responseFillCount = c.responseFillCount
  boundary : d.responseSnapshotBoundary = c.responseSnapshotBoundary
  knows : ∀ id, d.appliedFills.contains id = (fills.any (·.fillId = id) || c.appliedFills.contains id)
  domain : domainSum d (·.qty) = domainSum c (·.qty) +
    (((c.newFills fills).filter fun f => inDomain c f.tsNs).map (·.qty)).sum
  unnamed : ∀ id p, d.appliedFills.get? id = some p → p.venueOrderId = none →
    (∃ p₀, c.appliedFills.get? id = some p₀ ∧ p₀.venueOrderId = none ∧ ∀ f ∈ fills, f.fillId ≠ id) ∨
      ∃ f ∈ fills, f.venueOrderId = none

namespace Brought

theorem nil (c : OrderCtx) : Brought c [] c where
  attributed := rfl
  qty := rfl
  count := rfl
  boundary := rfl
  knows := by simp
  domain := rfl
  unnamed id p h hp := .inl ⟨p, h, hp, by simp⟩

theorem after (h : Brought d fills e) (hs : SameAccount c d) : Brought c fills e where
  attributed := by rw [h.attributed, hs.attributed, hs.newFills]
  qty := h.qty.trans hs.qty
  count := h.count.trans hs.count
  boundary := h.boundary.trans hs.boundary
  knows id := by rw [h.knows, hs.fills]
  domain := by simp only [h.domain, hs.domainSum, hs.newFills, hs.inDomain]
  unnamed := by
    have := h.unnamed
    rwa [hs.fills] at this

theorem before (h : Brought c fills d) (hs : SameAccount d e) : Brought c fills e where
  attributed := hs.attributed.trans h.attributed
  qty := hs.qty.trans h.qty
  count := hs.count.trans h.count
  boundary := hs.boundary.trans h.boundary
  knows id := by rw [hs.fills, h.knows]
  domain := (hs.domainSum _).trans h.domain
  unnamed := by
    rw [hs.fills]
    exact h.unnamed

theorem inDomain (h : Brought c fills d) (ts : Int) : inDomain d ts = inDomain c ts := by
  simp only [Lifecycle.inDomain, fillInResponseDomain, h.count, h.boundary]

/-- The new fills of a list are those of its head, and those of its tail once the head is known. -/
theorem newFills_cons (h : Brought c [f] d) (fills : List FillRecord) :
    c.newFills (f :: fills) = c.newFills [f] ++ d.newFills fills := by
  have hknown : d.appliedFills.contains = fun id => decide (id = f.fillId) || c.appliedFills.contains id := by
    funext id
    rw [h.knows]
    simp [eq_comm]
  simp only [OrderCtx.newFills, newFills, hknown]
  cases hk : c.appliedFills.contains f.fillId with
  | true =>
      have hsame : (fun id => decide (id = f.fillId) || c.appliedFills.contains id) =
          c.appliedFills.contains := by
        funext id
        by_cases hid : id = f.fillId
        · simp [hid, hk]
        · simp [hid]
      simp [hsame]
  | false => simp

theorem cons (h : Brought c [f] d) (h' : Brought d fills e) : Brought c (f :: fills) e where
  attributed := by
    rw [h'.attributed, h.attributed, h.newFills_cons fills, List.map_append, List.sum_append]
    omega
  qty := h'.qty.trans h.qty
  count := h'.count.trans h.count
  boundary := h'.boundary.trans h.boundary
  knows id := by
    rw [h'.knows, h.knows]
    simp only [List.any_cons, List.any_nil, Bool.or_false]
    cases decide (f.fillId = id) <;> simp
  domain := by
    rw [h'.domain, h.domain, h.newFills_cons fills, List.filter_append, List.map_append, List.sum_append]
    simp only [h.inDomain]
    omega
  unnamed id p hp hn := by
    rcases h'.unnamed id p hp hn with ⟨p₁, hp₁, hn₁, hne⟩ | ⟨g, hg, hgn⟩
    · rcases h.unnamed id p₁ hp₁ hn₁ with ⟨p₀, hp₀, hn₀, hne₀⟩ | ⟨g, hg, hgn⟩
      · refine .inl ⟨p₀, hp₀, hn₀, fun g hg => ?_⟩
        rcases List.mem_cons.mp hg with rfl | hg
        · exact hne₀ _ (by simp)
        · exact hne g hg
      · obtain rfl := List.mem_singleton.mp hg
        exact .inr ⟨g, by simp, hgn⟩
    · exact .inr ⟨g, by simp [hg], hgn⟩

/-- A fill under a known id leaves the quantities as they are. -/
theorem known {prev p : FillPayload} (hk : c.appliedFills.get? f.fillId = some prev)
    (hd : d.appliedFills = c.appliedFills.insert f.fillId p) (hqty : p.qty = prev.qty)
    (hts : p.tsNs = prev.tsNs) (hv : p.venueOrderId = f.venueOrderId)
    (ha : d.attributedFillQty = c.attributedFillQty) (hq : d.qty = c.qty)
    (hc : d.responseFillCount = c.responseFillCount)
    (hb : d.responseSnapshotBoundary = c.responseSnapshotBoundary) : Brought c [f] d := by
  have hknown : c.appliedFills.contains f.fillId = true := OrdMap.contains_iff.mpr ⟨prev, hk⟩
  have hnone : c.newFills [f] = [] := by simp [OrderCtx.newFills, Lifecycle.newFills, hknown]
  have hin : ∀ ts, Lifecycle.inDomain d ts = Lifecycle.inDomain c ts := fun ts => by
    simp only [Lifecycle.inDomain, fillInResponseDomain, hc, hb]
  refine ⟨by rw [ha, hnone]; rfl, hq, hc, hb, fun id => ?_, ?_, fun id p' hp' hn => ?_⟩
  · rw [OrdMap.contains, hd, OrdMap.get?_insert]
    by_cases hid : id = f.fillId
    · simp [hid]
    · simp [hid, Ne.symm hid, OrdMap.contains]
  · rw [hnone]
    have hsum := OrdMap.sumBy_insert_old p (fun p => if Lifecycle.inDomain c p.tsNs then p.qty else 0) hk
    simp only [hqty, hts] at hsum
    simp only [domainSum, hd, hin]
    simpa using hsum
  · rw [hd, OrdMap.get?_insert] at hp'
    split_ifs at hp' with hid
    · cases hp'
      exact .inr ⟨f, by simp, by rw [← hv, hn]⟩
    · exact .inl ⟨p', hp', hn, fun g hg => by
        obtain rfl := List.mem_singleton.mp hg
        exact fun h => hid h.symm⟩

theorem booked (hb : Bookable c f) : Brought c [f] (bookedCtx c f) := by
  have hfresh : c.appliedFills.contains f.fillId = false := OrdMap.contains_eq_false.mpr hb.fresh
  have hnew : c.newFills [f] = [f] := by simp [OrderCtx.newFills, Lifecycle.newFills, hfresh]
  have hfills := (bookedCtx_books c f).1
  have hsame : SameAccount (bookedBase c f) (bookedCtx c f) := by
    obtain ⟨q, n, g, he⟩ :=
      accumulateResponseDomain_eq (bookedBase c f) f.qty f.priceCents f.feeCents f.tsNs
    rw [bookedCtx, he]
    exact ⟨rfl, rfl, rfl, rfl, rfl⟩
  refine ⟨?_, hsame.qty, hsame.count, hsame.boundary, fun id => ?_, ?_, fun id p hp hn => ?_⟩
  · rw [(bookedCtx_books c f).2.1, hnew]
    simp
  · rw [OrdMap.contains, hfills, OrdMap.get?_insert]
    by_cases hid : id = f.fillId
    · simp [hid]
    · simp [hid, Ne.symm hid, OrdMap.contains]
  · rw [hsame.domainSum, domainSum_booked hb, hnew]
    cases h : Lifecycle.inDomain c f.tsNs <;> simp [h, FillRecord.payload]
  · rw [hfills, OrdMap.get?_insert] at hp
    split_ifs at hp with hid
    · cases hp
      exact .inr ⟨f, by simp, hn⟩
    · exact .inl ⟨p, hp, hn, fun g hg => by
        obtain rfl := List.mem_singleton.mp hg
        exact fun h => hid h.symm⟩

theorem held (h : InBooks c f) : Brought c [f] c := by
  obtain ⟨p, hp, hc⟩ := h
  have hsame : c.appliedFills.insert f.fillId p = c.appliedFills := by
    refine OrdMap.ext_get? fun id => ?_
    rw [OrdMap.get?_insert]
    split_ifs with hid
    · rw [hid, hp]
    · rfl
  exact .known hp hsame.symm rfl rfl hc.venue rfl rfl rfl rfl

/-- A fill that was not refused is brought. -/
theorem attempt {a : AccountAttempt} (h : tryAccountFill c f = (a, d))
    (ha : ∀ reason fx, a ≠ .halt reason fx) : Brought c [f] d := by
  have hheld := tryAccountFill_inBooks h ha
  have hacc := tryAccountFill_accounting c f
  rw [h] at hacc
  cases hacc with
  | ignored => exact .held hheld
  | refused reason => exact absurd rfl (ha reason [])
  | completed prev hc => exact .known hc.known rfl rfl rfl rfl rfl rfl rfl rfl
  | booked hb _ => exact .booked hb
  | overfilled _ _ => exact absurd rfl (ha _ _)

/-- A batch that is taken in whole is brought. -/
theorem batch {refuse : FillRecord → Option HaltReason}
    (h : accountFills refuse c fx fills = .ok (gx, d)) : Brought c fills d := by
  induction fills generalizing c fx with
  | nil =>
      cases h
      exact .nil _
  | cons f fills ih =>
      simp only [accountFills] at h
      split at h
      · cases h
      · split at h
        · exact (attempt ‹_› (by simp)).cons (ih h)
        · exact (attempt ‹_› (by simp)).cons (ih h)
        · exact (attempt ‹_› (by simp)).cons (ih h)
        · cases h

/-- Where the fills are named and close the response's domain, nothing blocks the covered order. -/
theorem unblocked (h : Brought c fills d) (hd : Sound d) (hfull : d.attributedFillQty = d.qty)
    (hn : c.namedWith fills = true) (hc : c.closedWith fills = true) : ¬ Blocked d := by
  rw [OrderCtx.namedWith, Bool.and_eq_true, List.all_eq_true, List.all_eq_true] at hn
  rintro (⟨id, p, hp, hpn⟩ | ⟨rc, hrc, hrel, hopen⟩)
  · rcases h.unnamed id p hp hpn with ⟨p₀, hp₀, hn₀, hne⟩ | ⟨f, hf, hfn⟩
    · have := hn.1 (id, p₀) (OrdMap.mem_entries.mpr hp₀)
      simp only [hn₀, Option.isSome_none, Bool.false_or, List.any_eq_true, decide_eq_true_eq] at this
      obtain ⟨f, hf, hid⟩ := this
      exact hne f hf hid
    · have := hn.2 f hf
      simp [hfn] at this
  · have hrel' : hasReliableBoundary c = true := by
      simpa only [hasReliableBoundary, h.boundary] using hrel
    simp only [OrderCtx.closedWith, ← h.count, hrc, hrel', Bool.not_true, Bool.false_or,
      decide_eq_true_eq, ← h.domain] at hc
    have hqty := hd.current.qty
    have hcount := hd.counted rc hrc
    have hbound := hd.accounted.bounded
    have hword := hd.accounted.qtyWord
    omega

end Brought

/-! ## The gate of a covered order -/

theorem halted_silent {reason : HaltReason} (h : (haltWithReason reason fx).newState = some s)
    (hs : isRestartFrozen s = false) : False := by
  cases h
  cases hs

/-- The ownership gate asks for more where a booked fill names no venue. -/
theorem ownershipGate_notReady {backfill ask : Bool}
    (h : ownershipGate c = some (.notReady backfill ask)) :
    ∃ id p, c.appliedFills.get? id = some p ∧ p.venueOrderId = none := by
  simp only [ownershipGate] at h
  split at h
  · cases h
  · split at h
    · cases h
    · cases h
    · rename_i hblock
      obtain ⟨e, he, hbl⟩ := List.exists_of_findSome?_eq_some hblock
      refine ⟨e.1, e.2, OrdMap.mem_entries.mp he, ?_⟩
      cases hv : e.2.venueOrderId with
      | none => rfl
      | some got =>
          simp only [hv] at hbl
          split at hbl <;> cases hbl

/-- The response's gate asks for more where the domain is open. -/
theorem responseDomainGate_notReady {backfill ask : Bool}
    (h : responseDomainGate c = some (.notReady backfill ask)) :
    ∃ rc, c.responseFillCount = some rc ∧ hasReliableBoundary c = true ∧ c.responseDomainQty < rc := by
  simp only [responseDomainGate] at h
  cases hrc : c.responseFillCount with
  | none => simp [hrc] at h
  | some rc =>
      simp only [hrc] at h
      split at h
      · rename_i hrel
        split at h
        · rename_i hlt
          exact ⟨rc, rfl, hrel, hlt⟩
        · split at h
          · cases h
          · split at h
            · cases h
            · split at h <;> cases h
      · cases h

/-- With its obligation met and its authority fresh, an order that the gate keeps waiting is blocked. -/
theorem finalizeGate_notReady {backfill ask : Bool} (h : finalizeGate c = some (.notReady backfill ask))
    (hobl : c.attributedFillQty = c.fillObligation) (hfresh : c.authorityIsFresh = true) : Blocked c := by
  simp only [finalizeGate, hfresh, Bool.not_true, Bool.false_eq_true, if_false, hobl, ne_eq,
    not_true_eq_false] at h
  cases ho : ownershipGate c with
  | some failure =>
      simp only [ho, Option.some.injEq] at h
      subst h
      exact .inl (ownershipGate_notReady ho)
  | none =>
      rw [ho] at h
      exact .inr (responseDomainGate_notReady h)

/-- Past the gate, a covered order waits as `Filled` only where the venue's quantities differ. -/
theorem finalizeFilled_waits {q r : Nat} (h : (finalizeFilled c v fx q r).newState = some s)
    (hs : isRestartFrozen s = false) (hfull : c.attributedFillQty = c.qty) :
    q ≤ c.qty ∧ (q ≠ c.qty ∨ r ≠ 0) := by
  have hrem : c.remainingQtyChecked = some 0 := by
    simp [OrderCtx.remainingQtyChecked, checkedSub, hfull]
  simp only [finalizeFilled, hrem] at h
  split at h
  · exact (halted_silent h hs).elim
  · split at h
    · rename_i hle hne
      simp only [not_true_eq_false, or_false, ne_eq] at hne
      exact ⟨by omega, hne⟩
    · cases h
      cases hs

/-- A covered order with fresh authority waits for its ownership, its response or, as `Filled`, for the
venue's quantities. -/
theorem tryFinalizeTerminal_waits {p : ProposedTerminal} {fb : ReconcileTerminal}
    (h : (tryFinalizeTerminal c p v fx fb).newState = some s) (hs : isRestartFrozen s = false)
    (hc : Accounted c) (hfull : c.attributedFillQty = c.qty) (hfresh : c.authorityIsFresh = true) :
    Blocked c ∨ ∃ q r, p = .filled q r ∧ q ≤ c.qty ∧ (q ≠ c.qty ∨ r ≠ 0) := by
  have hobl : c.attributedFillQty = c.fillObligation := by
    have := hc.covered
    have := hc.bounded
    omega
  simp only [tryFinalizeTerminal] at h
  cases hg : finalizeGate c with
  | some failure =>
      cases failure with
      | halt reason =>
          rw [hg] at h
          exact (halted_silent h hs).elim
      | notReady backfill ask => exact .inl (finalizeGate_notReady hg hobl hfresh)
  | none =>
      rw [hg] at h
      cases p with
      | canceled =>
          cases h
          cases hs
      | terminal =>
          cases h
          cases hs
      | filled q r => exact .inr ⟨q, r, rfl, finalizeFilled_waits h hs hfull⟩

theorem latched_fresh (c : OrderCtx) : c.latchAuthorityComplete.authorityIsFresh = true := by
  simp [OrderCtx.authorityIsFresh, OrderCtx.latchAuthorityComplete]

theorem routeLiveOrFilled_same : SameAccount c (routeLiveOrFilled c v fx).2 := by
  simp only [routeLiveOrFilled]
  split
  · exact .refl c
  · split
    · exact .latch c
    · split <;> exact .refl c

/-- A covered order that is routed waits only where it is blocked. -/
theorem routeLiveOrFilled_waits (h : (routeLiveOrFilled c v fx).1.newState = some s)
    (hs : isRestartFrozen s = false) (hc : Accounted c)
    (hfull : c.attributedFillQty = c.qty) : Blocked (routeLiveOrFilled c v fx).2 := by
  have hrem : c.remainingQtyChecked = some 0 := by
    simp [OrderCtx.remainingQtyChecked, checkedSub, hfull]
  have hlatch : Accounted c.latchAuthorityComplete := hc.congr rfl rfl rfl rfl le_rfl hc.bounded
  simp only [routeLiveOrFilled, hrem, if_true, noteAuthorityComplete] at h ⊢
  rcases tryFinalizeTerminal_waits h hs hlatch hfull (latched_fresh c) with hb | ⟨q, r, hp, -, hne⟩
  · exact hb
  · cases hp
    exact absurd hfull (by simpa [OrderCtx.latchAuthorityComplete] using hne)

/-! ## Handlers -/

theorem resolveUnattributed_same {rc remaining : Nat} {avg fee : Option Nat} :
    SameAccount c (resolveUnattributed c v rc remaining avg fee fx).2 := by
  simp only [resolveUnattributed]
  split
  · exact .refl c
  · exact .refl c
  · refine .trans ?_ routeLiveOrFilled_same
    exact ⟨rfl, rfl, rfl, rfl, rfl⟩

/-- Where the fills reach the response's count, only the reliable domain can fall short of it. -/
theorem checkUnattributed_wait {rc remaining : Nat} {avg fee : Option Nat}
    (h : checkUnattributed c rc remaining avg fee = .wait) (hle : rc ≤ c.attributedFillQty) :
    hasReliableBoundary c = true ∧ c.responseDomainQty < rc := by
  simp only [checkUnattributed] at h
  split at h
  · rename_i hrel
    split at h
    · rename_i hlt
      exact ⟨hrel, hlt⟩
    · split at h
      · cases h
      · split at h
        · cases h
        · split at h
          · cases h
          · split at h <;> cases h
  · split at h
    · omega
    · split at h <;> cases h

/-- A covered order goes on waiting for the fills of its response only where it is blocked. -/
theorem resolveUnattributed_waits {rc remaining : Nat} {avg fee : Option Nat}
    (h : (resolveUnattributed c v rc remaining avg fee fx).1.newState = some s)
    (hs : isRestartFrozen s = false) (hc : Accounted c)
    (hfull : c.attributedFillQty = c.qty) (hrc : c.responseFillCount = some rc) (hle : rc ≤ c.qty) :
    Blocked (resolveUnattributed c v rc remaining avg fee fx).2 := by
  simp only [resolveUnattributed] at h ⊢
  cases hcheck : checkUnattributed c rc remaining avg fee with
  | wait =>
      obtain ⟨hrel, hlt⟩ := checkUnattributed_wait hcheck (by omega)
      exact .inr ⟨rc, hrc, hrel, hlt⟩
  | halt reason =>
      rw [hcheck] at h
      exact (halted_silent h hs).elim
  | resolved =>
      simp only [hcheck] at h
      exact routeLiveOrFilled_waits h hs (hc.congr rfl rfl rfl rfl le_rfl hc.bounded) hfull

theorem finalizeReconcileTarget_waits {t : ReconcileTarget}
    (h : (finalizeReconcileTarget c t fx v).newState = some s) (hs : isRestartFrozen s = false)
    (hc : Accounted c) (hfull : c.attributedFillQty = c.qty) (hfresh : c.authorityIsFresh = true)
    (ht : t.venueFilledQty = c.qty) : Blocked c ∨ ¬ TargetCovers c (some t) := by
  cases hk : t.terminal with
  | canceled =>
      simp only [finalizeReconcileTarget, hk] at h
      rcases tryFinalizeTerminal_waits h hs hc hfull hfresh with hb | ⟨q, r, hp, -⟩
      · exact .inl hb
      · cases hp
  | terminal =>
      simp only [finalizeReconcileTarget, hk] at h
      rcases tryFinalizeTerminal_waits h hs hc hfull hfresh with hb | ⟨q, r, hp, -⟩
      · exact .inl hb
      · cases hp
  | filled =>
      simp only [finalizeReconcileTarget, hk, ht, if_true] at h
      rcases tryFinalizeTerminal_waits h hs hc hfull hfresh with hb | ⟨q, r, hp, -, hne⟩
      · exact .inl hb
      · cases hp
        refine .inr fun hcov => ?_
        have hrem := hcov.2 hk
        simp only [ne_eq, not_true_eq_false, false_or] at hne
        apply hne
        cases hr : t.venueRemainingQty with
        | none => simpa [hr] using hrem
        | some r => simpa [hr] using hrem

theorem afterFillTarget_same {t : ReconcileTarget} {remaining : Nat} :
    SameAccount c (afterFillTarget c v t fx remaining).2 := by
  simp only [afterFillTarget]
  split
  · exact .refl c
  · rename_i hn
    have hd := SameAccount.evidence hn
    split
    · split <;> exact hd
    · split
      · exact hd.trans (.authority _ _)
      · exact hd

theorem targetCovers_congr {t : Option ReconcileTarget} (hq : d.qty = c.qty)
    (hl : d.lastVenueRemainingQty = c.lastVenueRemainingQty) :
    TargetCovers d t ↔ TargetCovers c t := by
  cases t <;> simp only [TargetCovers, hq, hl]

/-- A covered order with a known target waits where it is blocked or the target counts less. -/
theorem afterFillTarget_waits {t : ReconcileTarget} {remaining : Nat}
    (h : (afterFillTarget c v t fx remaining).1.newState = some s) (hs : isRestartFrozen s = false)
    (hc : Accounted c) (hfull : c.attributedFillQty = c.qty) :
    Blocked (afterFillTarget c v t fx remaining).2 ∨ ¬ TargetCovers c (some t) := by
  simp only [afterFillTarget] at h ⊢
  cases hn : noteFillEvidence c t.venueFilledQty with
  | error reason =>
      rw [hn] at h
      exact (halted_silent h hs).elim
  | ok r =>
      obtain ⟨jr, d⟩ := r
      have hsame := SameAccount.evidence hn
      have hd : Accounted d := Moves.accounted (P := .any) (noteFillEvidence_trail hn) hc
      have hlast : d.lastVenueRemainingQty = c.lastVenueRemainingQty := by
        obtain ⟨-, ⟨-, -, rfl⟩ | ⟨-, -, rfl⟩⟩ := noteFillEvidence_ok hn
        · rfl
        · exact raisedCtx_remaining _ _
      have hle : t.venueFilledQty ≤ c.qty := (noteFillEvidence_ok hn).1
      have hqty : d.qty = c.qty := hsame.qty
      have hfull' : d.attributedFillQty = d.qty := by rw [hsame.attributed, hqty, hfull]
      have hobl : d.attributedFillQty = d.fillObligation := by
        have := hd.covered
        have := hd.bounded
        omega
      simp only [hn] at h ⊢
      by_cases hlow : t.venueFilledQty < d.attributedFillQty
      · refine .inr fun hcov => ?_
        have := hcov.1
        omega
      · have hvf : d.attributedFillQty = t.venueFilledQty := by omega
        have hfill : (d.attributedFillQty == d.qty) = true := by simpa using hfull'
        have hlatch : Accounted d.latchAuthorityComplete := hd.congr rfl rfl rfl rfl le_rfl hd.bounded
        rw [← targetCovers_congr (d := d.latchAuthorityComplete) hqty hlast]
        simp only [if_neg hlow, if_pos (And.intro hvf hobl), noteAuthorityComplete, if_pos hfill] at h ⊢
        exact finalizeReconcileTarget_waits h hs hlatch hfull' (latched_fresh d) (hvf.symm.trans hfull')

theorem afterFillCancelOrReconcile_same {t : Option ReconcileTarget} {n : Nat} {enriched : Bool} :
    SameAccount c (afterFillCancelOrReconcile c v t fx n enriched).2 := by
  simp only [afterFillCancelOrReconcile]
  split
  · exact .refl c
  · split
    · exact afterFillTarget_same
    · split
      · exact .latch c
      · exact .refl c

/-- A new fill that covers the order leaves it waiting where it is blocked or the target counts less. -/
theorem afterFillCancelOrReconcile_waits {t : Option ReconcileTarget} {n : Nat}
    (h : (afterFillCancelOrReconcile c v t fx n false).1.newState = some s) (hs : isRestartFrozen s = false)
    (hc : Accounted c) (hfull : c.attributedFillQty = c.qty) :
    Blocked (afterFillCancelOrReconcile c v t fx n false).2 ∨ ¬ TargetCovers c t := by
  have hrem : c.remainingQtyChecked = some 0 := by
    simp [OrderCtx.remainingQtyChecked, checkedSub, hfull]
  simp only [afterFillCancelOrReconcile, hrem] at h ⊢
  cases t with
  | some t => exact afterFillTarget_waits h hs hc hfull
  | none =>
      have hlatch : Accounted c.latchAuthorityComplete := hc.congr rfl rfl rfl rfl le_rfl hc.bounded
      simp only [and_self, if_true, noteAuthorityComplete] at h ⊢
      rcases tryFinalizeTerminal_waits h hs hlatch hfull (latched_fresh c) with hb | ⟨q, r, hp, -, hne⟩
      · exact .inl hb
      · cases hp
        exact absurd hfull (by simpa [OrderCtx.latchAuthorityComplete] using hne)

/-- After the fill is taken in, the routing leaves the account alone. -/
theorem applyFillWhileOpen_same : SameAccount (tryAccountFill c f).2 (applyFillWhileOpen s c f).2 := by
  simp only [applyFillWhileOpen]
  rcases tryAccountFill c f with ⟨a, d⟩
  cases a with
  | noOp => exact .refl d
  | halt reason e => exact .refl d
  | enriched e =>
      dsimp only
      split
      · exact afterFillCancelOrReconcile_same
      · exact afterFillCancelOrReconcile_same
      · exact .refl d
  | applied e =>
      dsimp only
      split
      · exact .refl d
      · exact afterFillCancelOrReconcile_same
      · exact afterFillCancelOrReconcile_same
      · exact routeLiveOrFilled_same

/-- A fill leaves an open order covered and waiting only where it is new, and where the order is blocked
or the known target counts less. -/
theorem applyFillWhileOpen_waits (h : (applyFillWhileOpen s c f).1.newState = some s')
    (hs : isRestartFrozen s' = false) (hc : Accounted c) (hbefore : c.attributedFillQty ≠ c.qty)
    (hfull : (applyFillWhileOpen s c f).2.attributedFillQty = (applyFillWhileOpen s c f).2.qty) :
    Brought c [f] (applyFillWhileOpen s c f).2 ∧
      ∀ t, s.intent = some t → Blocked (applyFillWhileOpen s c f).2 ∨ ¬ TargetCovers c t := by
  have ha := tryAccountFill_accounting c f
  have hd := applyFillWhileOpen_same (c := c) (s := s) (f := f)
  rcases hres : tryAccountFill c f with ⟨a, d⟩
  rw [hres] at hd
  rw [hd.attributed, hd.qty] at hfull
  rw [hres] at ha
  have hkeep : d.attributedFillQty = c.attributedFillQty → d.qty = c.qty → False := fun h₁ h₂ =>
    hbefore (by rw [← h₁, ← h₂, hfull])
  cases a with
  | noOp =>
      obtain rfl : d = c := by
        cases ha
        rfl
      exact absurd hfull hbefore
  | halt reason e =>
      simp only [applyFillWhileOpen, hres] at h
      exact (halted_silent h hs).elim
  | enriched e =>
      cases ha with
      | completed prev hp => exact (hkeep rfl rfl).elim
  | applied e =>
      have hb : Brought c [f] d := .attempt hres (by simp)
      have hacc : Accounted d := Moves.accounted (P := .any) (ha.trail trivial) hc
      have hcov : ∀ t, TargetCovers d t ↔ TargetCovers c t := fun t =>
        targetCovers_congr hb.qty ha.remaining
      refine ⟨hb.before hd, fun t ht => ?_⟩
      simp only [applyFillWhileOpen, hres] at h ⊢
      cases s with
      | accepted v =>
          cases ht
          exact .inl (routeLiveOrFilled_waits h hs hacc hfull)
      | partialFill v q r =>
          cases ht
          exact .inl (routeLiveOrFilled_waits h hs hacc hfull)
      | cancelPending v q r rc avg fee t' =>
          cases ht
          exact (afterFillCancelOrReconcile_waits h hs hacc hfull).imp_right fun hnot hc =>
            hnot ((hcov _).mpr hc)
      | reconcilePending v q r t' rc avg fee =>
          cases ht
          exact (afterFillCancelOrReconcile_waits h hs hacc hfull).imp_right fun hnot hc =>
            hnot ((hcov _).mpr hc)
      | _ => cases ht

/-! ## Venue rows -/

/-- What a row that counts the whole order has to say so that the order ends with it. An order that
lives on with something left contradicts its fills and halts, as does one with other members. -/
def rowEnds (status : BackfillOrderStatus) (remaining others : Nat) : Bool :=
  match status with
  | .canceled => true
  | .filled => decide (remaining = 0) || decide (0 < others)
  | .openOrder | .partialFill => decide (0 < remaining) || decide (0 < others)

theorem Brought.idle (h : Brought c fills d) (h' : Brought d [] e) : Brought c fills e where
  attributed := h'.attributed.trans h.attributed
  qty := h'.qty.trans h.qty
  count := h'.count.trans h.count
  boundary := h'.boundary.trans h.boundary
  knows id := by rw [h'.knows, List.any_nil, Bool.false_or, h.knows]
  domain := h'.domain.trans h.domain
  unnamed id p hp hn := by
    rcases h'.unnamed id p hp hn with ⟨p₀, hp₀, hn₀, -⟩ | ⟨f, hf, -⟩
    · exact h.unnamed id p₀ hp₀ hn₀
    · cases hf

theorem accountFills_accounted {refuse : FillRecord → Option HaltReason} (hc : Accounted c)
    (h : accountFills refuse c fx fills = .ok (gx, d)) : Accounted d := by
  obtain ⟨_, _, hdr⟩ := accountFills_drained (P := .any) refuse c fx fills fun _ _ => trivial
  rw [h] at hdr
  exact Moves.accounted hdr.trail hc

theorem backfillMemberQuantities_ok {filled others m cap : Nat}
    (h : backfillMemberQuantities c filled others = .ok (m, cap)) :
    others ≤ filled ∧ m = filled - others ∧ others ≤ c.qty ∧ cap = c.qty - others := by
  simp only [backfillMemberQuantities] at h
  split at h
  · rename_i hf hc
    obtain ⟨hle, rfl⟩ := checkedSub_eq_some.mp hf
    obtain ⟨hle', rfl⟩ := checkedSub_eq_some.mp hc
    cases h
    exact ⟨hle, rfl, hle', rfl⟩
  · cases h

/-- A row that says that a covered order lives on halts it, or leaves it with nothing remaining. -/
theorem routeOpen_waits {status : BackfillOrderStatus} {filled remaining others m cap : Nat}
    {fromUnknown : Bool} (hst : status = .openOrder ∨ status = .partialFill)
    (h : (routeStatus c v status filled remaining m cap fx true fromUnknown).newState = some s)
    (hs : isRestartFrozen s = false) (hq : 0 < c.qty) (hfull : c.attributedFillQty = c.qty) (hm : m = c.qty)
    (hcap : cap = c.qty - others) : rowEnds status remaining others = false := by
  have hne : ¬ c.attributedFillQty ≠ m := by omega
  rcases hst with rfl | rfl
  all_goals
    simp only [routeStatus, Bool.not_true, Bool.and_false, Bool.false_eq_true, if_false, if_neg hne] at h
    cases hsub : checkedSub cap c.attributedFillQty with
    | none =>
        rw [hsub] at h
        exact (halted_silent h hs).elim
    | some rest =>
        obtain ⟨hfit, rfl⟩ := checkedSub_eq_some.mp hsub
        simp only [hsub] at h
        split at h
        · exact (halted_silent h hs).elim
        · have hothers : others = 0 := by omega
          have hzero : remaining = 0 := by omega
          simp [rowEnds, hothers, hzero]

/-- A covered order whose row is confirmed waits where it is blocked or the row does not end it. -/
theorem routeStatus_waits {status : BackfillOrderStatus} {filled remaining others m cap : Nat}
    {fromUnknown : Bool}
    (h : (routeStatus c v status filled remaining m cap fx true fromUnknown).newState = some s)
    (hs : isRestartFrozen s = false) (hc : Accounted c) (hq : 0 < c.qty) (hfull : c.attributedFillQty = c.qty)
    (hfresh : c.authorityIsFresh = true) (hm : m = c.qty) (hfilled : filled = m + others)
    (hcap : cap = c.qty - others) :
    Blocked c ∨ rowEnds status remaining others = false := by
  have hfrom : (fromUnknown && !true) = false := by simp
  cases status with
  | canceled =>
      simp only [routeStatus, stayUnknown, hfrom, Bool.false_eq_true, if_false] at h
      rcases tryFinalizeTerminal_waits h hs hc hfull hfresh with hb | ⟨q, r, hp, -⟩
      · exact .inl hb
      · cases hp
  | filled =>
      simp only [routeStatus, stayUnknown, hfrom, Bool.false_eq_true, if_false] at h
      rcases tryFinalizeTerminal_waits h hs hc hfull hfresh with hb | ⟨q, r, hp, hle, hne⟩
      · exact .inl hb
      · cases hp
        have hothers : others = 0 := by omega
        have hrem : remaining ≠ 0 := by
          rcases hne with hne | hne
          · omega
          · exact hne
        exact .inr (by simp [rowEnds, hothers, hrem])
  | openOrder => exact .inr (routeOpen_waits (.inl rfl) h hs hq hfull hm hcap)
  | partialFill => exact .inr (routeOpen_waits (.inr rfl) h hs hq hfull hm hcap)

theorem routeBackfillFills_waits {status : BackfillOrderStatus} {filled remaining others m cap : Nat}
    {complete fromUnknown : Bool}
    (h : (routeBackfillFills c v status filled remaining others m cap fx fills complete
      fromUnknown).1.newState = some s) (hs : isRestartFrozen s = false) (hc : Accounted c) (hq : 0 < c.qty)
    (hfull : (routeBackfillFills c v status filled remaining others m cap fx fills complete
        fromUnknown).2.attributedFillQty =
      (routeBackfillFills c v status filled remaining others m cap fx fills complete fromUnknown).2.qty)
    (hm : m ≤ c.qty) (hfilled : filled = m + others) (hcap : cap = c.qty - others) :
    Brought c fills (routeBackfillFills c v status filled remaining others m cap fx fills complete
        fromUnknown).2 ∧
      (complete = true →
        Blocked (routeBackfillFills c v status filled remaining others m cap fx fills complete
            fromUnknown).2 ∨ rowEnds status remaining others = false) := by
  simp only [routeBackfillFills] at h hfull ⊢
  cases hbook : accountFills (fun _ => none) c fx fills with
  | error r =>
      obtain ⟨reason, gx, d⟩ := r
      rw [hbook] at h
      exact (halted_silent h hs).elim
  | ok r =>
      obtain ⟨gx, d⟩ := r
      have hb : Brought c fills d := .batch hbook
      have hd : Accounted d := accountFills_accounted hc hbook
      have hsame := SameAccount.authority d complete
      simp only [hbook] at h hfull ⊢
      by_cases hover : m < (noteAuthorityComplete d complete).2.attributedFillQty
      · simp only [if_pos hover] at h
        exact (halted_silent h hs).elim
      · simp only [if_neg hover] at h hfull ⊢
        refine ⟨hb.before hsame, fun hcomp => ?_⟩
        subst hcomp
        have hqty : d.latchAuthorityComplete.qty = c.qty := hb.qty
        have hlatch : Accounted d.latchAuthorityComplete := hd.congr rfl rfl rfl rfl le_rfl hd.bounded
        simp only [noteAuthorityComplete, if_true] at h hover hfull ⊢
        exact routeStatus_waits h hs hlatch (by omega) hfull (latched_fresh d) (by omega) hfilled
          (by rw [hcap, hqty])

theorem routeFromBackfillStatus_waits {status : BackfillOrderStatus} {filled remaining others : Nat}
    {complete fromUnknown : Bool}
    (h : (routeFromBackfillStatus c v status filled remaining others fills complete
      fromUnknown).1.newState = some s) (hs : isRestartFrozen s = false) (hc : Accounted c) (hq : 0 < c.qty)
    (hfull : (routeFromBackfillStatus c v status filled remaining others fills complete
        fromUnknown).2.attributedFillQty =
      (routeFromBackfillStatus c v status filled remaining others fills complete fromUnknown).2.qty) :
    Brought c fills (routeFromBackfillStatus c v status filled remaining others fills complete
        fromUnknown).2 ∧
      (complete = true →
        Blocked (routeFromBackfillStatus c v status filled remaining others fills complete
            fromUnknown).2 ∨ rowEnds status remaining others = false) := by
  simp only [routeFromBackfillStatus] at h hfull ⊢
  cases hmem : backfillMemberQuantities c filled others with
  | error reason =>
      rw [hmem] at h
      exact (halted_silent h hs).elim
  | ok r =>
      obtain ⟨m, cap⟩ := r
      obtain ⟨hle, rfl, hle', rfl⟩ := backfillMemberQuantities_ok hmem
      cases hbind : bindVenueId c v with
      | error reason =>
          simp only [hmem, hbind] at h
          exact (halted_silent h hs).elim
      | ok r =>
          obtain ⟨bindJr, d₁⟩ := r
          simp only [hmem, hbind] at h hfull ⊢
          have hsame₁ := (SameAccount.bind hbind).trans (.note d₁ remaining)
          have hacc₁ : Accounted (d₁.noteVenueRemaining remaining) :=
            (Moves.accounted (P := .any) (bindVenueId_trail hbind) hc).note remaining
          cases hn : noteFillEvidence (d₁.noteVenueRemaining remaining) (filled - others) with
          | error reason =>
              simp only [hn] at h
              exact (halted_silent h hs).elim
          | ok r =>
              obtain ⟨jr, d⟩ := r
              have hsame := hsame₁.trans (SameAccount.evidence hn)
              have hacc : Accounted d := Moves.accounted (P := .any) (noteFillEvidence_trail hn) hacc₁
              have hm : filled - others ≤ d.qty := by
                have := (noteFillEvidence_ok hn).1
                rw [hsame.qty, ← hsame₁.qty]
                exact this
              simp only [hn] at h hfull ⊢
              obtain ⟨hb, hw⟩ := routeBackfillFills_waits h hs hacc (by rw [hsame.qty]; exact hq) hfull hm
                (by omega) (by rw [hsame.qty])
              exact ⟨hb.after hsame, hw⟩

theorem prependEffects_newState {o : TransitionOutcome} {pre : List Effect} :
    (o.prependEffects pre).newState = o.newState := by
  cases o <;> rfl

theorem resolveReconcileVenue_same {ev : Option VenueOrderId} {w : VenueOrderId}
    {jr : Option JournalRecord} (hc : Accounted c) (h : resolveReconcileVenue c v ev = .ok (w, jr, d)) :
    SameAccount c d ∧ Accounted d := by
  simp only [resolveReconcileVenue] at h
  cases hbind : bindVenueId c v with
  | error reason => simp [hbind] at h
  | ok r =>
      obtain ⟨bindJr, d₁⟩ := r
      have hsame := SameAccount.bind hbind
      have hacc : Accounted d₁ := Moves.accounted (P := .any) (bindVenueId_trail hbind) hc
      simp only [hbind] at h
      cases ev with
      | none =>
          cases h
          exact ⟨hsame, hacc⟩
      | some ev =>
          cases hbind' : bindVenueId d₁ ev with
          | error reason => simp [hbind'] at h
          | ok r =>
              obtain ⟨jr', d₂⟩ := r
              have hd : d₂ = d := by
                cases jr' <;> simp only [hbind', Except.ok.injEq, Prod.mk.injEq] at h <;> exact h.2.2
              subst hd
              exact ⟨hsame.trans (.bind hbind'),
                Moves.accounted (P := .any) (bindVenueId_trail hbind') hacc⟩

theorem applyReconcileResult_waits {status : BackfillOrderStatus} {ev : Option VenueOrderId}
    {filled remaining : Nat} {complete : Bool}
    (h : (applyReconcileResult c v status ev filled remaining fills complete).1.newState = some s)
    (hs : isRestartFrozen s = false) (hc : Accounted c) (hq : 0 < c.qty)
    (hfull : (applyReconcileResult c v status ev filled remaining fills complete).2.attributedFillQty =
      (applyReconcileResult c v status ev filled remaining fills complete).2.qty) :
    Brought c fills (applyReconcileResult c v status ev filled remaining fills complete).2 ∧
      (complete = true →
        Blocked (applyReconcileResult c v status ev filled remaining fills complete).2 ∨
          rowEnds status remaining 0 = false) := by
  simp only [applyReconcileResult] at h hfull ⊢
  cases hres : resolveReconcileVenue c v ev with
  | error r =>
      obtain ⟨reason, jr, d⟩ := r
      rw [hres] at h
      exact (halted_silent h hs).elim
  | ok r =>
      obtain ⟨w, jr, d⟩ := r
      simp only [hres, prependEffects_newState] at h hfull ⊢
      obtain ⟨hsame, hacc⟩ := resolveReconcileVenue_same hc hres
      obtain ⟨hb, hw⟩ := routeFromBackfillStatus_waits h hs hacc (by rw [hsame.qty]; exact hq) hfull
      exact ⟨hb.after hsame, hw⟩

/-- The unique row of a submission of unknown outcome is under the shell's authority. -/
theorem applyUniqueBackfill_waits {r : BackfillOrderRecord}
    (h : (applyUniqueBackfill c r).1.newState = some s) (hs : isRestartFrozen s = false) (hc : Accounted c)
    (hq : 0 < c.qty)
    (hfull : (applyUniqueBackfill c r).2.attributedFillQty = (applyUniqueBackfill c r).2.qty) :
    Brought c r.fills (applyUniqueBackfill c r).2 ∧
      (Blocked (applyUniqueBackfill c r).2 ∨
        rowEnds r.status r.remainingQty r.otherMembersFilled = false) := by
  simp only [applyUniqueBackfill] at h hfull ⊢
  cases hmem : backfillMemberQuantities c r.filledQty r.otherMembersFilled with
  | error reason =>
      rw [hmem] at h
      exact (halted_silent h hs).elim
  | ok q =>
      obtain ⟨m, cap⟩ := q
      cases hbind : bindVenueId c r.venueOrderId with
      | error reason =>
          simp only [hmem, hbind] at h
          exact (halted_silent h hs).elim
      | ok q =>
          obtain ⟨bindJr, d₁⟩ := q
          simp only [hmem, hbind] at h hfull ⊢
          have hsame₁ := (SameAccount.bind hbind).trans (.note d₁ r.remainingQty)
          have hacc₁ : Accounted (d₁.noteVenueRemaining r.remainingQty) :=
            (Moves.accounted (P := .any) (bindVenueId_trail hbind) hc).note r.remainingQty
          cases hn : noteFillEvidence (d₁.noteVenueRemaining r.remainingQty) m with
          | error reason =>
              simp only [hn] at h
              exact (halted_silent h hs).elim
          | ok q =>
              obtain ⟨jr, d₂⟩ := q
              have hsame := (hsame₁.trans (SameAccount.evidence hn)).trans (.latch d₂)
              have hacc₂ : Accounted d₂ := Moves.accounted (P := .any) (noteFillEvidence_trail hn) hacc₁
              have hacc : Accounted d₂.latchAuthorityComplete :=
                hacc₂.congr rfl rfl rfl rfl le_rfl hacc₂.bounded
              simp only [hn, noteAuthorityComplete, if_true, bookUniqueBackfill] at h hfull ⊢
              cases hbook : accountFills (missingVenue r.venueOrderId) d₂.latchAuthorityComplete
                  (pushJournal (pushJournal (pushJournal [] bindJr ++ [observedEffect
                    (d₁.noteVenueRemaining r.remainingQty) r.venueOrderId r.filledQty r.remainingQty
                    r.otherMembersFilled false]) jr) (some (.authorityLatched d₂.authorityEpoch)))
                  r.fills with
              | error q =>
                  obtain ⟨reason, gx, d⟩ := q
                  simp only [hbook] at h
                  exact (halted_silent h hs).elim
              | ok q =>
                  obtain ⟨gx, d⟩ := q
                  have hb : Brought c r.fills d := (Brought.batch hbook).after hsame
                  have hd : Accounted d := accountFills_accounted hacc hbook
                  have hdl : Accounted d.latchAuthorityComplete :=
                    hd.congr rfl rfl rfl rfl le_rfl hd.bounded
                  simp only [hbook, prependEffects_newState] at h hfull ⊢
                  obtain ⟨hidle, hw⟩ := routeFromBackfillStatus_waits h hs hdl
                    (by rw [show d.latchAuthorityComplete.qty = c.qty from hb.qty]; exact hq) hfull
                  exact ⟨(hb.before (.latch d)).idle hidle, hw rfl⟩

/-! ## The create response -/

theorem applyImmediateFillBackfill_waits {rc remaining : Nat} {avg fee : Option Nat}
    (h : (applyImmediateFillBackfill c v rc remaining avg fee fills).1.newState = some s)
    (hs : isRestartFrozen s = false) (hc : Sound c) (hrc : c.responseFillCount = some rc)
    (hfull : (applyImmediateFillBackfill c v rc remaining avg fee fills).2.attributedFillQty =
      (applyImmediateFillBackfill c v rc remaining avg fee fills).2.qty) :
    Brought c fills (applyImmediateFillBackfill c v rc remaining avg fee fills).2 ∧
      Blocked (applyImmediateFillBackfill c v rc remaining avg fee fills).2 := by
  simp only [applyImmediateFillBackfill] at h hfull ⊢
  cases hbind : bindVenueId c v with
  | error reason =>
      rw [hbind] at h
      exact (halted_silent h hs).elim
  | ok r =>
      obtain ⟨bindJr, d₁⟩ := r
      simp only [hbind] at h hfull ⊢
      cases hbook : accountFills (fun _ => none) d₁ (pushJournal [] bindJr) fills with
      | error r =>
          obtain ⟨reason, gx, d⟩ := r
          simp only [hbook] at h
          exact (halted_silent h hs).elim
      | ok r =>
          obtain ⟨gx, d⟩ := r
          have hb : Brought c fills d := (Brought.batch hbook).after (.bind hbind)
          have hd : Accounted d := accountFills_accounted
            (Moves.accounted (P := .any) (bindVenueId_trail hbind) hc.accounted) hbook
          simp only [hbook] at h hfull ⊢
          have hsame : SameAccount d (resolveUnattributed d v rc remaining avg fee gx).2 :=
            resolveUnattributed_same
          rw [hsame.attributed, hsame.qty] at hfull
          have hle : rc ≤ d.qty := by
            rw [hb.qty]
            exact (hc.counted rc hrc).trans hc.accounted.bounded
          exact ⟨hb.before hsame,
            resolveUnattributed_waits h hs hd hfull (hb.count.trans hrc) hle⟩

/-- A submission of unknown outcome takes its fills in and waits on. -/
theorem applyFillDedupOnly_waits (h : (applyFillDedupOnly c f s).1.newState = some s')
    (hs : isRestartFrozen s' = false) : Brought c [f] (applyFillDedupOnly c f s).2 := by
  simp only [applyFillDedupOnly] at h ⊢
  rcases hres : tryAccountFill c f with ⟨a, d⟩
  simp only [hres] at h ⊢
  cases a with
  | noOp => exact .attempt hres (by simp)
  | halt reason e => exact (halted_silent h hs).elim
  | applied e => exact .attempt hres (by simp)
  | enriched e => exact .attempt hres (by simp)

end Omsrs.Lifecycle
