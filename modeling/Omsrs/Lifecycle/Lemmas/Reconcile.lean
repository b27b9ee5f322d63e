import Omsrs.Lifecycle.Lemmas.Response

/-!
# Fills, venue rows and cancels on an open order
-/

namespace Omsrs.Lifecycle
open Omsrs.Lib

variable {P : Scope} {R : Prop} {c d : OrderCtx} {fx : List Effect} {v : VenueOrderId}

/-! ## Fills while a terminal intent is known -/

theorem finalizeReconcileTarget_lands (ht : Trail (Deed P) c fx d) (hd : Sound d)
    (hv : d.venueOrderId = some v) (hr : R) (target : ReconcileTarget) :
    Lands P R c (finalizeReconcileTarget d target fx v) d := by
  unfold finalizeReconcileTarget
  split <;> exact tryFinalizeTerminal_lands ht hd hv (fun _ => hr) _ _

theorem afterFillTarget_lands (ht : Trail (Deed P) c fx d) (hd : Sound d)
    (hv : d.venueOrderId = some v) (hr : R) (target : ReconcileTarget) (remaining : Nat) :
    Lands P R c (afterFillTarget d v target fx remaining).1
      (afterFillTarget d v target fx remaining).2 := by
  unfold afterFillTarget
  split
  · exact .halted ht _
  · rename_i jr d' hn
    have hm : Trail (Move P) d (pushJournal [] jr) d' := noteFillEvidence_trail hn
    have ht' := Deeds.push ht hm
    have hd' : Sound d' := hd.trail hm
    have hv' : d'.venueOrderId = some v := (Moves.kept hm).venue v hv
    dsimp only
    split
    · split
      · exact notReadyForTerminal_lands ht' hd' hv' _ _ _
      · exact .halted ht' _
    · split
      · cases hfull : d'.attributedFillQty == d'.qty with
        | true => exact finalizeReconcileTarget_lands (Deeds.latched ht') hd'.latch hv' hr _
        | false => exact finalizeReconcileTarget_lands ht' hd' hv' hr _
      · exact .accepted rfl ht' ⟨hd', hv', rfl⟩

theorem afterFillCancelOrReconcile_lands (ht : Trail (Deed P) c fx d) (hd : Sound d)
    (hv : d.venueOrderId = some v) (hr : R) (target : Option ReconcileTarget) (lastFillQty : Nat)
    (isEnrichment : Bool) :
    Lands P R c (afterFillCancelOrReconcile d v target fx lastFillQty isEnrichment).1
      (afterFillCancelOrReconcile d v target fx lastFillQty isEnrichment).2 := by
  unfold afterFillCancelOrReconcile
  split
  · exact .halted ht _
  · split
    · exact afterFillTarget_lands ht hd hv hr _ _
    · split
      · exact tryFinalizeTerminal_lands (Deeds.latched ht) hd.latch hv (fun _ => hr) _ _
      · exact .accepted rfl ht ⟨hd, hv, rfl, rfl, rfl, rfl, rfl⟩

/-- The states whose fills go through `applyFillWhileOpen`. -/
def takesFills : OrderState → Bool
  | .submitStarted _ | .accepted _ | .partialFill .. | .cancelPending .. | .reconcilePending .. => true
  | _ => false

theorem applyFillWhileOpen_lands {s : OrderState} (hs : takesFills s = true) (hc : Coherent s c)
    (hr : R) (f : FillRecord) (hf : P.offers f) :
    Lands P R c (applyFillWhileOpen s c f).1 (applyFillWhileOpen s c f).2 := by
  have hopen : isRestartFrozen s = false := by cases s <;> first | rfl | cases hs
  have ha := tryAccountFill_accounting c f
  unfold applyFillWhileOpen
  rcases hres : tryAccountFill c f with ⟨a, d⟩
  simp only [hres] at ha
  have ht := ha.trail hf
  cases a with
  | noOp =>
      obtain rfl : d = c := ht
      exact .accepted hopen (.nil _) hc
  | halt reason e => exact .halted (Moves.deeds ht) _
  | enriched e =>
      have hd : Sound d := hc.sound.trail ht
      have hqty : d.attributedFillQty = c.attributedFillQty := by
        cases ha with
        | completed _ _ => rfl
      have hag : Agrees s d := hc.agrees.keep (Moves.kept ht) hqty
        fun h => h.keep (Moves.kept ht) ha.venue ha.unlatched
      cases s with
      | cancelPending v _ _ _ _ _ target =>
          exact afterFillCancelOrReconcile_lands (Moves.deeds ht) hd hag.1 hr _ _ _
      | reconcilePending v _ _ target _ _ _ =>
          exact afterFillCancelOrReconcile_lands (Moves.deeds ht) hd hag.1 hr _ _ _
      | submitStarted _ => exact .accepted rfl (Moves.deeds ht) ⟨hd, hag⟩
      | accepted _ => exact .accepted rfl (Moves.deeds ht) ⟨hd, hag⟩
      | partialFill _ _ _ => exact .accepted rfl (Moves.deeds ht) ⟨hd, hag⟩
      | _ => cases hs
  | applied e =>
      have hd : Sound d := hc.sound.trail ht
      have hag := hc.agrees
      have hk : Kept c d := Moves.kept ht
      cases s with
      | cancelPending v _ _ _ _ _ target =>
          exact afterFillCancelOrReconcile_lands (Moves.deeds ht) hd (hk.venue v hag.1) hr _ _ _
      | reconcilePending v _ _ target _ _ _ =>
          exact afterFillCancelOrReconcile_lands (Moves.deeds ht) hd (hk.venue v hag.1) hr _ _ _
      | submitStarted _ => exact .accepted rfl (Moves.deeds ht) ⟨hd, Unanswered.keep hag hk ha.venue ha.unlatched⟩
      | accepted v =>
          have hv : d.venueOrderId = some v := hk.venue v hag
          simp only [hv, Option.getD_some]
          exact routeLiveOrFilled_lands (Moves.deeds ht) hd hv hr
      | partialFill v _ _ =>
          have hv : d.venueOrderId = some v := hk.venue v hag.1
          simp only [hv, Option.getD_some]
          exact routeLiveOrFilled_lands (Moves.deeds ht) hd hv hr
      | _ => cases hs

theorem applyFillDedupOnly_lands (hc : Coherent .submitUnknown c) (f : FillRecord)
    (hf : P.offers f) :
    Lands P R c (applyFillDedupOnly c f .submitUnknown).1
      (applyFillDedupOnly c f .submitUnknown).2 := by
  have ha := tryAccountFill_accounting c f
  unfold applyFillDedupOnly
  rcases hres : tryAccountFill c f with ⟨a, d⟩
  simp only [hres] at ha
  have ht := ha.trail hf
  cases a with
  | noOp =>
      obtain rfl : d = c := ht
      exact .accepted rfl (.nil _) hc
  | halt reason e => exact .halted (Moves.deeds ht) _
  | enriched e =>
      exact .accepted rfl (Moves.deeds ht)
        ⟨hc.sound.trail ht, Unanswered.keep hc.agrees (Moves.kept ht) ha.venue ha.unlatched⟩
  | applied e =>
      exact .accepted rfl (Moves.deeds ht)
        ⟨hc.sound.trail ht, Unanswered.keep hc.agrees (Moves.kept ht) ha.venue ha.unlatched⟩

/-! ## Venue rows -/

theorem backfillMemberQuantities_congr (h : d.qty = c.qty) (filled others : Nat) :
    backfillMemberQuantities d filled others = backfillMemberQuantities c filled others := by
  simp only [backfillMemberQuantities, h]

theorem Observed.keep {filled others m : Nat} (h : Observed c v filled others m) (hk : Kept c d) :
    Observed d v filled others m := by
  refine ⟨hk.venue v h.venue, ?_⟩
  rw [backfillMemberQuantities_congr hk.qty]
  exact h.member

theorem Accounting.remaining {f : FillRecord} {a : AccountAttempt} (h : Accounting c f a d) :
    d.lastVenueRemainingQty = c.lastVenueRemainingQty := by
  have hbook : (bookedCtx c f).lastVenueRemainingQty = c.lastVenueRemainingQty := by
    obtain ⟨q, n, g, he⟩ :=
      accumulateResponseDomain_eq (bookedBase c f) f.qty f.priceCents f.feeCents f.tsNs
    rw [bookedCtx, he]
    rfl
  cases h with
  | ignored => rfl
  | refused _ => rfl
  | completed prev _ => rfl
  | booked _ _ => exact hbook
  | overfilled _ _ => exact hbook

theorem accountFills_remaining (refuse : FillRecord → Option HaltReason) (c : OrderCtx)
    (fx : List Effect) (fills : List FillRecord) :
    (accountedBy (accountFills refuse c fx fills)).2.lastVenueRemainingQty =
      c.lastVenueRemainingQty := by
  induction fills generalizing c fx with
  | nil => rfl
  | cons f fills ih =>
      simp only [accountFills]
      split
      · rfl
      · have ha := (tryAccountFill_accounting c f).remaining
        rcases hres : tryAccountFill c f with ⟨a, d⟩
        rw [hres] at ha
        cases a with
        | noOp => exact (ih _ _).trans ha
        | applied e => exact (ih _ _).trans ha
        | enriched e => exact (ih _ _).trans ha
        | halt reason e => exact ha

/-- A loop over fills carries on the trail that led to it. -/
theorem accountFills_trail (ht : Trail (Deed P) c fx d) (refuse : FillRecord → Option HaltReason)
    (fills : List FillRecord) (hf : ∀ f ∈ fills, P.offers f) :
    match accountFills refuse d fx fills with
    | .error (_, gx, e) => Trail (Deed P) c gx e
    | .ok (gx, e) => Trail (Deed P) c gx e := by
  obtain ⟨gx, he, hdr⟩ := accountFills_drained (P := P) refuse d fx fills hf
  have h := Deeds.extend ht hdr.trail
  rw [← he] at h
  cases hres : accountFills refuse d fx fills with
  | error r => simpa only [hres, accountedBy] using h
  | ok r => simpa only [hres, accountedBy] using h

theorem noteAuthorityComplete_trail (ht : Trail (Deed P) c fx d) (complete : Bool) :
    Trail (Deed P) c (pushJournal fx (noteAuthorityComplete d complete).1)
      (noteAuthorityComplete d complete).2 := by
  cases complete with
  | true => exact Deeds.latched ht
  | false => exact ht

/-- What a batch that is taken in whole leaves: sound books, the same order, the same remaining. -/
theorem accountFills_ok {refuse : FillRecord → Option HaltReason} {fills : List FillRecord}
    {gx : List Effect} (hc : Sound c) (h : accountFills refuse c fx fills = .ok (gx, d)) :
    Sound d ∧ Kept c d ∧ d.lastVenueRemainingQty = c.lastVenueRemainingQty := by
  obtain ⟨_, _, hdr⟩ := accountFills_drained (P := .any) refuse c fx fills fun _ _ => trivial
  have hlast := accountFills_remaining refuse c fx fills
  rw [h] at hdr hlast
  exact ⟨hc.trail hdr.trail, Moves.kept hdr.trail, hlast⟩

/-- When a batch leaves the latch written, a fill was booked, or all fills only completed payloads
and the batch is complete. -/
theorem accountFills_settles {complete : Bool} (c : OrderCtx) (fx : List Effect)
    (fills : List FillRecord) (hf : ∀ f ∈ fills, P.offers f)
    (h : settlesLatch complete c fills = true) :
    (∃ fx₁ fx₂ fx₃ c₁ c₂, Trail Completion c fx₁ c₁ ∧ Settles P.offers c₁ fx₂ c₂ ∧
        Trail (Move P) c₂ fx₃ (accountedBy (accountFills (fun _ => none) c fx fills)).2 ∧
        (accountedBy (accountFills (fun _ => none) c fx fills)).1 = fx ++ (fx₁ ++ (fx₂ ++ fx₃))) ∨
      (complete = true ∧ ∃ gx d, Trail Completion c gx d ∧
        accountFills (fun _ => none) c fx fills = .ok (fx ++ gx, d)) := by
  induction fills generalizing c fx with
  | nil => exact .inr ⟨h, [], c, .nil c, by simp [accountFills]⟩
  | cons f fills ih =>
      have hhead : P.offers f := hf f (by simp)
      have htail : ∀ g ∈ fills, P.offers g := fun g hg => hf g (by simp [hg])
      have ha := tryAccountFill_accounting c f
      simp only [settlesLatch] at h
      simp only [accountFills]
      rcases hres : tryAccountFill c f with ⟨a, d⟩
      simp only [hres] at ha h ⊢
      cases ha with
      | ignored => exact ih _ fx htail h
      | refused reason => simp at h
      | completed prev hc =>
          have hm : Trail Completion c (completeEffects c f prev) (completedCtx c f prev) :=
            .single ⟨f, prev, hc, rfl, rfl⟩
          rcases ih _ (fx ++ completeEffects c f prev) htail h with
            ⟨fx₁, fx₂, fx₃, c₁, c₂, h₁, h₂, h₃, he⟩ | ⟨hcomp, gx, d, hd, he⟩
          · exact .inl ⟨_, fx₂, fx₃, c₁, c₂, hm.append h₁, h₂, h₃,
              he.trans (by simp only [List.append_assoc])⟩
          · exact .inr ⟨hcomp, _, d, hm.append hd, he.trans (by simp only [List.append_assoc])⟩
      | booked hb _ =>
          obtain ⟨gx, he, hdr⟩ :=
            accountFills_drained (P := P) (fun _ => none) (bookedCtx c f) (fx ++ bookEffects c f) fills
              htail
          exact .inl ⟨[], _, gx, c, _, .nil c, .book f hhead hb, hdr.trail,
            he.trans (by simp only [List.append_assoc, List.nil_append])⟩
      | overfilled hb detail =>
          exact .inl ⟨[], _, [], c, _, .nil c, .book f hhead hb, .nil _, by simp [accountedBy]⟩

/-- The row, its fills and the shell's authority, where the row raises nothing. -/
theorem observeFills_trail {filled r others m : Nat} (hs : Observed c v filled others m)
    (hm : m ≤ c.fillObligation) (complete : Bool) (fills : List FillRecord)
    (hf : ∀ f ∈ fills, P.offers f)
    (hP : P.carried → ¬ LatchedBehind c ∨ settlesLatch complete (c.noteVenueRemaining r) fills = true) :
    match accountFills (fun _ => none) (c.noteVenueRemaining r)
      [observedEffect c v filled r others false] fills with
    | .error (_, gx, d) => Trail (Move P) c gx d
    | .ok (gx, d) =>
        Trail (Move P) c (pushJournal gx (noteAuthorityComplete d complete).1)
          (noteAuthorityComplete d complete).2 := by
  have hlatch : ∀ {gx d}, Trail (Move P) c gx d →
      Trail (Move P) c (pushJournal gx (noteAuthorityComplete d complete).1)
        (noteAuthorityComplete d complete).2 := by
    intro gx d h
    cases complete with
    | true => exact h.snoc (.settle .latch)
    | false => exact h
  by_cases hsafe : P.carried → ¬ LatchedBehind c
  · obtain ⟨gx, he, hdr⟩ := accountFills_drained (P := P) (fun _ => none)
      (c.noteVenueRemaining r) [observedEffect c v filled r others false] fills hf
    have ht := Trail.cons (.observe (r := r) hs hm hsafe) hdr.trail
    rw [← he] at ht
    cases hres : accountFills (fun _ => none) (c.noteVenueRemaining r)
        [observedEffect c v filled r others false] fills with
    | error e => simpa only [hres, accountedBy] using ht
    | ok e => rw [hres] at ht; exact hlatch ht
  · have hset : settlesLatch complete (c.noteVenueRemaining r) fills = true := by
      rcases Classical.em P.carried with hp | hp
      · rcases hP hp with h | h
        · exact absurd (fun _ => h) hsafe
        · exact h
      · exact absurd (fun h => absurd h hp) hsafe
    rcases accountFills_settles (P := P) (c.noteVenueRemaining r)
        [observedEffect c v filled r others false] fills hf hset with
      ⟨fx₁, fx₂, fx₃, c₁, c₂, h₁, h₂, h₃, he⟩ | ⟨hcomp, gx, d, hd, he⟩
    · have ht := Trail.cons (Move.observeSettled (P := P) (r := r) hs hm h₁ h₂) h₃
      simp only [List.cons_append, List.append_assoc] at ht
      simp only [List.cons_append, List.nil_append] at he
      rw [← he] at ht
      cases hres : accountFills (fun _ => none) (c.noteVenueRemaining r)
          [observedEffect c v filled r others false] fills with
      | error e => simpa only [hres, accountedBy] using ht
      | ok e => rw [hres] at ht; exact hlatch ht
    · subst hcomp
      rw [he]
      exact .single (.observeSettled hs hm hd .latch)

theorem latch_of_fresh (hc : c.authorityComplete = true)
    (hl : c.authorityLatchedEpoch = c.authorityEpoch) : c.latchAuthorityComplete = c := by
  cases c
  simp only at hc hl
  subst hc hl
  rfl

/-- The row is confirmed with the shell's authority once it is latched. -/
theorem observed_echo {filled r others m : Nat} (hs : Observed c v filled others m)
    (hm : m ≤ c.fillObligation) (hr : c.lastVenueRemainingQty = some r)
    (hc : c.authorityComplete = true) (hl : c.authorityLatchedEpoch = c.authorityEpoch) :
    Move P c [observedEffect c v filled r others true] c := by
  refine .echo rfl rfl fun hq => ?_
  obtain ⟨capacity, hmem⟩ := hs.member
  have hself : (c.noteVenueRemaining r).restoreEpoch c.authorityEpoch = c := by
    simp only [OrderCtx.noteVenueRemaining, OrderCtx.restoreEpoch, Nat.max_self, ← hr]
  have hle : ¬ c.qty < m := by omega
  have hlt : ¬ c.fillObligation < m := by omega
  have hfresh : c.latchAuthorityComplete = c := latch_of_fresh hc hl
  simp only [foldRecord, foldReconcileObserved, bindForFold, bindVenueId_same hs.venue, Except.map,
    bind, Except.bind, hself, hmem, hle, if_false, restoreFillObligation, hlt, if_true, hfresh]

theorem continueReconcilePending_lands (ht : Trail (Deed P) c fx d) (hd : Sound d)
    (hv : d.venueOrderId = some v) (filled : Nat) {fromUnknown complete : Bool}
    (hu : (fromUnknown && !complete) = false) :
    Lands P R c (continueReconcilePending d v filled fx fromUnknown complete none) d := by
  have hidle : ∃ gx, (∀ g ∈ gx, g.isIdle = true) ∧
      (if d.attributedFillQty < filled then fx ++ [.backfillFills v]
        else if fromUnknown && !complete then fx ++ [.backfillUnknown d.clientOrderId]
        else if !complete then
          fx ++ [.requestAuthorityReconcile (some v) d.clientOrderId, .backfillFills v]
        else fx ++ [.backfillFills v]) = fx ++ gx := by
    split
    · exact ⟨[.backfillFills v], by simp [Effect.isIdle], rfl⟩
    · split
      · exact ⟨[.backfillUnknown d.clientOrderId], by simp [Effect.isIdle], rfl⟩
      · split
        · exact ⟨[.requestAuthorityReconcile (some v) d.clientOrderId, .backfillFills v],
            by simp [Effect.isIdle], rfl⟩
        · exact ⟨[.backfillFills v], by simp [Effect.isIdle], rfl⟩
  obtain ⟨gx, hg, he⟩ := hidle
  unfold continueReconcilePending
  dsimp only
  rw [he, if_neg (by simp [hu])]
  split
  · exact .accepted rfl (Deeds.idles ht hg) ⟨hd, hv⟩
  · exact .accepted rfl (Deeds.idles ht hg) ⟨hd, hv, rfl⟩

theorem routeStatus_lands (ht : Trail (Deed P) c fx d) (hd : Sound d)
    (hv : d.venueOrderId = some v) (hr : R) (status : BackfillOrderStatus)
    (filled remaining memberFilled memberCapacity : Nat) {fromUnknown complete : Bool}
    (hu : (fromUnknown && !complete) = false) :
    Lands P R c
      (routeStatus d v status filled remaining memberFilled memberCapacity fx complete fromUnknown)
      d := by
  unfold routeStatus
  simp only [stayUnknown, hu, Bool.false_eq_true, if_false]
  split
  · exact tryFinalizeTerminal_lands ht hd hv (fun _ => hr) _ _
  · exact tryFinalizeTerminal_lands ht hd hv (fun _ => hr) _ _
  all_goals
    split
    · exact continueReconcilePending_lands ht hd hv _ hu
    · split
      · exact .halted ht _
      · split
        · exact .halted ht _
        · split
          · exact .accepted rfl ht ⟨hd, hv⟩
          · exact .accepted rfl ht ⟨hd, hv, rfl⟩

/-- The fills and the verdict of a venue row, given the trail of its evidence and fills. -/
theorem routeBackfillFills_lands {filled r others m capacity : Nat} {complete fromUnknown : Bool}
    {fills : List FillRecord} (hd : Sound d) (hs : Observed d v filled others m)
    (hm : m ≤ d.fillObligation) (hlast : d.lastVenueRemainingQty = some r) (hr : R)
    (status : BackfillOrderStatus) (hu : (fromUnknown && !complete) = false)
    (ht : match accountFills (fun _ => none) d fx fills with
      | .error (_, gx, e) => Trail (Deed P) c gx e
      | .ok (gx, e) =>
          Trail (Deed P) c (pushJournal gx (noteAuthorityComplete e complete).1)
            (noteAuthorityComplete e complete).2) :
    Lands P R c
      (routeBackfillFills d v status filled r others m capacity fx fills complete fromUnknown).1
      (routeBackfillFills d v status filled r others m capacity fx fills complete fromUnknown).2 := by
  unfold routeBackfillFills
  cases hres : accountFills (fun _ => none) d fx fills with
  | error e =>
      rw [hres] at ht
      exact .halted ht _
  | ok e =>
      obtain ⟨gx, e⟩ := e
      rw [hres] at ht
      obtain ⟨he, hk, hlast'⟩ := accountFills_ok hd hres
      have hs' : Observed e v filled others m := hs.keep hk
      cases complete with
      | false =>
          simp only [noteAuthorityComplete, Bool.false_eq_true, if_false, pushJournal] at ht ⊢
          split
          · exact .halted ht _
          · exact routeStatus_lands ht he hs'.venue hr _ _ _ _ _ hu
      | true =>
          simp only [noteAuthorityComplete, if_true] at ht ⊢
          have hecho := Deeds.extend ht (.single (observed_echo (P := P) (hs'.keep (.latch e))
            (hm.trans hk.obligation) (hlast'.trans hlast) rfl rfl))
          split
          · exact .halted hecho _
          · exact routeStatus_lands hecho he.latch hs'.venue hr _ _ _ _ _ hu

theorem noteFillEvidence_error {n : Nat} {reason : HaltReason}
    (h : noteFillEvidence c n = .error reason) : c.qty < n := by
  cases hraise : c.raiseFillObligation n with
  | error _ => exact (raiseFillObligation_error hraise).1
  | ok d => simp [noteFillEvidence, hraise] at h; split at h <;> cases h

/-- A venue row of the bound order. Where it raises nothing, `P` has to exclude a latch that only the
record of the row would clear. -/
theorem routeFromBackfillStatus_lands (hc : Sound c) (hv : c.venueOrderId = some v) (hr : R)
    (status : BackfillOrderStatus) (filled r others : Nat) (fills : List FillRecord)
    (hf : ∀ f ∈ fills, P.offers f) {complete fromUnknown : Bool} (hu : (fromUnknown && !complete) = false)
    (hP : ∀ m, Observed c v filled others m → m ≤ c.fillObligation → P.carried →
      ¬ LatchedBehind c ∨ settlesLatch complete (c.noteVenueRemaining r) fills = true) :
    Lands P R c
      (routeFromBackfillStatus c v status filled r others fills complete fromUnknown).1
      (routeFromBackfillStatus c v status filled r others fills complete fromUnknown).2 := by
  unfold routeFromBackfillStatus
  split
  · exact .halted (.nil _) _
  · rename_i m capacity hmem
    have hs : Observed c v filled others m := ⟨hv, capacity, hmem⟩
    simp only [bindVenueId_same hv]
    cases hn : noteFillEvidence (c.noteVenueRemaining r) m with
    | error reason =>
        exact .halted
          (Moves.deeds (.single (.observeOver hs (noteFillEvidence_error (c := c.noteVenueRemaining r) hn)))) _
    | ok res =>
        obtain ⟨jr, d⟩ := res
        obtain ⟨hq, ⟨hle, rfl, rfl⟩ | ⟨hlt, rfl, rfl⟩⟩ := noteFillEvidence_ok hn
        · have htrail := observeFills_trail (P := P) (r := r) hs hle complete fills hf (hP m hs hle)
          refine routeBackfillFills_lands (hc.note r) (hs.keep (.note c r)) hle rfl hr status hu ?_
          revert htrail
          dsimp only [pushJournal, List.nil_append, observedEffect, OrderCtx.noteVenueRemaining]
          split <;> exact Moves.deeds
        · have hraise : Trail (Move P) c _ (raisedCtx (c.noteVenueRemaining r) m) :=
            .single (.observeRaise hs hlt hq)
          refine routeBackfillFills_lands (hc.trail hraise) (hs.keep (Moves.kept hraise))
            (raisedCtx_obligation _ m).ge (raisedCtx_remaining _ m) hr status hu ?_
          have htrail := accountFills_trail (Moves.deeds hraise) (fun _ => none) fills hf
          revert htrail
          dsimp only [pushJournal, List.nil_append, observedEffect, OrderCtx.noteVenueRemaining,
            List.cons_append]
          split
          · exact id
          · exact fun h => noteAuthorityComplete_trail h complete

/-! ## Backfills of an unknown submission -/

/-- Evidence of a row while nothing is latched. -/
theorem observe_trail {filled r others m : Nat} {jr : Option JournalRecord}
    (hs : Observed c v filled others m) (ha : c.authorityComplete = false)
    (h : noteFillEvidence (c.noteVenueRemaining r) m = .ok (jr, d)) :
    Trail (Move P) c (pushJournal [observedEffect c v filled r others false] jr) d ∧
      m ≤ d.fillObligation := by
  obtain ⟨hq, ⟨hle, rfl, rfl⟩ | ⟨hlt, rfl, rfl⟩⟩ := noteFillEvidence_ok h
  · exact ⟨.single (.observe hs hle fun _ hb => by simp [hb.1] at ha), hle⟩
  · exact ⟨.single (.observeRaise hs hlt hq), (raisedCtx_obligation _ m).ge⟩

theorem bookUniqueBackfill_lands (ht : Trail (Deed P) c fx d) (hd : Sound d) (hr : R)
    (row : BackfillOrderRecord) (hf : ∀ f ∈ row.fills, P.offers f)
    (hv : d.venueOrderId = some row.venueOrderId) :
    Lands P R c (bookUniqueBackfill d row fx).1 (bookUniqueBackfill d row fx).2 := by
  unfold bookUniqueBackfill
  have htrail := accountFills_trail ht (missingVenue row.venueOrderId) row.fills hf
  cases hres : accountFills (missingVenue row.venueOrderId) d fx row.fills with
  | error e =>
      rw [hres] at htrail
      exact .halted htrail _
  | ok e =>
      obtain ⟨gx, e⟩ := e
      rw [hres] at htrail
      obtain ⟨he, hk, _⟩ := accountFills_ok hd hres
      -- the row is latched already, and the batch of no fills latches again
      exact (routeFromBackfillStatus_lands he.latch ((hk.trans (.latch e)).venue _ hv) hr _ _ _ _ _
        (by simp) rfl fun _ _ _ _ => .inr rfl).prepend (Deeds.latched htrail)

theorem applyUniqueBackfill_lands (hc : Coherent .submitUnknown c) (hr : R)
    (row : BackfillOrderRecord) (hf : ∀ f ∈ row.fills, P.offers f) :
    Lands P R c (applyUniqueBackfill c row).1 (applyUniqueBackfill c row).2 := by
  unfold applyUniqueBackfill
  split
  · exact .halted (.nil _) _
  · rename_i m capacity hmem
    cases hb : bindVenueId c row.venueOrderId with
    | error reason => exact .halted (.nil _) _
    | ok b =>
        obtain ⟨bindJr, d⟩ := b
        have hbind : Trail (Move P) c (pushJournal [] bindJr) d := bindVenueId_trail hb
        have hk : Kept c d := Moves.kept hbind
        have hauth : d.authorityComplete = false := by
          rcases bindVenueId_ok hb with ⟨_, _, rfl⟩ | ⟨_, _, _, rfl⟩ <;>
            exact hc.agrees.unlatched
        have hs : Observed d row.venueOrderId row.filledQty row.otherMembersFilled m :=
          ⟨bindVenueId_bound hb, capacity, by rw [backfillMemberQuantities_congr hk.qty]; exact hmem⟩
        dsimp only
        cases hn : noteFillEvidence (d.noteVenueRemaining row.remainingQty) m with
        | error reason =>
            exact .halted (Deeds.extend (Moves.deeds hbind) (.single (.observeOver hs
              (noteFillEvidence_error (c := d.noteVenueRemaining row.remainingQty) hn)))) _
        | ok res =>
            obtain ⟨jr, e⟩ := res
            obtain ⟨hobs, _⟩ := observe_trail (P := P) hs hauth hn
            have hev : Trail (Deed P) c (pushJournal (pushJournal [] bindJr ++
                [observedEffect d row.venueOrderId row.filledQty row.remainingQty
                  row.otherMembersFilled false]) jr) e := by
              have := Moves.deeds (hbind.append hobs)
              cases jr <;> simpa [pushJournal] using this
            have he : Sound e := (hc.sound.trail hbind).trail hobs
            exact bookUniqueBackfill_lands (Deeds.latched hev) he.latch hr row hf
              ((Moves.kept hobs).venue _ hs.venue)

theorem applyUnknownBackfill_lands (hc : Coherent .submitUnknown c) (hr : R) (exhaustive : Bool)
    (rows : List BackfillOrderRecord) (hne : exhaustive = true → rows ≠ []) (hf : ∀ row ∈ rows, ∀ f ∈ row.fills, P.offers f) :
    Lands P R c (applyUnknownBackfill c exhaustive rows).1
      (applyUnknownBackfill c exhaustive rows).2 := by
  unfold applyUnknownBackfill
  split
  · split
    · rename_i hex
      exact absurd rfl (hne hex)
    · exact .accepted rfl (Deeds.idles (g := [_]) (.nil c) (by simp [Effect.isIdle])) hc
  · split
    · exact .halted (.nil _) _
    · split
      · dsimp only
        split
        · exact .accepted rfl (Deeds.idles (g := [_, _]) (.nil c) (by simp [Effect.isIdle])) hc
        · exact .accepted rfl (Deeds.idles (g := [_]) (.nil c) (by simp [Effect.isIdle])) hc
      · exact applyUniqueBackfill_lands hc hr _ (hf _ (by simp))
  · exact .halted (.nil _) _

/-! ## Reconcile results -/

theorem resolveReconcileVenue_bound (hv : c.venueOrderId = some v) (eventVid : Option VenueOrderId) :
    resolveReconcileVenue c v eventVid = .ok (v, none, c) ∧
        (eventVid = none ∨ eventVid = c.venueOrderId) ∨
      ∃ reason, resolveReconcileVenue c v eventVid = .error (reason, none, c) := by
  simp only [resolveReconcileVenue, bindVenueId_same hv]
  cases eventVid with
  | none => exact .inl ⟨rfl, .inl rfl⟩
  | some ev =>
      by_cases he : v = ev
      · subst he
        exact .inl ⟨by simp only [bindVenueId_same hv], .inr hv.symm⟩
      · exact .inr ⟨_, by simp only [bindVenueId, hv, he, if_false]; rfl⟩

theorem backfillMemberQuantities_zero (c : OrderCtx) (filled : Nat) :
    backfillMemberQuantities c filled 0 = .ok (filled, c.qty) := by
  simp [backfillMemberQuantities]

theorem applyReconcileResult_lands (hc : Sound c) (hv : c.venueOrderId = some v) (hr : R)
    (status : BackfillOrderStatus) (eventVid : Option VenueOrderId) (filled r : Nat)
    (fills : List FillRecord) (hf : ∀ f ∈ fills, P.offers f) (complete : Bool)
    (hP : P.carried → (eventVid = none ∨ eventVid = c.venueOrderId) → filled ≤ c.fillObligation →
      ¬ LatchedBehind c ∨ settlesLatch complete (c.noteVenueRemaining r) fills = true) :
    Lands P R c (applyReconcileResult c v status eventVid filled r fills complete).1
      (applyReconcileResult c v status eventVid filled r fills complete).2 := by
  unfold applyReconcileResult
  rcases resolveReconcileVenue_bound hv eventVid with ⟨he, hev⟩ | ⟨reason, he⟩
  · rw [he]
    refine (routeFromBackfillStatus_lands hc hv hr status filled r 0 fills hf rfl ?_).prepend (.nil c)
    intro m hs hm hp
    obtain ⟨capacity, hmem⟩ := hs.member
    rw [backfillMemberQuantities_zero] at hmem
    cases hmem
    exact hP hp hev hm
  · rw [he]
    exact .halted (.nil _) _

end Omsrs.Lifecycle
