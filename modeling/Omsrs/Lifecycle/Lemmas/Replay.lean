import Omsrs.Lifecycle.Lemmas.Steps

/-!
# What the fold restores

The records of a move take the fold from the context before it to the context after it. The latch is
apart: a venue row may clear it in the fold only, and then the next booking or latch writes it again.
-/

namespace Omsrs.Lifecycle
open Omsrs.Lib

variable {P : Scope} {c d e : OrderCtx} {fx gx : List Effect}

/-! ## Records in sequence -/

/-- The records among `fx` take the fold from `c` to `d`. -/
def Replays (c : OrderCtx) (fx : List Effect) (d : OrderCtx) : Prop :=
  rebuildCtxFromJournal c (journalOf fx) = .ok d

theorem journalOf_append (fx gx : List Effect) :
    journalOf (fx ++ gx) = journalOf fx ++ journalOf gx := List.filterMap_append

theorem rebuild_append (c : OrderCtx) (rs ss : List JournalRecord) :
    rebuildCtxFromJournal c (rs ++ ss) =
      (rebuildCtxFromJournal c rs >>= fun d => rebuildCtxFromJournal d ss) := List.foldlM_append

theorem rebuild_cons (c : OrderCtx) (r : JournalRecord) (rs : List JournalRecord) :
    rebuildCtxFromJournal c (r :: rs) =
      (foldRecord c r >>= fun d => rebuildCtxFromJournal d rs) := rfl

theorem Replays.nil (c : OrderCtx) : Replays c [] c := rfl

theorem Replays.append (h : Replays c fx d) (h' : Replays d gx e) : Replays c (fx ++ gx) e := by
  unfold Replays at h h' ⊢
  rw [journalOf_append, rebuild_append, h]
  exact h'

theorem Replays.cons {r : JournalRecord} (h : foldRecord c r = .ok d) (h' : Replays d fx e) :
    Replays c (.appendFsync r :: fx) e := by
  unfold Replays at h' ⊢
  rw [show journalOf (.appendFsync r :: fx) = r :: journalOf fx from rfl, rebuild_cons, h]
  exact h'

theorem Replays.record {r : JournalRecord} (h : foldRecord c r = .ok d) :
    Replays c [.appendFsync r] d := .cons h (.nil d)

/-- An effect that is no record is not seen by the fold. -/
theorem Replays.skip {g : Effect} (hg : g.journalRecord? = none) (h : Replays c fx d) :
    Replays c (g :: fx) d := by
  unfold Replays journalOf at h ⊢
  rwa [List.filterMap_cons_none hg]

theorem Replays.idle {g : Effect} (hg : g.isIdle = true) : Replays c [g] c := by
  cases g with
  | appendFsync r => cases r <;> first | exact .record rfl | cases hg
  | _ => exact .skip rfl (.nil c)

/-- What fails in a part of the journal fails the whole. -/
theorem rebuild_error {rs ss : List JournalRecord} {reason : HaltReason}
    (h : rebuildCtxFromJournal c rs = .error reason) :
    rebuildCtxFromJournal c (rs ++ ss) = .error reason := by
  rw [rebuild_append, h]
  rfl

/-! ## Generations -/

/-- The books are right and the generation is a machine word. -/
structure Restorable (c : OrderCtx) : Prop where
  accounted : Accounted c
  word : c.authorityEpoch ≤ u64Max

/-- The next generation is never behind. -/
theorem nextEpoch_max {n : Nat} (h : n ≤ u64Max) :
    max (saturatingAdd u64Max n 1) n = saturatingAdd u64Max n 1 := by
  simp only [saturatingAdd]
  omega

theorem restoreEpoch_self (c : OrderCtx) : c.restoreEpoch c.authorityEpoch = c := by
  simp [OrderCtx.restoreEpoch]

/-- The context with another latch flag; the generation it was latched in stays. -/
def OrderCtx.withLatch (c : OrderCtx) (complete : Bool) : OrderCtx :=
  { c with authorityComplete := complete }

theorem raisedCtx_lagging {n : Nat} (ha : Accounted c) (h : c.fillObligation < n) :
    raisedCtx c n = { c with fillObligation := n }.invalidateAuthority := by
  have hlag : c.attributedFillQty < n := lt_of_le_of_lt ha.covered h
  simp only [raisedCtx, hlag, if_true]

theorem raisedCtx_word {n : Nat} (h : c.authorityEpoch ≤ u64Max) :
    (raisedCtx c n).authorityEpoch ≤ u64Max := by
  unfold raisedCtx
  split
  · exact Nat.min_le_right ..
  · exact h

theorem Completion.word (h : Completion c fx d) (hc : c.authorityEpoch ≤ u64Max) :
    d.authorityEpoch ≤ u64Max := by
  obtain ⟨f, prev, _, _, rfl⟩ := h
  exact hc

theorem Settles.word {F : FillRecord → Prop} (h : Settles F c fx d)
    (hc : c.authorityEpoch ≤ u64Max) : d.authorityEpoch ≤ u64Max := by
  cases h with
  | latch => exact hc
  | book f _ _ =>
      obtain ⟨q, n, g, he⟩ :=
        accumulateResponseDomain_eq (bookedBase c f) f.qty f.priceCents f.feeCents f.tsNs
      rw [bookedCtx, he]
      exact Nat.min_le_right ..

theorem Move.word (h : Move P c fx d) (hc : c.authorityEpoch ≤ u64Max) :
    d.authorityEpoch ≤ u64Max := by
  cases h with
  | invalidate => exact Nat.min_le_right ..
  | raise _ _ => exact raisedCtx_word hc
  | complete h => exact h.word hc
  | settle h => exact h.word hc
  | observeSettled _ _ hcs hd =>
      exact hd.word (hcs.preserves (I := fun _ c => c.authorityEpoch ≤ u64Max) (l := [])
        (fun hc h => Completion.word h hc) hc)
  | observeRaise _ _ _ => exact raisedCtx_word hc
  | _ => exact hc

theorem bindVenueId_word {v : VenueOrderId} {jr : Option JournalRecord}
    (h : bindVenueId c v = .ok (jr, d)) (hc : c.authorityEpoch ≤ u64Max) :
    d.authorityEpoch ≤ u64Max := by
  rcases bindVenueId_ok h with ⟨_, _, rfl⟩ | ⟨_, _, _, rfl⟩ <;> exact hc

theorem Answer.word (h : Answer c fx d) (hc : c.authorityEpoch ≤ u64Max) :
    d.authorityEpoch ≤ u64Max := by
  cases h with
  | empty hb =>
      have hword := bindVenueId_word hb hc
      exact hword
  | counted hb _ hr =>
      have hword := bindVenueId_word hb hc
      rw [recomputeResponseDomain_eq]
      obtain ⟨_, ⟨_, rfl⟩ | ⟨_, rfl⟩⟩ := raiseFillObligation_ok hr
      · exact hword
      · exact raisedCtx_word hword

theorem Act.restorable (h : Act P c fx d) (hc : Restorable c) : Restorable d := by
  refine ⟨Act.accounted h hc.accounted, ?_⟩
  cases h with
  | deed h => exact h.elim (fun h => Move.word h hc.word) fun h => Answer.word h hc.word
  | refused h =>
      cases h with
      | conflict _ => exact hc.word
      | excess hb _ _ =>
          have hword := bindVenueId_word hb hc.word
          exact hword
  | release _ => exact hc.word
  | reserve => exact hc.word
  | halt => exact hc.word

theorem restoreFillObligation_le {n : Nat} (h : n ≤ c.qty) :
    restoreFillObligation c n = .ok { c with fillObligation := max c.fillObligation n } := by
  refine (if_neg (Nat.not_lt.mpr h)).trans ?_
  split
  · rename_i hlt
    rw [max_eq_right hlt.le]
  · rename_i hle
    rw [max_eq_left (Nat.not_lt.mp hle)]

theorem clearIfLagging_open (h : c.authorityComplete = false) : c.clearIfLagging = c := by
  unfold OrderCtx.clearIfLagging
  rw [← h]
  exact ite_self c

theorem clearIfLagging_lagging (h : c.attributedFillQty < c.fillObligation) :
    c.clearIfLagging = c.withLatch false := if_pos h

/-- The latch flag is all that the fold may clear. -/
theorem clearIfLagging_withLatch (c : OrderCtx) : ∃ b, c.clearIfLagging = c.withLatch b := by
  unfold OrderCtx.clearIfLagging
  split
  · exact ⟨false, rfl⟩
  · exact ⟨c.authorityComplete, rfl⟩

theorem foldObligationRaised {n epoch : Nat} (hq : n ≤ c.qty)
    (he : max epoch c.authorityEpoch = epoch) :
    foldRecord c (.obligationRaised n epoch) =
      .ok { c with
        fillObligation := max c.fillObligation n, authorityEpoch := epoch }.clearIfLagging := by
  simp only [foldRecord, restoreFillObligation_le hq, bind, Except.bind, OrderCtx.restoreEpoch, he]

/-- The raise of a lagging order, latched or not. -/
theorem foldObligationRaised_raisedCtx {n : Nat} (hc : Restorable c) (hlt : c.fillObligation < n)
    (hq : n ≤ c.qty) :
    foldRecord c (.obligationRaised n (raisedCtx c n).authorityEpoch) = .ok (raisedCtx c n) := by
  rw [raisedCtx_lagging hc.accounted hlt]
  have hlag : c.attributedFillQty < max c.fillObligation n :=
    lt_of_lt_of_le (lt_of_le_of_lt hc.accounted.covered hlt) (le_max_right _ _)
  refine (foldObligationRaised hq (nextEpoch_max hc.word)).trans ?_
  rw [clearIfLagging_lagging (by exact hlag)]
  simp only [OrderCtx.withLatch, OrderCtx.invalidateAuthority, max_eq_right hlt.le]

/-! ## Fills -/

/-- Where the fold stands before the record of a new fill: its generation and its raise are in. -/
def openedCtx (c : OrderCtx) (f : FillRecord) : OrderCtx :=
  { c with
    fillObligation := max c.fillObligation (c.attributedFillQty + f.qty)
    authorityEpoch := saturatingAdd u64Max c.authorityEpoch 1
    authorityComplete := false }

theorem foldFill_booked {f : FillRecord} (hb : Bookable c f) :
    foldFill (openedCtx c f) f = .ok (bookedCtx c f) := by
  have hven : firstSightingMismatch (openedCtx c f) f = none :=
    firstSightingMismatch_of_venue (c := openedCtx c f) hb.venue
  have hnew : (openedCtx c f).appliedFills.get? f.fillId = none := hb.fresh
  have hword : checkedAdd u64Max (openedCtx c f).attributedFillQty f.qty =
      some (c.attributedFillQty + f.qty) := checkedAdd_eq_some.mpr ⟨hb.word, rfl⟩
  have hfee : checkedAdd u64Max (openedCtx c f).attributedFeeCents (f.feeCents.getD 0) =
      some (c.attributedFeeCents + f.feeCents.getD 0) := checkedAdd_eq_some.mpr ⟨hb.fee, rfl⟩
  have hroom : ¬ (openedCtx c f).qty < c.attributedFillQty + f.qty := Nat.not_lt.mpr hb.room
  have hraise : restoreFillObligation (insertFill (openedCtx c f) f (c.attributedFillQty + f.qty)
      (c.attributedFeeCents + f.feeCents.getD 0)) (c.attributedFillQty + f.qty) =
      .ok (bookedBase c f) := by
    have hcov : ¬ (insertFill (openedCtx c f) f (c.attributedFillQty + f.qty)
        (c.attributedFeeCents + f.feeCents.getD 0)).fillObligation < c.attributedFillQty + f.qty :=
      Nat.not_lt.mpr (le_max_right _ _)
    exact (if_neg hroom).trans (if_neg hcov)
  simp only [foldFill, tryAccountFillForFold, accountFillCore, hven, hnew, bookFill, hword, hroom,
    hfee, hraise, if_false, if_true]
  rfl

theorem upgradeVenue_completes {f : FillRecord} {prev : FillPayload} (h : Completes c f prev) :
    ∃ changed, upgradeVenue c prev f = .ok (f.venueOrderId, changed) ∧
      (changed = false → prev.venueOrderId = f.venueOrderId) := by
  rcases h.venue with hv | ⟨hn, v, hv, hb⟩
  · refine ⟨false, ?_, fun _ => hv⟩
    cases hp : f.venueOrderId <;> simp [upgradeVenue, hv, hp]
  · refine ⟨true, ?_, by simp⟩
    cases hbound : c.venueOrderId with
    | none => simp [upgradeVenue, hn, hv, hbound]
    | some b => simp [upgradeVenue, hn, hv, hbound, hb b hbound]

theorem upgradeFee_completes {f : FillRecord} {prev : FillPayload} (h : Completes c f prev) :
    ∃ changed gx c', upgradeFee c prev f = .ok (f.feeCents, changed, gx, c') ∧
      (changed = false → prev.fee = f.feeCents) := by
  rcases h.fee with hf | ⟨hn, fee, hf, hle⟩
  · refine ⟨false, [], c, ?_, fun _ => hf⟩
    cases hp : f.feeCents <;> simp [upgradeFee, hf, hp]
  · exact ⟨true, _, _, by simp only [upgradeFee, hn, hf, checkedAdd_eq_some.mpr ⟨hle, rfl⟩]; rfl,
      by simp⟩

/-- The converse of `redeliverFill_cases`: a completion is taken in. -/
theorem redeliverFill_completes {f : FillRecord} {prev : FillPayload} (h : Completes c f prev) :
    redeliverFill c prev f = (.enriched (completeEffects c f prev), completedCtx c f prev) := by
  obtain ⟨vc, hvenue, hvc⟩ := upgradeVenue_completes h
  obtain ⟨fc, gx, c', hfee, hfc⟩ := upgradeFee_completes h
  have hchanged : ¬ (!(vc || fc)) = true := by
    intro hb
    obtain ⟨rfl, rfl⟩ : vc = false ∧ fc = false := by simpa using hb
    exact h.changed ⟨hvc rfl, hfc rfl⟩
  have henriched : ∃ hx e, redeliverFill c prev f = (.enriched hx, e) := by
    have hnew : prev ≠ f.payload := fun he => h.changed (by rw [he]; exact ⟨rfl, rfl⟩)
    have hsame : ¬ (prev.qty ≠ f.qty ∨ prev.priceCents ≠ f.priceCents) := by simp [h.qty, h.price]
    simp only [redeliverFill, hnew, hsame, hvenue, hfee, hchanged, if_false]
    exact ⟨_, _, rfl⟩
  obtain ⟨hx, e, he⟩ := henriched
  rcases redeliverFill_cases h.known with hr | ⟨reason, hr⟩ | ⟨_, hr⟩
  · rw [hr] at he
    cases he
  · rw [hr] at he
    cases he
  · exact hr

theorem foldFill_completed {f : FillRecord} {prev : FillPayload} (h : Completes c f prev) :
    foldFill c { f with tsNs := prev.tsNs } = .ok (completedCtx c f prev) := by
  have h' : Completes c { f with tsNs := prev.tsNs } prev :=
    ⟨h.known, h.qty, h.price, h.venue, h.fee, h.changed⟩
  have hven : firstSightingMismatch c { f with tsNs := prev.tsNs } = none :=
    firstSightingMismatch_of_known h'.known
  simp only [foldFill, tryAccountFillForFold, accountFillCore, hven, h.known,
    redeliverFill_completes h']
  rfl

theorem feeDelta_some {f : FillRecord} {prev : FillPayload} {delta : Nat}
    (h : feeDelta prev f = some delta) : f.feeCents = some delta := by
  unfold feeDelta at h
  split at h
  · cases h
  · exact h

/-- The fill's record has brought the fee, so its correction adds nothing. -/
theorem foldFeeCorrection_completed {f : FillRecord} {prev : FillPayload} {delta : Nat}
    (h : feeDelta prev f = some delta) :
    foldFeeCorrection (completedCtx c f prev) f.fillId delta = .ok (completedCtx c f prev) := by
  have hget : (completedCtx c f prev).appliedFills.get? f.fillId = some (completedPayload prev f) :=
    OrdMap.get?_insert_self ..
  have hfee : (completedPayload prev f).fee.isNone = false := by
    simp [completedPayload, feeDelta_some h]
  simp only [foldFeeCorrection, hget, hfee, Bool.false_eq_true, if_false]

/-! ## Moves -/

/-- A completion is restored under any latch flag. -/
theorem Completion.replays (h : Completion c fx d) (b : Bool) :
    Replays (c.withLatch b) fx (d.withLatch b) := by
  obtain ⟨f, prev, hc, rfl, rfl⟩ := h
  have hc' : Completes (c.withLatch b) f prev :=
    ⟨hc.known, hc.qty, hc.price, hc.venue, hc.fee, hc.changed⟩
  have hfill : foldFill (c.withLatch b) { f with tsNs := prev.tsNs } =
      .ok ((completedCtx c f prev).withLatch b) := foldFill_completed hc'
  refine .cons hfill ?_
  cases hd : feeDelta prev f with
  | none => exact .nil _
  | some delta =>
      have hfee : foldFeeCorrection ((completedCtx c f prev).withLatch b) f.fillId delta =
          .ok ((completedCtx c f prev).withLatch b) :=
        foldFeeCorrection_completed (c := c.withLatch b) hd
      exact .cons hfee (.skip rfl (.nil _))

theorem Completions.replays (h : Trail Completion c fx d) (b : Bool) :
    Replays (c.withLatch b) fx (d.withLatch b) := by
  induction h with
  | nil _ => exact .nil _
  | cons hm _ ih => exact (Completion.replays hm b).append ih

/-- A booking and a latch are restored under any latch flag, and write it. -/
theorem Settles.replays {F : FillRecord → Prop} (h : Settles F c fx d) (hc : Restorable c)
    (b : Bool) : Replays (c.withLatch b) fx d := by
  cases h with
  | latch =>
      have hepoch : (c.withLatch b).restoreEpoch c.authorityEpoch = c.withLatch b :=
        restoreEpoch_self (c.withLatch b)
      exact .record (by simp only [foldRecord, hepoch]; rfl)
  | book f _ hb =>
      have hgen : foldRecord (c.withLatch b) (.authorityInvalidated (saturatingAdd u64Max
          c.authorityEpoch 1)) = .ok c.invalidateAuthority := by
        simp only [foldRecord, OrderCtx.restoreEpoch, OrderCtx.withLatch, nextEpoch_max hc.word]
        rfl
      have hraise : Replays c.invalidateAuthority
          (if c.fillObligation < c.attributedFillQty + f.qty then
            [.appendFsync (.obligationRaised (c.attributedFillQty + f.qty)
              (saturatingAdd u64Max c.authorityEpoch 1))] else []) (openedCtx c f) := by
        split
        · rename_i hlt
          refine .record ((foldObligationRaised (c := c.invalidateAuthority) hb.room
            (max_self _)).trans ?_)
          rw [clearIfLagging_open rfl]
          rfl
        · rename_i hlt
          have hmax : max c.fillObligation (c.attributedFillQty + f.qty) = c.fillObligation := by
            omega
          simp only [openedCtx, hmax]
          exact .nil _
      exact .cons hgen (hraise.append (.cons (foldFill_booked hb) (.skip rfl (.nil _))))

theorem bindForFold_same {v : VenueOrderId} (h : c.venueOrderId = some v) :
    bindForFold c v = .ok c := by
  rw [bindForFold, bindVenueId_same h]
  rfl

/-- A venue row within the order quantity: remaining and obligation, and a lagging latch is cleared. -/
theorem foldReconcileObserved_row {v : VenueOrderId} {filled r others m : Nat}
    (hs : Observed c v filled others m) (hq : m ≤ c.qty) :
    foldRecord c (.reconcileObserved v filled r others false c.authorityEpoch) =
      .ok { c.noteVenueRemaining r with
        fillObligation := max c.fillObligation m }.clearIfLagging := by
  obtain ⟨hv, capacity, hm⟩ := hs
  have hm' : backfillMemberQuantities (c.noteVenueRemaining r) filled others = .ok (m, capacity) := hm
  have hraise : restoreFillObligation (c.noteVenueRemaining r) m =
      .ok { c.noteVenueRemaining r with fillObligation := max c.fillObligation m } :=
    restoreFillObligation_le (c := c.noteVenueRemaining r) hq
  have hepoch : (c.noteVenueRemaining r).restoreEpoch c.authorityEpoch = c.noteVenueRemaining r :=
    restoreEpoch_self (c.noteVenueRemaining r)
  simp only [foldRecord, foldReconcileObserved, bindForFold_same hv, bind, Except.bind, hepoch, hm',
    hraise]
  exact if_neg (Nat.not_lt.mpr hq)

/-- A venue row above the order quantity halted the live order; the fold keeps what came before. -/
theorem foldReconcileObserved_over {v : VenueOrderId} {filled r others m : Nat}
    (hs : Observed c v filled others m) (hq : c.qty < m) :
    foldRecord c (.reconcileObserved v filled r others false c.authorityEpoch) =
      .ok (c.noteVenueRemaining r) := by
  obtain ⟨hv, capacity, hm⟩ := hs
  have hm' : backfillMemberQuantities (c.noteVenueRemaining r) filled others = .ok (m, capacity) := hm
  have hepoch : (c.noteVenueRemaining r).restoreEpoch c.authorityEpoch = c.noteVenueRemaining r :=
    restoreEpoch_self (c.noteVenueRemaining r)
  simp only [foldRecord, foldReconcileObserved, bindForFold_same hv, bind, Except.bind, hepoch, hm']
  exact if_pos hq

/-- A row that raises nothing leaves the obligation. -/
theorem noteVenueRemaining_covered {r m : Nat} (hm : m ≤ c.fillObligation) :
    { c.noteVenueRemaining r with fillObligation := max c.fillObligation m } =
      c.noteVenueRemaining r := by
  rw [max_eq_left hm]
  rfl

theorem Restorable.note (hc : Restorable c) (r : Nat) : Restorable (c.noteVenueRemaining r) :=
  ⟨hc.accounted.note r, hc.word⟩

theorem Move.replays (h : Move P c fx d) (hP : P.carried) (hc : Restorable c) :
    Replays c fx d := by
  cases h with
  | idle h => exact .idle h
  | echo _ _ h => exact .record (h hc.accounted.bounded)
  | invalidate =>
      refine .record ?_
      simp only [foldRecord, OrderCtx.restoreEpoch, OrderCtx.invalidateAuthority,
        nextEpoch_max hc.word]
  | bind hn hv =>
      refine .record ?_
      simp only [foldRecord, bindForFold, bindVenueId, hn, hv]
      rfl
  | raise hlt hq => exact .record (foldObligationRaised_raisedCtx hc hlt hq)
  | complete h =>
      have hrep := Completion.replays h c.authorityComplete
      obtain ⟨f, prev, _, _, rfl⟩ := h
      exact hrep
  | settle h => exact h.replays hc c.authorityComplete
  | @remaining r h =>
      have hsame : c.noteVenueRemaining r = c := by
        unfold OrderCtx.noteVenueRemaining
        rw [← h hP]
      rw [hsame]
      exact .nil c
  | @observe v filled r others m hs hm h =>
      refine .record ((foldReconcileObserved_row hs (hm.trans hc.accounted.bounded)).trans ?_)
      rw [noteVenueRemaining_covered hm]
      have hopen : c.authorityComplete = true → ¬ c.attributedFillQty < c.fillObligation :=
        fun ha hlag => h hP ⟨ha, hlag⟩
      cases ha : c.authorityComplete with
      | false => rw [clearIfLagging_open (c := c.noteVenueRemaining r) ha]
      | true => exact congrArg _ (if_neg (hopen ha))
  | @observeSettled c' _ v filled r others m fx gx hs hm hcs hd =>
      have hrow := foldReconcileObserved_row (r := r) hs (hm.trans hc.accounted.bounded)
      rw [noteVenueRemaining_covered hm] at hrow
      obtain ⟨b, hb⟩ := clearIfLagging_withLatch (c.noteVenueRemaining r)
      rw [hb] at hrow
      have hc' : Restorable c' := hcs.preserves (I := fun _ c => Restorable c) (l := [])
        (fun hc h => ⟨Completion.accounted h hc.accounted, Completion.word h hc.word⟩) (hc.note r)
      exact .cons hrow ((Completions.replays hcs b).append (hd.replays hc' b))
  | @observeRaise v filled r others m hs hlt hq =>
      have hrow := foldReconcileObserved_row (r := r) hs hq
      have hlag : c.attributedFillQty < max c.fillObligation m :=
        lt_of_lt_of_le (lt_of_le_of_lt hc.accounted.covered hlt) (le_max_right _ _)
      rw [clearIfLagging_lagging (by exact hlag)] at hrow
      rw [raisedCtx_lagging (c := c.noteVenueRemaining r) (hc.accounted.note r) hlt]
      refine .cons hrow (.record ?_)
      refine (foldObligationRaised (c := OrderCtx.withLatch
        { c.noteVenueRemaining r with fillObligation := max c.fillObligation m } false) hq
        (nextEpoch_max hc.word)).trans ?_
      rw [clearIfLagging_open rfl]
      simp only [OrderCtx.withLatch, OrderCtx.invalidateAuthority, max_eq_right hlt.le, max_self]
  | observeOver hs hq => exact .record (foldReconcileObserved_over hs hq)

/-! ## Responses, releases, steps -/

theorem bindVenueId_fold {v : VenueOrderId} {jr : Option JournalRecord}
    (h : bindVenueId c v = .ok (jr, d)) : bindForFold c v = .ok d := by
  rw [bindForFold, h]
  rfl

/-- The record of the binding repeats what the response's own record has bound. -/
theorem bindVenueId_replayed {v : VenueOrderId} {jr : Option JournalRecord}
    (h : bindVenueId c v = .ok (jr, d)) (he : e.venueOrderId = d.venueOrderId) :
    Replays e (pushJournal [] jr) e := by
  have hv : e.venueOrderId = some v := he.trans (bindVenueId_bound h)
  rcases bindVenueId_ok h with ⟨_, rfl, _⟩ | ⟨_, _, rfl, _⟩
  · exact .nil e
  · exact .record (bindForFold_same hv)

theorem foldSubmitResponse_counted {v : VenueOrderId} {count remaining : Nat} {avg fee : Option Nat}
    {b : Option SnapshotBoundary} {jr : Option JournalRecord} (hb : bindVenueId c v = .ok (jr, d))
    (hpos : 0 < count) (hq : count ≤ d.qty) :
    foldRecord c (.submitResponse v count remaining avg fee b) =
      .ok (recomputeResponseDomain
        { setResponse (d.noteVenueRemaining remaining) count remaining avg fee b with
          fillObligation := max d.fillObligation count }) := by
  have hraise := restoreFillObligation_le
    (c := setResponse (d.noteVenueRemaining remaining) count remaining avg fee b) hq
  simp only [foldRecord, foldSubmitResponse, bindVenueId_fold hb, bind, Except.bind, hpos, if_true,
    hraise]
  rfl

/-- The fold has the obligation already; the raise opens the generation and clears the latch. -/
theorem raiseRecords_replays {n epoch : Nat} (hn : c.fillObligation = n) (hq : n ≤ c.qty)
    (hlag : c.attributedFillQty < n) (he : max epoch c.authorityEpoch = epoch) {p : Prop}
    [Decidable p] :
    Replays c
      ([.appendFsync (.obligationRaised n epoch)] ++
        if p then [.appendFsync (.authorityInvalidated epoch)] else [])
      { c with authorityEpoch := epoch, authorityComplete := false } := by
  subst hn
  refine .cons ((foldObligationRaised hq he).trans ?_) (d := { c with
    authorityEpoch := epoch, authorityComplete := false }) ?_
  · rw [max_self, clearIfLagging_lagging (by exact hlag)]
    rfl
  · split
    · exact .record (by simp only [foldRecord, OrderCtx.restoreEpoch, max_self])
    · exact .nil _

/-- The records of a raise, after the response's own record has raised the obligation. -/
theorem raiseEffects_replays {n : Nat} (hc : Restorable c) (hr : c.raiseFillObligation n = .ok d) :
    Replays (recomputeResponseDomain { c with fillObligation := max c.fillObligation n })
      (raiseEffects c d) (recomputeResponseDomain d) := by
  obtain ⟨hq, ⟨hle, hd⟩ | ⟨hlt, hd⟩⟩ := raiseFillObligation_ok hr
  · have hsame : { c with fillObligation := max c.fillObligation n } = c := by rw [max_eq_left hle]
    rw [hsame, hd]
    simp only [raiseEffects, lt_irrefl, if_false, ne_eq, not_true_eq_false, List.append_nil]
    exact .nil _
  · rw [raisedCtx_lagging hc.accounted hlt] at hd
    subst hd
    have hlag : c.attributedFillQty < n := lt_of_le_of_lt hc.accounted.covered hlt
    rw [recomputeResponseDomain_eq, recomputeResponseDomain_eq, max_eq_right hlt.le, raiseEffects,
      if_pos (by exact hlt)]
    exact raiseRecords_replays (c := OrderCtx.withDomain { c with fillObligation := n } _ _ _) rfl hq
      hlag (nextEpoch_max hc.word)

theorem Answer.replays (h : Answer c fx d) (hc : Restorable c) : Replays c fx d := by
  cases h with
  | @empty d' v remaining avg fee b jr hb =>
      refine .cons (d := d'.noteVenueRemaining remaining) ?_ (bindVenueId_replayed hb rfl)
      simp only [foldRecord, foldSubmitResponse, bindVenueId_fold hb, bind, Except.bind]
      rfl
  | @counted d₁ d₂ v count remaining avg fee b jr hb hpos hr =>
      obtain ⟨hq, _⟩ := raiseFillObligation_ok hr
      have hd : Restorable d₁ := ⟨Moves.accounted (P := .any) (bindVenueId_trail hb) hc.accounted,
        bindVenueId_word hb hc.word⟩
      have hset : Restorable (setResponse (d₁.noteVenueRemaining remaining) count remaining avg fee
          b) := ⟨hd.accounted.congr rfl rfl rfl rfl le_rfl hd.accounted.bounded, hd.word⟩
      exact .cons (foldSubmitResponse_counted hb hpos hq)
        ((bindVenueId_replayed hb (by rw [recomputeResponseDomain_eq]; rfl)).append
          (raiseEffects_replays hset hr))

theorem Deeds.replays (h : Trail (Deed P) c fx d) (hP : P.carried) (hc : Restorable c) :
    Replays c fx d ∧ Restorable d := by
  induction h with
  | nil _ => exact ⟨.nil _, hc⟩
  | cons hm _ ih =>
      have hd : Restorable _ := (Act.deed hm).restorable hc
      have hrep := hm.elim (fun hm => Move.replays hm hP hc) fun hm => Answer.replays hm hc
      exact ⟨hrep.append (ih hd).1, (ih hd).2⟩

theorem latchAuthorityComplete_fresh (h : c.authorityIsFresh = true) :
    { c with authorityComplete := true, authorityLatchedEpoch := c.authorityEpoch } = c := by
  obtain ⟨ha, hl⟩ : c.authorityComplete = true ∧ c.authorityLatchedEpoch = c.authorityEpoch := by
    simpa [OrderCtx.authorityIsFresh] using h
  clear h
  cases c
  simp only at ha hl
  subst ha hl
  rfl

/-- The terminal's own record repeats what the context has. -/
theorem terminalEffects_replays (hc : Restorable c) (kind : TerminalKind) :
    Replays c (terminalEffects c kind) c := by
  refine .cons ?_ (.skip rfl (.nil c))
  have hraise : restoreFillObligation c c.fillObligation = .ok c := by
    rw [restoreFillObligation_le hc.accounted.bounded, max_self]
  have hlatch : (if c.authorityIsFresh then
      { c with authorityComplete := true, authorityLatchedEpoch := c.authorityEpoch } else c) = c := by
    split
    · rename_i h
      exact latchAuthorityComplete_fresh h
    · rfl
  cases hv : c.venueOrderId with
  | none =>
      simp only [foldRecord, foldOrderTerminal, bind, Except.bind, hraise, restoreEpoch_self, hlatch,
        max_self]
  | some v =>
      simp only [foldRecord, foldOrderTerminal, bindForFold_same hv, bind, Except.bind, hraise,
        restoreEpoch_self, hlatch, max_self]

/-- A refused response is written before it is refused; the fold of its record fails alike. -/
theorem Refused.fails {e : OrderEvent} {reason : HaltReason} (h : Refused c e reason fx d) :
    rebuildCtxFromJournal c (journalOf fx) = .error reason := by
  cases h with
  | @conflict v count remaining avg fee b _ hb =>
      have hfold : bindForFold c v = .error reason := by
        rw [bindForFold, hb]
        rfl
      refine (rebuild_cons c _ []).trans ?_
      simp only [foldRecord, foldSubmitResponse, hfold, bind, Except.bind]
  | @excess v count remaining avg fee b jr d' hb hpos hq =>
      have hqty : c.qty = d'.qty := (bindVenueId_kept hb).qty.symm
      have hover : restoreFillObligation (setResponse (d'.noteVenueRemaining remaining) count remaining
          avg fee b) count = .error (.obligationExceedsOrderQty count c.qty) := by
        rw [hqty] at hq ⊢
        exact if_pos hq
      refine (rebuild_cons c _ _).trans ?_
      simp only [foldRecord, foldSubmitResponse, bindVenueId_fold hb, bind, Except.bind, hpos, if_true,
        hover]

/-- The reason a step halted with. -/
def TransitionOutcome.haltReason? : TransitionOutcome → Option HaltReason
  | .halt _ reason _ => some reason
  | _ => none

/-- The records of one step restore what it did, or fail with the reason it halted with. -/
theorem Stepped.replays {o : Order} {e : OrderEvent} {out : TransitionOutcome}
    (h : Stepped P o e out d) (hP : P.carried) (hc : Restorable o.ctx) :
    Replays o.ctx out.effects d ∨
      ∃ reason, rebuildCtxFromJournal o.ctx (journalOf out.effects) = .error reason ∧
        out.haltReason? = some reason := by
  have hhalt : ∀ {fx d} (reason : HaltReason), Replays o.ctx fx d →
      Replays o.ctx (haltWithReason reason fx).effects d := fun reason h =>
    h.append (.cons rfl (.idle (g := .haltNewExposure) rfl))
  cases h with
  | rejected _ => exact .inl (.nil _)
  | landed _ h =>
      cases h with
      | accepted _ ht _ => exact .inl (Deeds.replays ht hP hc).1
      | halted ht _ => exact .inl (hhalt _ (Deeds.replays ht hP hc).1)
      | released _ ht _ =>
          obtain ⟨hrep, hd⟩ := Deeds.replays ht hP hc
          exact .inl (hrep.append (terminalEffects_replays hd _))
  | @refused reason fx d _ h =>
      refine .inr ⟨reason, ?_, rfl⟩
      simp only [haltWithReason, TransitionOutcome.effects, journalOf_append]
      exact rebuild_error h.fails
  | stranded h => exact .inl ((Replays.idle h.halts.2.1).append (.idle (g := .haltNewExposure) rfl))
  | closed _ _ _ => exact .inl (.nil _)
  | frozen _ _ ht => exact .inl (Deeds.replays (Moves.deeds (Completions.moves ht)) hP hc).1
  | thawed _ _ ht =>
      have hrep := (Deeds.replays (Moves.deeds ht) hP hc).1
      refine .inl (hhalt _ ?_)
      unfold reserveIfReleased
      split
      · exact hrep.append (.skip rfl (.nil _))
      · exact hrep

end Omsrs.Lifecycle
