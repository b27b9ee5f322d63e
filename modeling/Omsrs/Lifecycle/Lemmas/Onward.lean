import Omsrs.Lifecycle.Lemmas.Steps

/-!
# How far an order is

The stages an order goes through, what it waits for in some of them, and what every handler makes of
them: it does not lead back, it opens nothing, it asks for the evidence that the order starts to wait
for, and it halts aloud.
-/

namespace Omsrs.Lifecycle
open Omsrs.Lib

/-! ## Stages and waits -/

/-- Not prepared, prepared, sent, sent without an answer, known to the venue, at rest. -/
def stage : OrderState → Nat
  | .new => 0
  | .submitPrepared => 1
  | .submitStarted _ => 2
  | .submitUnknown => 3
  | .accepted _ | .partialFill .. | .cancelPending .. | .reconcilePending ..
  | .immediateFillUnattributed .. => 4
  | .filled | .canceled | .terminal | .immediateFillUnresolved | .unknownNoMatch | .halted _
  | .submissionClosed _ => 5

/-- What an order may wait for: the venue's row, the fills a response counts, what lacks for its end. -/
inductive Awaited
  | row
  | fills (v : VenueOrderId)
  | ending (v : VenueOrderId)
deriving DecidableEq

def awaited : OrderState → Option Awaited
  | .submitUnknown => some .row
  | .immediateFillUnattributed v .. => some (.fills v)
  | .reconcilePending v .. => some (.ending v)
  | _ => none

/-- The requests that answer a wait of the order with this client id. -/
def Awaited.asks (cid : ClientOrderId) : Awaited → Effect → Prop
  | .row, e => e = .backfillUnknown cid
  | .fills v, e => e = .backfillFills v
  | .ending v, e => e = .backfillFills v ∨ e = .requestAuthorityReconcile (some v) cid

/-- A record of the opening of an order, or a request under another client id. -/
def Effect.strays (cid : ClientOrderId) : Effect → Bool
  | .appendFsync (.submitPrepared _) | .appendFsync (.submitStarted _) => true
  | .backfillUnknown k | .requestAuthorityReconcile _ k => decide (k ≠ cid)
  | _ => false

def Straight (cid : ClientOrderId) (fx : List Effect) : Prop := ∀ e ∈ fx, e.strays cid = false

/-- What a handler makes of an order in state `w`. -/
structure Proper (cid : ClientOrderId) (w : OrderState) (out : TransitionOutcome) : Prop where
  onward : ∀ s, out.newState = some s → stage w ≤ stage s
  straight : Straight cid out.effects
  asked : ∀ s a, out.newState = some s → awaited s = some a → awaited w ≠ some a →
    ∃ e ∈ out.effects, a.asks cid e
  loud : ∀ s, out.newState = some s → isHaltState s = true → s ≠ w →
    .haltNewExposure ∈ out.effects ∧ ∃ e ∈ out.effects, isHaltedJournal e = true

variable {cid : ClientOrderId} {w s : OrderState} {c d : OrderCtx} {fx gx : List Effect}
  {v : VenueOrderId} {out : TransitionOutcome}

@[simp] theorem straight_nil : Straight cid [] := by simp [Straight]

@[simp] theorem straight_append : Straight cid (fx ++ gx) ↔ Straight cid fx ∧ Straight cid gx := by
  simp [Straight, or_imp, forall_and]

@[simp] theorem straight_cons {e : Effect} : Straight cid (e :: fx) ↔ e.strays cid = false ∧ Straight cid fx := by
  simp [Straight]

theorem Straight.push (h : Straight cid fx) {jr : Option JournalRecord}
    (hj : ∀ r ∈ jr, (Effect.appendFsync r).strays cid = false) : Straight cid (pushJournal fx jr) := by
  cases jr with
  | none => exact h
  | some r => simpa [pushJournal, h] using hj r rfl

theorem stage_le (s : OrderState) : stage s ≤ 5 := by
  cases s <;> simp [stage]

/-! ## Outcomes -/

theorem Proper.rejected (reason : RejectReason) : Proper cid w (.reject reason) where
  onward := by simp [TransitionOutcome.newState]
  straight := by simp [TransitionOutcome.effects]
  asked := by simp [TransitionOutcome.newState]
  loud := by simp [TransitionOutcome.newState]

theorem Proper.halted (hfx : Straight cid fx) (reason : HaltReason) :
    Proper cid w (haltWithReason reason fx) where
  onward s hs := by
    cases hs
    exact stage_le w
  straight := by simp [haltWithReason, TransitionOutcome.effects, Effect.strays, hfx]
  asked s a hs ha := by
    cases hs
    cases ha
  loud s hs _ _ := by
    cases hs
    refine ⟨by simp [haltWithReason, TransitionOutcome.effects], .appendFsync (.halted reason), ?_, rfl⟩
    simp [haltWithReason, TransitionOutcome.effects]

/-- A halt in a state of its own, recorded and told unless it was already. -/
theorem Proper.haltedInto (hs : stage w ≤ stage s) (ha : awaited s = none) (hfx : Straight cid fx)
    (reason : HaltReason) : Proper cid w (haltWithReasonState s reason fx) where
  onward s' hs' := by
    cases hs'
    exact hs
  straight := by
    simp only [haltWithReasonState, TransitionOutcome.effects]
    split_ifs <;> simp [Effect.strays, hfx]
  asked s' a hs' ha' := by
    cases hs'
    rw [ha] at ha'
    cases ha'
  loud s' _ _ _ := by
    simp only [haltWithReasonState, TransitionOutcome.effects]
    constructor
    · split_ifs with _ h
      · simpa using h
      · simp
      · rename_i h
        simpa using h
      · simp
    · split_ifs with h
      · simpa using h
      · obtain ⟨e, he, hj⟩ := List.any_eq_true.mp h
        exact ⟨e, List.mem_append_left _ he, hj⟩
      · exact ⟨.appendFsync (.halted reason), by simp, rfl⟩
      · exact ⟨.appendFsync (.halted reason), by simp, rfl⟩

/-- An accepted step that asks for what it starts to wait for. -/
theorem Proper.accepted (hs : stage w ≤ stage s) (hfx : Straight cid fx)
    (ha : ∀ a, awaited s = some a → awaited w ≠ some a → ∃ e ∈ fx, a.asks cid e)
    (hh : isHaltState s = true → s = w) : Proper cid w (accept s fx) where
  onward s' hs' := by
    cases hs'
    exact hs
  straight := hfx
  asked s' a hs' := by
    cases hs'
    exact ha a
  loud s' hs' hh' hne := by
    cases hs'
    exact absurd (hh hh') hne

/-- An accepted step into a state that waits for nothing. -/
theorem Proper.free (hs : stage w ≤ stage s) (hfx : Straight cid fx) (ha : awaited s = none)
    (hh : isHaltState s = false) : Proper cid w (accept s fx) := by
  apply Proper.accepted hs hfx
  · simp [ha]
  · simp [hh]

/-- An accepted step that stays. -/
theorem Proper.stays (hfx : Straight cid fx) : Proper cid w (accept w fx) := by
  apply Proper.accepted le_rfl hfx
  · intro a ha hne
    exact absurd ha hne
  · simp

theorem Proper.prepend (h : Proper cid w out) (hfx : Straight cid fx) :
    Proper cid w (out.prependEffects fx) := by
  cases out with
  | reject reason => exact .rejected reason
  | accept s gx =>
      refine ⟨h.onward, by simpa [TransitionOutcome.prependEffects, TransitionOutcome.effects] using
        ⟨hfx, h.straight⟩, fun s' a hs' ha hne => ?_, fun s' hs' hh hne => ?_⟩
      · obtain ⟨e, he, hask⟩ := h.asked s' a hs' ha hne
        exact ⟨e, List.mem_append_right fx he, hask⟩
      · obtain ⟨hn, e, he, hj⟩ := h.loud s' hs' hh hne
        exact ⟨List.mem_append_right fx hn, e, List.mem_append_right fx he, hj⟩
  | halt s reason gx =>
      refine ⟨h.onward, by simpa [TransitionOutcome.prependEffects, TransitionOutcome.effects] using
        ⟨hfx, h.straight⟩, fun s' a hs' ha hne => ?_, fun s' hs' hh hne => ?_⟩
      · obtain ⟨e, he, hask⟩ := h.asked s' a hs' ha hne
        exact ⟨e, List.mem_append_right fx he, hask⟩
      · obtain ⟨hn, e, he, hj⟩ := h.loud s' hs' hh hne
        exact ⟨List.mem_append_right fx hn, e, List.mem_append_right fx he, hj⟩

/-! ## Terminal gates -/

theorem notReadyForTerminal_proper (hc : c.clientOrderId = cid) (hw : stage w ≤ 4)
    (hfx : Straight cid fx) (fb : ReconcileTerminal) (ask : Bool) (rem : Option Nat) :
    Proper cid w (notReadyForTerminal c v fx fb ask rem) := by
  subst hc
  unfold notReadyForTerminal
  dsimp only
  apply Proper.accepted
  · exact hw
  · split_ifs <;> simp [Effect.strays, hfx]
  · intro a ha _
    cases ha
    by_cases hlag : c.attributedFillQty < c.fillObligation
    · refine ⟨.backfillFills v, ?_, .inl rfl⟩
      rw [if_pos hlag]
      split_ifs <;> simp
    · refine ⟨.requestAuthorityReconcile (some v) c.clientOrderId, ?_, .inr rfl⟩
      rw [if_neg hlag, if_pos (by simp [not_lt.mp hlag])]
      split_ifs <;> simp
  · simp [isHaltState]

theorem releaseTerminal_proper (hfx : Straight cid fx) (p : ProposedTerminal) :
    Proper cid w (releaseTerminal c p fx) := by
  apply Proper.free
  · cases p <;> exact stage_le w
  · simp [Effect.strays, hfx]
  · cases p <;> rfl
  · cases p <;> rfl

theorem tryFinalizeTerminal_proper (hc : c.clientOrderId = cid) (hw : stage w ≤ 4)
    (hfx : Straight cid fx) (p : ProposedTerminal) (fb : ReconcileTerminal) :
    Proper cid w (tryFinalizeTerminal c p v fx fb) := by
  unfold tryFinalizeTerminal
  split
  · exact .halted hfx _
  · apply notReadyForTerminal_proper hc hw
    split
    · simp [Effect.strays, hfx]
    · exact hfx
  · split
    · unfold finalizeFilled
      split
      · exact .halted hfx _
      · split
        · exact .halted hfx _
        · split
          · split
            · exact .halted hfx _
            · exact notReadyForTerminal_proper hc hw hfx _ _ _
          · exact releaseTerminal_proper hfx _
    · exact releaseTerminal_proper hfx _

/-! ## Records of the context -/

theorem bindVenueId_client (cid : ClientOrderId) {jr : Option JournalRecord}
    (h : bindVenueId c v = .ok (jr, d)) :
    d.clientOrderId = c.clientOrderId ∧ ∀ r ∈ jr, (Effect.appendFsync r).strays cid = false := by
  rcases bindVenueId_ok h with ⟨_, rfl, rfl⟩ | ⟨_, _, rfl, rfl⟩ <;> simp [Effect.strays]

theorem raiseFillObligation_client {n : Nat} (h : c.raiseFillObligation n = .ok d) :
    d.clientOrderId = c.clientOrderId := by
  obtain ⟨_, ⟨_, rfl⟩ | ⟨hlt, rfl⟩⟩ := raiseFillObligation_ok h
  · rfl
  · exact (Kept.raised hlt).client

theorem noteFillEvidence_client (cid : ClientOrderId) {n : Nat} {jr : Option JournalRecord}
    (h : noteFillEvidence c n = .ok (jr, d)) :
    d.clientOrderId = c.clientOrderId ∧ ∀ r ∈ jr, (Effect.appendFsync r).strays cid = false := by
  unfold noteFillEvidence at h
  split at h
  · cases h
  · rename_i d' hd
    split at h <;>
    · cases h
      exact ⟨raiseFillObligation_client hd, by simp [Effect.strays]⟩

theorem noteAuthorityComplete_client (cid : ClientOrderId) (c : OrderCtx) (complete : Bool) :
    (noteAuthorityComplete c complete).2.clientOrderId = c.clientOrderId ∧
      ∀ r ∈ (noteAuthorityComplete c complete).1, (Effect.appendFsync r).strays cid = false := by
  cases complete <;> simp [noteAuthorityComplete, OrderCtx.latchAuthorityComplete, Effect.strays]

theorem straight_raise (before after : OrderCtx) : Straight cid (raiseEffects before after) := by
  unfold raiseEffects
  split_ifs <;> simp [Effect.strays]

/-- Taking in fills keeps the order's client id and does not stray. -/
theorem tryAccountFill_client (cid : ClientOrderId) (c : OrderCtx) (f : FillRecord) :
    (tryAccountFill c f).2.clientOrderId = c.clientOrderId ∧
      match (tryAccountFill c f).1 with
      | .noOp => True
      | .applied e | .enriched e | .halt _ e => Straight cid e := by
  have hcomplete : ∀ prev, Straight cid (completeEffects c f prev) := by
    intro prev
    unfold completeEffects
    split <;> simp [Effect.strays, fillJournalRecord]
  have hbook : Straight cid (bookEffects c f) := by
    unfold bookEffects fillEffects
    split_ifs <;> simp [Effect.strays, fillJournalRecord]
  have ha := tryAccountFill_accounting c f
  rcases hres : tryAccountFill c f with ⟨a, d⟩
  simp only [hres] at ha
  cases ha with
  | ignored => simp
  | refused reason => simp
  | completed prev h => exact ⟨rfl, hcomplete prev⟩
  | booked h _ => exact ⟨(Kept.booked c f).client, hbook⟩
  | overfilled h _ => exact ⟨(Kept.booked c f).client, hbook⟩

theorem accountFills_client (refuse : FillRecord → Option HaltReason) (hfx : Straight cid fx)
    (fills : List FillRecord) :
    Straight cid (accountedBy (accountFills refuse c fx fills)).1 ∧
      (accountedBy (accountFills refuse c fx fills)).2.clientOrderId = c.clientOrderId := by
  induction fills generalizing c fx with
  | nil => exact ⟨hfx, rfl⟩
  | cons f fills ih =>
      simp only [accountFills]
      split
      · exact ⟨hfx, rfl⟩
      · have ha := tryAccountFill_client cid c f
        rcases hres : tryAccountFill c f with ⟨a, d⟩
        simp only [hres] at ha
        obtain ⟨hc, he⟩ := ha
        cases a with
        | noOp => exact hc ▸ ih hfx
        | applied e => exact hc ▸ ih (straight_append.mpr ⟨hfx, he⟩)
        | enriched e => exact hc ▸ ih (straight_append.mpr ⟨hfx, he⟩)
        | halt reason e => exact ⟨straight_append.mpr ⟨hfx, he⟩, hc⟩

/-! ## Fills -/

theorem routeLiveOrFilled_proper (hc : c.clientOrderId = cid) (hw : stage w ≤ 4) (hfx : Straight cid fx) :
    Proper cid w (routeLiveOrFilled c v fx).1 := by
  unfold routeLiveOrFilled
  split
  · exact .halted hfx _
  · split
    · have hn := noteAuthorityComplete_client cid c true
      exact tryFinalizeTerminal_proper (hn.1.trans hc) hw (hfx.push hn.2) _ _
    · split
      · exact .free hw hfx rfl rfl
      · exact .free hw hfx rfl rfl

/-- A response keeps waiting for its fills only where it waited already, or where they were asked for. -/
theorem resolveUnattributed_proper (hc : c.clientOrderId = cid) (hw : stage w ≤ 4) (hfx : Straight cid fx)
    (hask : awaited w = some (.fills v) ∨ .backfillFills v ∈ fx) (rc rem : Nat) (avg fee : Option Nat) :
    Proper cid w (resolveUnattributed c v rc rem avg fee fx).1 := by
  unfold resolveUnattributed
  split
  · apply Proper.accepted hw hfx
    · intro a ha hne
      cases ha
      rcases hask with hask | hask
      · exact absurd hask hne
      · exact ⟨_, hask, rfl⟩
    · simp [isHaltState]
  · exact .halted hfx _
  · exact routeLiveOrFilled_proper hc hw hfx

theorem applyImmediateFillBackfill_proper (hc : c.clientOrderId = cid) (hw : stage w ≤ 4)
    (hask : awaited w = some (.fills v)) (rc rem : Nat) (avg fee : Option Nat) (fills : List FillRecord) :
    Proper cid w (applyImmediateFillBackfill c v rc rem avg fee fills).1 := by
  unfold applyImmediateFillBackfill
  split
  · exact .halted straight_nil _
  · rename_i jr d hb
    obtain ⟨hd, hj⟩ := bindVenueId_client cid hb
    have hfills := accountFills_client (fun _ => none) (straight_nil.push hj) fills (c := d)
    split
    · rename_i hres
      rw [hres] at hfills
      exact .halted hfills.1 _
    · rename_i hres
      rw [hres] at hfills
      exact resolveUnattributed_proper (hfills.2.trans (hd.trans hc)) hw hfills.1 (.inl hask) _ _ _ _

theorem applyEmptyResponse_proper (hc : c.clientOrderId = cid) (hw : stage w ≤ 4) (hfx : Straight cid fx)
    (rem : Nat) : Proper cid w (applyEmptyResponse c v rem fx).1 := by
  unfold applyEmptyResponse
  split
  · split
    · exact routeLiveOrFilled_proper hc hw hfx
    · exact .halted hfx _
  · split
    · split
      · have hn := noteAuthorityComplete_client cid c true
        exact tryFinalizeTerminal_proper (hn.1.trans hc) hw (hfx.push hn.2) _ _
      · exact .halted hfx _
    · exact .free hw hfx rfl rfl

theorem recomputeResponseDomain_client (c : OrderCtx) :
    (recomputeResponseDomain c).clientOrderId = c.clientOrderId := by
  rw [recomputeResponseDomain_eq]
  rfl

theorem applySubmitResponse_proper (hc : c.clientOrderId = cid) (hw : stage w ≤ 4)
    (count rem : Nat) (avg fee : Option Nat) (b : Option SnapshotBoundary) :
    Proper cid w (applySubmitResponse c v count rem avg fee b).1 := by
  have hopen : Straight cid [.appendFsync (.submitResponse v count rem avg fee b)] := by
    simp [Effect.strays]
  unfold applySubmitResponse
  dsimp only
  split
  · exact .halted hopen _
  · rename_i jr d hb
    obtain ⟨hd, hj⟩ := bindVenueId_client cid hb
    have hpush := hopen.push hj
    have hcid : (d.noteVenueRemaining rem).clientOrderId = cid := hd.trans hc
    split
    · exact applyEmptyResponse_proper hcid hw hpush rem
    · split
      · exact .halted hpush _
      · rename_i raised hr
        have hraised : raised.clientOrderId = cid := (raiseFillObligation_client hr).trans hcid
        have hdomain := (recomputeResponseDomain_client raised).trans hraised
        have hrec := straight_append.mpr
          ⟨hpush, straight_raise (setResponse (d.noteVenueRemaining rem) count rem avg fee b) raised⟩
        split
        · exact .halted hrec _
        · have hall := straight_append.mpr (⟨hrec, by simp [Effect.strays]⟩ :
            _ ∧ Straight cid [.appendFsync (.immediateFillUnattributed v count rem avg fee), .backfillFills v])
          split
          · exact resolveUnattributed_proper hdomain hw hall (.inr (by simp)) _ _ _ _
          · apply Proper.accepted hw hall
            · intro a ha _
              cases ha
              exact ⟨.backfillFills v, by simp, rfl⟩
            · simp [isHaltState]

theorem afterFillTarget_proper (hc : c.clientOrderId = cid) (hw : stage w ≤ 4) (hfx : Straight cid fx)
    (hask : awaited w = some (.ending v)) (target : ReconcileTarget) (rem : Nat) :
    Proper cid w (afterFillTarget c v target fx rem).1 := by
  unfold afterFillTarget
  split
  · exact .halted hfx _
  · rename_i jr d hn
    obtain ⟨hd, hj⟩ := noteFillEvidence_client cid hn
    have hcid := hd.trans hc
    have hpush := hfx.push hj
    dsimp only
    split
    · split
      · exact notReadyForTerminal_proper hcid hw hpush _ _ _
      · exact .halted hpush _
    · split
      · have hl := noteAuthorityComplete_client cid d (d.attributedFillQty == d.qty)
        unfold finalizeReconcileTarget
        split <;> exact tryFinalizeTerminal_proper (hl.1.trans hcid) hw (hpush.push hl.2) _ _
      · apply Proper.accepted hw hpush
        · intro a ha hne
          cases ha
          exact absurd hask hne
        · simp [isHaltState]

theorem afterFillCancelOrReconcile_proper (hc : c.clientOrderId = cid) (hw : stage w ≤ 4)
    (hfx : Straight cid fx) {target : Option ReconcileTarget}
    (hask : target.isSome = true → awaited w = some (.ending v)) (last : Nat) (enriched : Bool) :
    Proper cid w (afterFillCancelOrReconcile c v target fx last enriched).1 := by
  unfold afterFillCancelOrReconcile
  split
  · exact .halted hfx _
  · split
    · exact afterFillTarget_proper hc hw hfx (hask rfl) _ _
    · split
      · have hl := noteAuthorityComplete_client cid c true
        exact tryFinalizeTerminal_proper (hl.1.trans hc) hw (hfx.push hl.2) _ _
      · exact .free hw hfx rfl rfl

theorem applyFillWhileOpen_proper (hc : c.clientOrderId = cid) (hw : stage w ≤ 4) (ha : Agrees w c)
    (f : FillRecord) : Proper cid w (applyFillWhileOpen w c f).1 := by
  have hfill := tryAccountFill_client cid c f
  unfold applyFillWhileOpen
  split
  · exact .stays straight_nil
  · rename_i hres
    rw [hres] at hfill
    exact .halted hfill.2 _
  · rename_i hres
    rw [hres] at hfill
    obtain ⟨hd, he⟩ := hfill
    split
    · exact afterFillCancelOrReconcile_proper (hd.trans hc) hw he (by simp [ha.2.2.2.2.2]) _ _
    · exact afterFillCancelOrReconcile_proper (hd.trans hc) hw he (fun _ => rfl) _ _
    · exact .stays he
  · rename_i hres
    rw [hres] at hfill
    obtain ⟨hd, he⟩ := hfill
    split
    · exact .stays he
    · exact afterFillCancelOrReconcile_proper (hd.trans hc) hw he (by simp [ha.2.2.2.2.2]) _ _
    · exact afterFillCancelOrReconcile_proper (hd.trans hc) hw he (fun _ => rfl) _ _
    · exact routeLiveOrFilled_proper (hd.trans hc) hw he

theorem applyFillDedupOnly_proper (f : FillRecord) : Proper cid w (applyFillDedupOnly c f w).1 := by
  have hfill := tryAccountFill_client cid c f
  unfold applyFillDedupOnly
  split
  · exact .stays straight_nil
  all_goals
    rename_i hres
    rw [hres] at hfill
  · exact .halted hfill.2 _
  · exact .stays hfill.2
  · exact .stays hfill.2

/-! ## Venue rows -/

/-- The states from which a row is routed, with or without the order's outcome known. -/
def RoutedFrom (w : OrderState) (fromSubmitUnknown : Bool) : Prop :=
  stage w ≤ 4 ∧ (fromSubmitUnknown = true → stage w ≤ 3)

theorem continueReconcilePending_proper (hc : c.clientOrderId = cid) {unknown complete : Bool}
    (hw : stage w ≤ 4) (hknown : (unknown && !complete) = false) (hfx : Straight cid fx) (q : Nat) :
    Proper cid w (continueReconcilePending c v q fx unknown complete none) := by
  simp only [continueReconcilePending, hknown, Bool.false_eq_true, if_false]
  split
  all_goals
    apply Proper.free hw
    · split_ifs <;> simp [Effect.strays, hfx, hc]
    · rfl
    · rfl

theorem tryFinalizeTerminal_stays (hc : c.clientOrderId = cid) {unknown complete : Bool}
    (hw : RoutedFrom w unknown) (hfx : Straight cid fx) (p : ProposedTerminal) (fb : ReconcileTerminal) :
    Proper cid w (stayUnknown c unknown complete (tryFinalizeTerminal c p v fx fb)) := by
  have h := tryFinalizeTerminal_proper (v := v) hc hw.1 hfx p fb
  unfold stayUnknown
  split
  · rename_i hun
    split
    · rename_i e heq
      rw [heq] at h
      have hstraight : Straight cid e := h.straight
      have hun : unknown = true := by
        simp only [Bool.and_eq_true] at hun
        exact hun.1
      apply Proper.accepted (hw.2 hun)
      · split
        · exact hstraight
        · simpa [Effect.strays, hc] using hstraight
      · intro a ha _
        cases ha
        split
        · rename_i hany
          obtain ⟨x, hx, hm⟩ := List.any_eq_true.mp hany
          cases x with
          | backfillUnknown k =>
              have hk := hstraight _ hx
              simp only [Effect.strays, decide_eq_false_iff_not, not_not] at hk
              exact ⟨_, hx, by rw [hk]; rfl⟩
          | _ => cases hm
        · exact ⟨.backfillUnknown c.clientOrderId, by simp, by rw [hc]; rfl⟩
      · simp [isHaltState]
    · exact h
  · exact h

theorem routeStatus_proper (hc : c.clientOrderId = cid) {unknown complete : Bool}
    (hw : RoutedFrom w unknown) (hfx : Straight cid fx) (status : BackfillOrderStatus) (q r m cap : Nat) :
    Proper cid w (routeStatus c v status q r m cap fx complete unknown) := by
  have hworking : status = .openOrder ∨ status = .partialFill →
      Proper cid w (routeStatus c v status q r m cap fx complete unknown) := by
    intro hs
    have : routeStatus c v status q r m cap fx complete unknown =
        routeStatus c v .openOrder q r m cap fx complete unknown := by
      rcases hs with rfl | rfl <;> rfl
    rw [this]
    unfold routeStatus
    dsimp only
    split
    · rename_i hun
      have hun : unknown = true := by simp at hun; exact hun.1
      apply Proper.accepted (hw.2 hun)
      · split_ifs <;> simp [Effect.strays, hfx, hc]
      · intro a ha _
        cases ha
        exact ⟨.backfillUnknown c.clientOrderId, by simp, by rw [hc]; rfl⟩
      · simp [isHaltState]
    · rename_i hknown
      split
      · exact continueReconcilePending_proper hc hw.1 (by simpa using hknown) hfx _
      · split
        · exact .halted hfx _
        · split
          · exact .halted hfx _
          · split
            · exact .free hw.1 hfx rfl rfl
            · exact .free hw.1 hfx rfl rfl
  cases status with
  | openOrder => exact hworking (.inl rfl)
  | partialFill => exact hworking (.inr rfl)
  | canceled => exact tryFinalizeTerminal_stays hc hw hfx _ _
  | filled => exact tryFinalizeTerminal_stays hc hw hfx _ _

theorem routeBackfillFills_proper (hc : c.clientOrderId = cid) {unknown : Bool}
    (hw : RoutedFrom w unknown) (hfx : Straight cid fx) (status : BackfillOrderStatus)
    (q r others m cap : Nat) (fills : List FillRecord) (complete : Bool) :
    Proper cid w (routeBackfillFills c v status q r others m cap fx fills complete unknown).1 := by
  have hfills := accountFills_client (fun _ => none) hfx fills (c := c)
  unfold routeBackfillFills
  split
  · rename_i hres
    rw [hres] at hfills
    exact .halted hfills.1 _
  · rename_i gx d hres
    rw [hres] at hfills
    have hl := noteAuthorityComplete_client cid d complete
    have hpush := hfills.1.push hl.2
    have hcid := hl.1.trans (hfills.2.trans hc)
    have hseen : Straight cid
        (if complete = true then
          pushJournal gx (noteAuthorityComplete d complete).1 ++
            [observedEffect (noteAuthorityComplete d complete).2 v q r others true]
        else pushJournal gx (noteAuthorityComplete d complete).1) := by
      split
      · exact straight_append.mpr ⟨hpush, by simp [observedEffect, Effect.strays]⟩
      · exact hpush
    dsimp only
    split
    · exact .halted hseen _
    · exact routeStatus_proper hcid hw hseen _ _ _ _ _

theorem observed_straight (c : OrderCtx) (q r others : Nat) {jr : Option JournalRecord}
    (hj : ∀ r ∈ jr, (Effect.appendFsync r).strays cid = false) :
    Straight cid (pushJournal [] jr ++ [observedEffect c v q r others false]) :=
  straight_append.mpr ⟨straight_nil.push hj, by simp [observedEffect, Effect.strays]⟩

theorem routeFromBackfillStatus_proper (hc : c.clientOrderId = cid) {unknown : Bool}
    (hw : RoutedFrom w unknown) (status : BackfillOrderStatus) (q r others : Nat)
    (fills : List FillRecord) (complete : Bool) :
    Proper cid w (routeFromBackfillStatus c v status q r others fills complete unknown).1 := by
  unfold routeFromBackfillStatus
  split
  · exact .halted straight_nil _
  · split
    · exact .halted straight_nil _
    · rename_i jr d hb
      obtain ⟨hd, hj⟩ := bindVenueId_client cid hb
      have hseen := observed_straight (v := v) (d.noteVenueRemaining r) q r others hj
      dsimp only
      split
      · exact .halted hseen _
      · rename_i jr' d' hn
        obtain ⟨hd', hj'⟩ := noteFillEvidence_client cid hn
        exact routeBackfillFills_proper (hd'.trans (hd.trans hc)) hw (hseen.push hj') _ _ _ _ _ _ _ _

theorem bookUniqueBackfill_proper (hc : c.clientOrderId = cid) (hw : stage w ≤ 3)
    (hfx : Straight cid fx) (r : BackfillOrderRecord) : Proper cid w (bookUniqueBackfill c r fx).1 := by
  have hfills := accountFills_client (missingVenue r.venueOrderId) hfx r.fills (c := c)
  unfold bookUniqueBackfill
  split
  · rename_i hres
    rw [hres] at hfills
    exact .halted hfills.1 _
  · rename_i gx d hres
    rw [hres] at hfills
    have hl := noteAuthorityComplete_client cid d true
    exact (routeFromBackfillStatus_proper (hl.1.trans (hfills.2.trans hc)) ⟨by omega, fun _ => hw⟩ _ _ _ _
      _ _).prepend (hfills.1.push hl.2)

theorem applyUniqueBackfill_proper (hc : c.clientOrderId = cid) (hw : stage w ≤ 3)
    (r : BackfillOrderRecord) : Proper cid w (applyUniqueBackfill c r).1 := by
  unfold applyUniqueBackfill
  split
  · exact .halted straight_nil _
  · split
    · exact .halted straight_nil _
    · rename_i jr d hb
      obtain ⟨hd, hj⟩ := bindVenueId_client cid hb
      have hseen := observed_straight (v := r.venueOrderId) (d.noteVenueRemaining r.remainingQty)
        r.filledQty r.remainingQty r.otherMembersFilled hj
      dsimp only
      split
      · exact .halted hseen _
      · rename_i jr' d' hn
        obtain ⟨hd', hj'⟩ := noteFillEvidence_client cid hn
        have hl := noteAuthorityComplete_client cid d' true
        exact bookUniqueBackfill_proper (hl.1.trans (hd'.trans (hd.trans hc))) hw
          ((hseen.push hj').push hl.2) r

theorem applyUnknownBackfill_proper (hc : c.clientOrderId = cid) (exhaustive : Bool)
    (matched : List BackfillOrderRecord) :
    Proper cid .submitUnknown (applyUnknownBackfill c exhaustive matched).1 := by
  unfold applyUnknownBackfill
  split
  · split
    · exact .haltedInto (by simp [stage]) rfl (by simp [Effect.strays]) _
    · exact .stays (by simp [Effect.strays, hc])
  · split
    · exact .halted straight_nil _
    · split
      · apply Proper.stays
        split <;> simp [Effect.strays, hc]
      · exact applyUniqueBackfill_proper hc le_rfl _
  · exact .halted straight_nil _

theorem applyReconcileResult_proper (hc : c.clientOrderId = cid) (hw : stage w ≤ 4)
    (status : BackfillOrderStatus) (ev : Option VenueOrderId) (q r : Nat) (fills : List FillRecord)
    (complete : Bool) : Proper cid w (applyReconcileResult c v status ev q r fills complete).1 := by
  have hroute : ∀ {d : OrderCtx} {jr : Option JournalRecord} (v : VenueOrderId),
      d.clientOrderId = cid → (∀ r ∈ jr, (Effect.appendFsync r).strays cid = false) →
      Proper cid w ((routeFromBackfillStatus d v status q r 0 fills complete false).1.prependEffects
        (pushJournal [] jr)) := by
    intro d jr v hd hj
    exact (routeFromBackfillStatus_proper hd ⟨hw, by simp⟩ _ _ _ _ _ _).prepend (straight_nil.push hj)
  unfold applyReconcileResult resolveReconcileVenue
  cases hb : bindVenueId c v with
  | error reason => exact .halted straight_nil _
  | ok bound =>
      obtain ⟨jr, d⟩ := bound
      obtain ⟨hd, hj⟩ := bindVenueId_client cid hb
      cases ev with
      | none => exact hroute v (hd.trans hc) hj
      | some named =>
          cases hb' : bindVenueId d named with
          | error reason =>
              simp only [hb']
              exact .halted (straight_nil.push hj) _
          | ok bound' =>
              obtain ⟨jr', d'⟩ := bound'
              obtain ⟨hd', hj'⟩ := bindVenueId_client cid hb'
              have hcid := hd'.trans (hd.trans hc)
              cases jr' with
              | none =>
                  simp only [hb']
                  exact hroute named hcid hj
              | some _ =>
                  simp only [hb']
                  exact hroute named hcid hj'

/-! ## Cancels -/

theorem invalidate_client (cid : ClientOrderId) (c : OrderCtx) :
    (authorityInvalidateEffects c).2.clientOrderId = c.clientOrderId ∧
      Straight cid (authorityInvalidateEffects c).1 := by
  simp [authorityInvalidateEffects, OrderCtx.invalidateAuthority, Effect.strays]

theorem requestCancel_proper (hw : stage w ≤ 4) (rc avg fee : Option Nat) :
    Proper cid w (requestCancel c v rc avg fee).1 := by
  apply Proper.free hw
  · exact straight_append.mpr ⟨(invalidate_client cid c).2, by simp [Effect.strays]⟩
  · rfl
  · rfl

theorem carryResponse_client (hc : c.clientOrderId = cid) (hfx : Straight cid fx) {rc avg fee : Option Nat}
    (h : carryResponse c fx rc avg fee = .ok (gx, d)) : d.clientOrderId = cid ∧ Straight cid gx := by
  unfold carryResponse at h
  cases rc with
  | none =>
      cases h
      exact ⟨hc, hfx⟩
  | some n =>
      dsimp only at h
      cases hr : OrderCtx.raiseFillObligation
          { c with responseFillCount := c.responseFillCount.or (some n) } n with
      | error reason =>
          simp only [hr] at h
          cases h
      | ok raised =>
          simp only [hr] at h
          cases h
          exact ⟨(raiseFillObligation_client hr).trans hc, straight_append.mpr ⟨hfx, straight_raise _ _⟩⟩

theorem carryTarget_client (hc : c.clientOrderId = cid) (hfx : Straight cid fx)
    (target : Option ReconcileTarget) :
    match carryTarget c fx target with
    | .error (_, gx, _) => Straight cid gx
    | .ok (gx, d) => d.clientOrderId = cid ∧ Straight cid gx := by
  cases target with
  | none => exact ⟨hc, hfx⟩
  | some t =>
      simp only [carryTarget]
      cases hn : noteFillEvidence c t.venueFilledQty with
      | error reason => exact hfx
      | ok noted =>
          obtain ⟨hd, hj⟩ := noteFillEvidence_client cid hn
          cases t.venueRemainingQty with
          | none => exact ⟨hd.trans hc, hfx.push hj⟩
          | some r => exact ⟨hd.trans hc, hfx.push hj⟩

theorem routeCancelOutcome_proper (hc : c.clientOrderId = cid) (hw : stage w ≤ 4) (hfx : Straight cid fx)
    (filled remaining : Nat) (target : Option ReconcileTarget) (outcome : CancelOutcome) :
    Proper cid w (routeCancelOutcome c v filled remaining target fx outcome) := by
  cases outcome with
  | canceled => exact tryFinalizeTerminal_proper hc hw hfx _ _
  | alreadyTerminal => exact tryFinalizeTerminal_proper hc hw hfx _ _
  | accepted => exact .free hw hfx rfl rfl
  | rejected =>
      simp only [routeCancelOutcome]
      split
      · exact .free hw hfx rfl rfl
      · exact .free hw hfx rfl rfl
  | _ => exact .free hw (straight_append.mpr ⟨hfx, by simp [Effect.strays]⟩) rfl rfl

theorem applyCancelOutcome_proper (hc : c.clientOrderId = cid) (hw : stage w ≤ 4)
    (filled remaining : Nat) (rc avg fee : Option Nat) (target : Option ReconcileTarget)
    (outcome : CancelOutcome) :
    Proper cid w (applyCancelOutcome c v filled remaining rc avg fee target outcome).1 := by
  obtain ⟨hi, hinv⟩ := invalidate_client cid c
  have hopen : Straight cid ((authorityInvalidateEffects c).1 ++
      [.appendFsync (.cancelOutcomeCid (authorityInvalidateEffects c).2.clientOrderId outcome)]) :=
    straight_append.mpr ⟨hinv, by simp [Effect.strays]⟩
  unfold applyCancelOutcome
  dsimp only
  split
  · exact .halted hopen _
  · rename_i gx d hr
    obtain ⟨hd, hgx⟩ := carryResponse_client (hi.trans hc) hopen hr
    have htarget := carryTarget_client hd hgx target
    split
    · rename_i ht
      rw [ht] at htarget
      exact .halted htarget _
    · rename_i ht
      rw [ht] at htarget
      obtain ⟨hd', hgx'⟩ := htarget
      split
      · exact .halted hgx' _
      · rename_i hb
        obtain ⟨hb, hj⟩ := bindVenueId_client cid hb
        exact routeCancelOutcome_proper (hb.trans hd') hw (hgx'.push hj) _ _ _ _

/-! ## Closures, own actions, claims -/

theorem tryCloseSubmission_proper (reason : SubmissionCloseReason) :
    Proper cid w (tryCloseSubmission c reason) := by
  unfold tryCloseSubmission
  split
  · exact .rejected _
  · exact .free (stage_le w) straight_nil rfl rfl

theorem rejectIllegal_proper (s : OrderState) (e : OrderEvent) : Proper cid w (rejectIllegal s e) :=
  .rejected _

theorem ownActionAccept_proper (e : OrderEvent) : Proper cid w (ownActionAccept w c e) := by
  unfold ownActionAccept
  split
  · exact .stays (by simp [Effect.strays])
  · exact .stays (by simp [Effect.strays])
  · exact rejectIllegal_proper _ _

theorem restartSafeHandle_proper (e : OrderEvent) : Proper cid w (restartSafeHandle w c e).1 := by
  have hreserve : ∀ {fx : List Effect}, Straight cid fx → Straight cid (reserveIfReleased w fx) := by
    intro fx hfx
    unfold reserveIfReleased
    split
    · exact straight_append.mpr ⟨hfx, by simp [Effect.strays]⟩
    · exact hfx
  cases e with
  | fill f =>
      have hfill := tryAccountFill_client cid c f
      simp only [restartSafeHandle]
      split
      · exact .stays straight_nil
      all_goals
        rename_i hres
        rw [hres] at hfill
      · exact .halted (hreserve hfill.2) _
      · exact .stays hfill.2
      · exact .halted (hreserve hfill.2) _
  | decreaseObserved => exact .stays straight_nil
  | amendObserved => exact .stays straight_nil
  | _ => exact .rejected _

theorem applyFrozen_proper (e : OrderEvent) : Proper cid w (applyFrozen w c e).1 := by
  unfold applyFrozen
  split
  · exact .stays straight_nil
  · exact tryCloseSubmission_proper _
  · exact restartSafeHandle_proper e

theorem applyUserOrderRestingClaim_proper (hw : stage w ≤ 4) (remaining : Nat) :
    Proper cid w (applyUserOrderRestingClaim w c v remaining).1 := by
  unfold applyUserOrderRestingClaim
  split
  · exact rejectIllegal_proper _ _
  · split
    · exact .halted straight_nil _
    · rename_i hb
      exact .free hw (straight_nil.push (bindVenueId_client cid hb).2) rfl rfl

theorem applyUserOrderTerminalClaim_proper (hc : c.clientOrderId = cid) (hw : stage w ≤ 4)
    (filled : Nat) (executed : Bool) :
    Proper cid w (applyUserOrderTerminalClaim w c v filled executed).1 := by
  unfold applyUserOrderTerminalClaim
  split
  · exact rejectIllegal_proper _ _
  · have hl := noteAuthorityComplete_client cid (c.noteVenueRemaining 0) true
    exact tryFinalizeTerminal_proper (hl.1.trans hc) hw (straight_nil.push hl.2) _ _

/-! ## One event -/

/-- The handler of an order that was sent, or is at rest. -/
theorem applyEvent_proper {o : Order} (ho : OrderCoherent o) (hc : o.ctx.clientOrderId = cid)
    (hs : 2 ≤ stage o.state) (e : OrderEvent) : Proper cid o.state (applyEvent o.state o.ctx e).1 := by
  obtain ⟨w, c⟩ := o
  have hopen : isRestartFrozen w = false → Agrees w c := fun h => (ho.coherent h).agrees
  have hlive : ∀ {v : VenueOrderId}, stage w = 4 → isRestartFrozen w = false →
      Proper cid w (applyLive w v c e).1 := by
    intro v h4 hf
    cases e with
    | userOrderTerminalClaim => exact applyUserOrderTerminalClaim_proper hc h4.le _ _
    | fill f => exact applyFillWhileOpen_proper hc h4.le (hopen hf) f
    | cancelRequested => exact requestCancel_proper h4.le _ _ _
    | decreaseObserved r t => exact ownActionAccept_proper (.decreaseObserved r t)
    | amendObserved => exact ownActionAccept_proper .amendObserved
    | _ => exact rejectIllegal_proper _ _
  cases w with
  | new => simp [stage] at hs
  | submitPrepared => simp [stage] at hs
  | submitStarted a =>
      cases e with
      | submitResponse => exact applySubmitResponse_proper hc (by simp [stage]) _ _ _ _ _
      | submitTimeout =>
          apply Proper.accepted (by simp [stage])
          · simp [Effect.strays, show c.clientOrderId = cid from hc]
          · intro a ha _
            cases ha
            exact ⟨.backfillUnknown c.clientOrderId, by simp, congrArg _ hc⟩
          · simp [isHaltState]
      | fill f => exact applyFillWhileOpen_proper hc (by simp [stage]) (hopen rfl) f
      | closeSubmission reason =>
          cases reason with
          | localNotSent => exact tryCloseSubmission_proper _
          | definiteFailure => exact tryCloseSubmission_proper _
          | exhaustiveAbsent => exact rejectIllegal_proper _ _
      | _ => exact .rejected _
  | submitUnknown =>
      cases e with
      | unknownBackfillResult => exact applyUnknownBackfill_proper hc _ _
      | userOrderRestingClaim => exact applyUserOrderRestingClaim_proper (by simp [stage]) _
      | requestResubmit proven =>
          cases proven with
          | true => exact .rejected _
          | false => exact .halted straight_nil _
      | fill f => exact applyFillDedupOnly_proper f
      | closeSubmission reason =>
          cases reason with
          | exhaustiveAbsent => exact tryCloseSubmission_proper _
          | localNotSent => exact rejectIllegal_proper _ _
          | definiteFailure => exact rejectIllegal_proper _ _
      | _ => exact .rejected _
  | accepted v => exact hlive rfl rfl
  | partialFill v q r => exact hlive rfl rfl
  | cancelPending v q r rc avg fee target =>
      cases e with
      | userOrderTerminalClaim => exact applyUserOrderTerminalClaim_proper hc le_rfl _ _
      | cancelOutcome => exact applyCancelOutcome_proper hc le_rfl _ _ _ _ _ _ _
      | fill f => exact applyFillWhileOpen_proper hc le_rfl (hopen rfl) f
      | reconcileResult => exact applyReconcileResult_proper hc le_rfl _ _ _ _ _ _
      | cancelRequested => exact .stays straight_nil
      | decreaseObserved r t => exact ownActionAccept_proper (.decreaseObserved r t)
      | amendObserved => exact ownActionAccept_proper .amendObserved
      | _ => exact .rejected _
  | reconcilePending v q r target rc avg fee =>
      cases e with
      | userOrderTerminalClaim => exact applyUserOrderTerminalClaim_proper hc le_rfl _ _
      | cancelOutcome => exact .stays straight_nil
      | fill f => exact applyFillWhileOpen_proper hc le_rfl (hopen rfl) f
      | reconcileResult => exact applyReconcileResult_proper hc le_rfl _ _ _ _ _ _
      | cancelRequested => exact .stays straight_nil
      | decreaseObserved r t => exact ownActionAccept_proper (.decreaseObserved r t)
      | amendObserved => exact ownActionAccept_proper .amendObserved
      | _ => exact .rejected _
  | immediateFillUnattributed v rc r avg fee =>
      cases e with
      | immediateFillBackfillResult => exact applyImmediateFillBackfill_proper hc le_rfl rfl _ _ _ _ _
      | fill f => exact applyImmediateFillBackfill_proper hc le_rfl rfl _ _ _ _ _
      | cancelRequested => exact requestCancel_proper le_rfl _ _ _
      | decreaseObserved r t => exact ownActionAccept_proper (.decreaseObserved r t)
      | amendObserved => exact ownActionAccept_proper .amendObserved
      | backfillDeadlineElapsed =>
          exact .haltedInto (by simp [stage]) rfl (by simp [Effect.strays]) _
      | _ => exact .rejected _
  | _ => exact applyFrozen_proper e

end Omsrs.Lifecycle
