import Omsrs.Lifecycle.Lemmas.Intake
import Omsrs.Lifecycle.Lemmas.Steps

/-!
# Evidence delivered twice

After an event that carries evidence the books hold its fills. The same event again finds them there:
it is rejected, or accepted without a change and without money.
-/

namespace Omsrs.Lifecycle
open Omsrs.Lib

variable {s s' : OrderState} {c d : OrderCtx} {v : VenueOrderId} {fx gx : List Effect}
  {f : FillRecord} {fills : List FillRecord}

/-! ## Booked fills -/

/-- The books have the fill as the record says. -/
def InBooks (c : OrderCtx) (f : FillRecord) : Prop :=
  ∃ p, c.appliedFills.get? f.fillId = some p ∧ Carries p f

theorem InBooks.congr (h : InBooks c f) (hf : d.appliedFills.get? f.fillId = c.appliedFills.get? f.fillId) :
    InBooks d f := by
  obtain ⟨p, hp, hc⟩ := h
  exact ⟨p, hf.trans hp, hc⟩

/-- What takes in nothing keeps the fill as it is. -/
theorem InBooks.takes (h : InBooks c f) (ht : TakesIn (fun _ => False) c d) : InBooks d f := by
  rcases ht.fills f.fillId with heq | ⟨_, _, hfalse, _⟩
  · exact h.congr heq
  · exact hfalse.elim

theorem redeliverFill_carried {prev : FillPayload} (h : Carries prev f) :
    redeliverFill c prev f = (.noOp, c) := by
  have hvenue : upgradeVenue c prev f = .ok (f.venueOrderId, false) := by
    unfold upgradeVenue
    rw [h.venue]
    cases f.venueOrderId with
    | none => rfl
    | some w => simp
  have hfee : upgradeFee c prev f = .ok (f.feeCents, false, [], c) := by
    unfold upgradeFee
    rw [h.fee]
    cases f.feeCents with
    | none => rfl
    | some n => simp
  unfold redeliverFill
  split
  · rfl
  · rename_i hne
    have hts : prev.tsNs ≠ f.tsNs := by
      intro heq
      obtain ⟨hq, hp, hf, hv⟩ := h
      cases prev
      simp_all [FillRecord.payload]
    simp [h.qty, h.price, hvenue, hfee, hts, h.fee, h.venue]

theorem tryAccountFill_held (h : InBooks c f) : tryAccountFill c f = (.noOp, c) := by
  obtain ⟨p, hp, hc⟩ := h
  simp only [tryAccountFill, accountFillCore, firstSightingMismatch_of_known hp, hp]
  exact redeliverFill_carried hc

/-- A repeated fill is ignored only when the books have it. -/
theorem redeliverFill_ignored {prev : FillPayload} (h : redeliverFill c prev f = (.noOp, d)) :
    Carries prev f := by
  unfold redeliverFill at h
  split at h
  · rename_i heq
    subst heq
    exact ⟨rfl, rfl, rfl, rfl⟩
  · split at h
    · cases h
    · rename_i hsame
      simp only [not_or, not_not] at hsame
      split at h
      · cases h
      · split at h
        · cases h
        · split at h
          · split at h
            · rename_i hts
              exact ⟨hsame.1, hsame.2, hts.2.1, hts.2.2⟩
            · cases h
          · cases h

/-- A fill that did not halt is in the books. -/
theorem tryAccountFill_inBooks {a : AccountAttempt} (h : tryAccountFill c f = (a, d))
    (ha : ∀ reason fx, a ≠ .halt reason fx) : InBooks d f := by
  have hacc := tryAccountFill_accounting c f
  rw [h] at hacc
  cases hacc with
  | ignored =>
      simp only [tryAccountFill, accountFillCore] at h
      split at h
      · cases h
      · split at h
        · rename_i prev hprev
          exact ⟨prev, hprev, redeliverFill_ignored h⟩
        · rename_i hnone
          rcases bookFill_cases ‹_› hnone with ⟨_, reason, he⟩ | ⟨_, he⟩
          · rw [he] at h
            cases h
          · rw [he] at h
            split at h <;> cases h
  | refused reason => exact absurd rfl (ha reason [])
  | completed prev hc =>
      exact ⟨_, OrdMap.get?_insert_self _ _ _, hc.qty, hc.price, rfl, rfl⟩
  | booked hb _ =>
      have hget : (bookedCtx c f).appliedFills.get? f.fillId = some f.payload := by
        rw [(bookedCtx_books c f).1]
        exact OrdMap.get?_insert_self _ _ _
      exact ⟨f.payload, hget, rfl, rfl, rfl, rfl⟩
  | overfilled _ _ => exact absurd rfl (ha _ _)

/-- A loop over fills with distinct ids that does not halt leaves all of them in the books. -/
theorem accountFills_hold {refuse : FillRecord → Option HaltReason}
    (hn : (fills.map (·.fillId)).Nodup) (h : accountFills refuse c fx fills = .ok (gx, d)) :
    ∀ f ∈ fills, InBooks d f ∧ refuse f = none := by
  induction fills generalizing c fx with
  | nil => nofun
  | cons g fills ih =>
      rw [List.map_cons, List.nodup_cons] at hn
      -- the head is in the books after its own turn, and the rest have other ids
      have head : ∀ {a : AccountAttempt} {c' : OrderCtx} {hx : List Effect}, refuse g = none →
          tryAccountFill c g = (a, c') → (∀ reason fx, a ≠ .halt reason fx) →
          accountFills refuse c' hx fills = .ok (gx, d) →
          ∀ f ∈ g :: fills, InBooks d f ∧ refuse f = none := by
        intro a c' hx hr hg ha hrest f hf
        rcases List.mem_cons.mp hf with rfl | hf
        · have htakes := takes_accountFills (F := (· ∈ fills)) refuse (fun _ h => h) c' hx
          rw [hrest] at htakes
          rcases htakes.fills f.fillId with heq | ⟨g, _, hg, hid, _⟩
          · exact ⟨(tryAccountFill_inBooks hg ha).congr heq, hr⟩
          · exact absurd (List.mem_map.mpr ⟨g, hg, hid⟩) hn.1
        · exact ih hn.2 hrest f hf
      simp only [accountFills] at h
      split at h
      · cases h
      · rename_i hr
        split at h
        · exact head hr ‹_› (by simp) h
        · exact head hr ‹_› (by simp) h
        · exact head hr ‹_› (by simp) h
        · cases h

/-- A loop over fills that are in the books does nothing. -/
theorem accountFills_held {refuse : FillRecord → Option HaltReason}
    (h : ∀ f ∈ fills, InBooks c f ∧ refuse f = none) (fx : List Effect) :
    accountFills refuse c fx fills = .ok (fx, c) := by
  induction fills with
  | nil => rfl
  | cons f fills ih =>
      obtain ⟨hheld, hr⟩ := h f List.mem_cons_self
      simp only [accountFills, hr, tryAccountFill_held hheld]
      exact ih fun g hg => h g (List.mem_cons_of_mem _ hg)

/-! ## Where routes lead -/

/-- The states that a verdict on what is booked leads to. -/
def isRouted : OrderState → Bool
  | .accepted _ | .partialFill .. | .reconcilePending .. | .filled | .canceled | .terminal => true
  | _ => false

/-- The state waits for the fills that its create response has counted. -/
def awaitsFills : OrderState → Bool
  | .immediateFillUnattributed .. => true
  | _ => false

theorem awaitsFills_of_routed (h : isRouted s = true) : awaitsFills s = false := by
  cases s <;> first | rfl | cases h

/-- The outcome halts or leads to a routed state. -/
inductive Routed : TransitionOutcome → Prop
  | halted (reason : HaltReason) (fx : List Effect) : Routed (haltWithReason reason fx)
  | accepted {s : OrderState} (hs : isRouted s = true) (fx : List Effect) : Routed (accept s fx)

theorem Routed.state {o : TransitionOutcome} (h : Routed o) (he : o = .accept s fx) :
    isRouted s = true := by
  cases h with
  | halted reason fx => cases he
  | accepted hs fx =>
      cases he
      exact hs

theorem notReadyForTerminal_routed (fallback : ReconcileTerminal) (request : Bool)
    (remaining : Option Nat) : Routed (notReadyForTerminal c v fx fallback request remaining) :=
  .accepted rfl _

theorem releaseTerminal_routed (proposed : ProposedTerminal) : Routed (releaseTerminal c proposed fx) :=
  .accepted (by cases proposed <;> rfl) _

theorem tryFinalizeTerminal_routed (proposed : ProposedTerminal) (fallback : ReconcileTerminal) :
    Routed (tryFinalizeTerminal c proposed v fx fallback) := by
  unfold tryFinalizeTerminal
  split
  · exact .halted _ _
  · exact notReadyForTerminal_routed _ _ _
  · split
    · unfold finalizeFilled
      split
      · exact .halted _ _
      · split
        · exact .halted _ _
        · split
          · split
            · exact .halted _ _
            · exact notReadyForTerminal_routed _ _ _
          · exact releaseTerminal_routed _
    · exact releaseTerminal_routed _

theorem routeLiveOrFilled_routed : Routed (routeLiveOrFilled c v fx).1 := by
  unfold routeLiveOrFilled
  split
  · exact .halted _ _
  · split
    · exact tryFinalizeTerminal_routed _ _
    · split
      · exact .accepted rfl _
      · exact .accepted rfl _

theorem finalizeReconcileTarget_routed (target : ReconcileTarget) :
    Routed (finalizeReconcileTarget c target fx v) := by
  unfold finalizeReconcileTarget
  split <;> exact tryFinalizeTerminal_routed _ _

theorem afterFillTarget_routed (target : ReconcileTarget) (remaining : Nat) :
    Routed (afterFillTarget c v target fx remaining).1 := by
  unfold afterFillTarget
  split
  · exact .halted _ _
  · dsimp only
    split
    · split
      · exact notReadyForTerminal_routed _ _ _
      · exact .halted _ _
    · split
      · exact finalizeReconcileTarget_routed _
      · exact .accepted rfl _

/-- A pending cancel is the only other state that a fill leads to. -/
theorem afterFillCancelOrReconcile_awaits {target : Option ReconcileTarget} {last : Nat} {enriched : Bool}
    (h : afterFillCancelOrReconcile c v target fx last enriched = (.accept s gx, d)) :
    awaitsFills s = false := by
  unfold afterFillCancelOrReconcile at h
  split at h
  · cases h
  · split at h
    · exact awaitsFills_of_routed ((afterFillTarget_routed _ _).state (congrArg Prod.fst h))
    · split at h
      · exact awaitsFills_of_routed ((tryFinalizeTerminal_routed _ _).state (congrArg Prod.fst h))
      · cases h
        rfl

/-! ## Inert events -/

/-- The effects that book money or change the reservation. -/
def Effect.movesMoney : Effect → Bool
  | .accountFill .. | .accountFeeCorrection .. | .releaseReservation | .reserveFull => true
  | _ => false

def Quiet (fx : List Effect) : Prop := ∀ g ∈ fx, g.movesMoney = false

/-- The event is rejected, or it is accepted, changes nothing and moves no money. -/
def Inert (s : OrderState) (c : OrderCtx) (e : OrderEvent) : Prop :=
  (∃ reason d, applyEvent s c e = (.reject reason, d)) ∨
    ∃ fx, applyEvent s c e = (.accept s fx, c) ∧ Quiet fx

theorem Inert.rejected {e : OrderEvent} {reason : RejectReason}
    (h : applyEvent s c e = (.reject reason, d)) : Inert s c e := .inl ⟨reason, d, h⟩

theorem Inert.ignored {e : OrderEvent} (h : applyEvent s c e = (.accept s [], c)) : Inert s c e :=
  .inr ⟨[], h, nofun⟩

/-! ## Fills -/

/-- A state that does not wait for its response's fills takes a booked fill in without a trace. -/
theorem fill_inert (h : InBooks c f) (hs : awaitsFills s = false) : Inert s c (.fill f) := by
  have hopen : applyFillWhileOpen s c f = (.accept s [], c) := by
    simp only [applyFillWhileOpen, tryAccountFill_held h, accept]
  have hfrozen : restartSafeHandle s c (.fill f) = (.accept s [], c) := by
    simp only [restartSafeHandle, tryAccountFill_held h, accept]
  cases s with
  | new | submitPrepared => exact .rejected rfl
  | submitStarted _ | accepted _ | partialFill _ _ _ | cancelPending _ _ _ _ _ _ _
  | reconcilePending _ _ _ _ _ _ _ => exact .ignored hopen
  | submitUnknown =>
      refine .ignored ?_
      simp only [applyEvent, applySubmitUnknown, applyFillDedupOnly, tryAccountFill_held h, accept]
  | filled | canceled | terminal | immediateFillUnresolved | unknownNoMatch | halted _
  | submissionClosed _ => exact .ignored hfrozen
  | immediateFillUnattributed _ _ _ _ _ => cases hs

theorem afterFillCancelOrReconcile_taken {target : Option ReconcileTarget} {last : Nat} {enriched : Bool}
    (hc : InBooks c f) (h : afterFillCancelOrReconcile c v target fx last enriched = (.accept s gx, d)) :
    InBooks d f ∧ awaitsFills s = false := by
  have htakes : TakesIn (fun _ => False) c (afterFillCancelOrReconcile c v target fx last enriched).2 :=
    afterFillCancelOrReconcile_takes
  rw [h] at htakes
  exact ⟨hc.takes htakes, afterFillCancelOrReconcile_awaits h⟩

theorem routeLiveOrFilled_taken (hc : InBooks c f) (h : routeLiveOrFilled c v fx = (.accept s gx, d)) :
    InBooks d f ∧ awaitsFills s = false := by
  have htakes : TakesIn (fun _ => False) c (routeLiveOrFilled c v fx).2 := routeLiveOrFilled_takes
  rw [h] at htakes
  exact ⟨hc.takes htakes,
    awaitsFills_of_routed (routeLiveOrFilled_routed.state (congrArg Prod.fst h))⟩

/-- An accepted fill is in the books, in a state that does not wait for fills. -/
theorem applyFillWhileOpen_taken (hs : awaitsFills s = false)
    (h : applyFillWhileOpen s c f = (.accept s' gx, d)) : InBooks d f ∧ awaitsFills s' = false := by
  unfold applyFillWhileOpen at h
  split at h
  · cases h
    exact ⟨tryAccountFill_inBooks ‹_› (by simp), hs⟩
  · cases h
  · have hc := tryAccountFill_inBooks ‹tryAccountFill c f = _› (by simp)
    split at h
    · exact afterFillCancelOrReconcile_taken hc h
    · exact afterFillCancelOrReconcile_taken hc h
    · cases h
      exact ⟨hc, hs⟩
  · have hc := tryAccountFill_inBooks ‹tryAccountFill c f = _› (by simp)
    split at h
    · cases h
      exact ⟨hc, hs⟩
    · exact afterFillCancelOrReconcile_taken hc h
    · exact afterFillCancelOrReconcile_taken hc h
    · exact routeLiveOrFilled_taken hc h

theorem applyFillDedupOnly_taken (h : applyFillDedupOnly c f s = (.accept s' gx, d)) :
    InBooks d f ∧ s' = s := by
  unfold applyFillDedupOnly at h
  split at h
  · cases h
    exact ⟨tryAccountFill_inBooks ‹_› (by simp), rfl⟩
  · cases h
  · cases h
    exact ⟨tryAccountFill_inBooks ‹_› (by simp), rfl⟩
  · cases h
    exact ⟨tryAccountFill_inBooks ‹_› (by simp), rfl⟩

theorem restartSafeHandle_taken (h : restartSafeHandle s c (.fill f) = (.accept s' gx, d)) :
    InBooks d f ∧ s' = s := by
  simp only [restartSafeHandle] at h
  split at h
  · cases h
    exact ⟨tryAccountFill_inBooks ‹_› (by simp), rfl⟩
  · cases h
  · cases h
    exact ⟨tryAccountFill_inBooks ‹_› (by simp), rfl⟩
  · cases h

theorem fill_taken (hs : awaitsFills s = false) (h : applyEvent s c (.fill f) = (.accept s' gx, d)) :
    InBooks d f ∧ awaitsFills s' = false := by
  have dedup : InBooks d f ∧ s' = s → InBooks d f ∧ awaitsFills s' = false := by
    rintro ⟨hd, rfl⟩
    exact ⟨hd, hs⟩
  cases s with
  | new | submitPrepared => cases h
  | submitStarted _ | accepted _ | partialFill _ _ _ | cancelPending _ _ _ _ _ _ _
  | reconcilePending _ _ _ _ _ _ _ => exact applyFillWhileOpen_taken hs h
  | submitUnknown => exact dedup (applyFillDedupOnly_taken h)
  | filled | canceled | terminal | immediateFillUnresolved | unknownNoMatch | halted _
  | submissionClosed _ => exact dedup (restartSafeHandle_taken h)
  | immediateFillUnattributed _ _ _ _ _ => cases hs

/-! ## Backfills of the create response -/

variable {count remaining : Nat} {avg fee : Option Nat}

/-- An accepted backfill is in the books, and the order waits for more, or goes on. -/
theorem immediateFill_taken (hn : (fills.map (·.fillId)).Nodup)
    (h : applyImmediateFillBackfill c v count remaining avg fee fills = (.accept s gx, d)) :
    (∀ f ∈ fills, InBooks d f) ∧ (awaitsFills s = false ∨
      s = .immediateFillUnattributed v count remaining avg fee ∧ d.venueOrderId = some v ∧
        checkUnattributed d count remaining avg fee = .wait) := by
  unfold applyImmediateFillBackfill at h
  split at h
  · cases h
  · rename_i jr bound hb
    split at h
    · cases h
    · rename_i hx e ha
      have hheld := accountFills_hold hn ha
      obtain ⟨_, _, hdrained⟩ := accountFills_drained (P := .any) (fun _ => none) bound
        (pushJournal [] jr) fills fun _ _ => trivial
      rw [ha] at hdrained
      have hv : e.venueOrderId = some v := (Moves.kept hdrained.trail).venue v (bindVenueId_bound hb)
      unfold resolveUnattributed at h
      split at h
      · rename_i hwait
        cases h
        exact ⟨fun f hf => (hheld f hf).1, .inr ⟨rfl, hv, hwait⟩⟩
      · cases h
      · have hresponse : ∀ f ∈ fills, InBooks { e with
            responseAvgPriceCents := e.responseAvgPriceCents.or avg
            responseFeeCents := e.responseFeeCents.or fee } f := fun f hf => (hheld f hf).1
        refine ⟨fun f hf => (routeLiveOrFilled_taken (hresponse f hf) h).1, .inl ?_⟩
        exact awaitsFills_of_routed (routeLiveOrFilled_routed.state (congrArg Prod.fst h))

theorem immediateFill_again (hf : ∀ f ∈ fills, InBooks c f) (hv : c.venueOrderId = some v)
    (hw : checkUnattributed c count remaining avg fee = .wait) :
    applyImmediateFillBackfill c v count remaining avg fee fills =
      (.accept (.immediateFillUnattributed v count remaining avg fee) [], c) := by
  simp only [applyImmediateFillBackfill, bindVenueId_same hv, pushJournal,
    accountFills_held fun f h => ⟨hf f h, rfl⟩, resolveUnattributed, hw, accept]

/-- Only a state that waits for fills takes a backfill of them. -/
theorem immediateFill_rejected (hs : awaitsFills s = false) :
    Inert s c (.immediateFillBackfillResult fills) := by
  cases s with
  | immediateFillUnattributed _ _ _ _ _ => cases hs
  | _ => exact .rejected rfl

theorem fillBackfill_inert (hn : (fills.map (·.fillId)).Nodup)
    (h : applyImmediateFillBackfill c v count remaining avg fee fills = (.accept s gx, d)) :
    Inert s d (.immediateFillBackfillResult fills) ∧ (∀ f, fills = [f] → Inert s d (.fill f)) := by
  obtain ⟨hheld, hs | ⟨rfl, hv, hw⟩⟩ := immediateFill_taken hn h
  · refine ⟨immediateFill_rejected hs, ?_⟩
    rintro f rfl
    exact fill_inert (hheld f (by simp)) hs
  · have hagain := immediateFill_again hheld hv hw
    refine ⟨.ignored hagain, ?_⟩
    rintro f rfl
    exact .ignored hagain

/-! ## Backfills of an unknown submission -/

theorem Routed.prepend {o : TransitionOutcome} (h : Routed o) (fx : List Effect) :
    Routed (o.prependEffects fx) := by
  cases h with
  | halted reason gx =>
      simp only [haltWithReason, TransitionOutcome.prependEffects, ← List.append_assoc]
      exact .halted reason _
  | accepted hs gx => exact .accepted hs _

theorem continueReconcilePending_routed {filled : Nat} {fromUnknown complete : Bool}
    (hu : (fromUnknown && !complete) = false) :
    Routed (continueReconcilePending c v filled fx fromUnknown complete none) := by
  unfold continueReconcilePending
  simp only [hu, Bool.false_eq_true, if_false]
  split
  · exact .accepted rfl _
  · exact .accepted rfl _

theorem routeStatus_routed (status : BackfillOrderStatus) {filled left memberFilled capacity : Nat}
    {fromUnknown complete : Bool} (hu : (fromUnknown && !complete) = false) :
    Routed (routeStatus c v status filled left memberFilled capacity fx complete fromUnknown) := by
  unfold routeStatus stayUnknown
  simp only [hu, Bool.false_eq_true, if_false]
  split
  · exact tryFinalizeTerminal_routed _ _
  · exact tryFinalizeTerminal_routed _ _
  all_goals
    split
    · exact continueReconcilePending_routed hu
    · split
      · exact .halted _ _
      · split
        · exact .halted _ _
        · split
          · exact .accepted rfl _
          · exact .accepted rfl _

theorem routeFromBackfillStatus_routed (status : BackfillOrderStatus) {filled left others : Nat}
    {fromUnknown complete : Bool} (hu : (fromUnknown && !complete) = false) :
    Routed (routeFromBackfillStatus c v status filled left others fills complete fromUnknown).1 := by
  unfold routeFromBackfillStatus
  split
  · exact .halted _ _
  · split
    · exact .halted _ _
    · dsimp only
      split
      · exact .halted _ _
      · unfold routeBackfillFills
        split
        · exact .halted _ _
        · dsimp only
          split
          · exact .halted _ _
          · exact routeStatus_routed status hu

theorem applyUniqueBackfill_routed (r : BackfillOrderRecord) : Routed (applyUniqueBackfill c r).1 := by
  unfold applyUniqueBackfill
  split
  · exact .halted _ _
  · split
    · exact .halted _ _
    · dsimp only
      split
      · exact .halted _ _
      · unfold bookUniqueBackfill
        split
        · exact .halted _ _
        · exact (routeFromBackfillStatus_routed _ rfl).prepend _

/-- A routed order has no unknown submission any more. -/
theorem unknownBackfill_rejected (hs : isRouted s = true) {exhaustive : Bool}
    {matched : List BackfillOrderRecord} : Inert s c (.unknownBackfillResult exhaustive matched) := by
  cases s <;> first | exact .rejected rfl | cases hs

theorem unknownBackfill_inert {exhaustive : Bool} {matched : List BackfillOrderRecord}
    (h : applyUnknownBackfill c exhaustive matched = (.accept s gx, d)) :
    Inert s d (.unknownBackfillResult exhaustive matched) := by
  have unchanged : s = .submitUnknown → d = c → Quiet gx →
      Inert s d (.unknownBackfillResult exhaustive matched) := by
    rintro rfl rfl hq
    exact .inr ⟨gx, h, hq⟩
  match matched, h with
  | [], h =>
      cases exhaustive with
      | true => cases h
      | false =>
          cases h
          exact unchanged rfl rfl (by simp [Quiet, Effect.movesMoney])
  | [r], h =>
      have hcases := h
      simp only [applyUnknownBackfill] at hcases
      split at hcases
      · cases hcases
      · split at hcases
        · have hquiet : Quiet gx := by
            cases hcases
            split <;> simp [Quiet, Effect.movesMoney]
          cases hcases
          exact unchanged rfl rfl hquiet
        · exact unknownBackfill_rejected
            ((applyUniqueBackfill_routed r).state (congrArg Prod.fst hcases))
  | _ :: _ :: _, h => cases h

/-! ## Reconciliations -/

theorem idle_movesMoney {g : Effect} (h : g.isIdle = true) : g.movesMoney = false := by
  cases g <;> first | rfl | cases h

theorem Quiet.append {hx : List Effect} (h : Quiet fx) (h' : Quiet hx) : Quiet (fx ++ hx) := by
  intro g hg
  rcases List.mem_append.mp hg with hg | hg
  · exact h g hg
  · exact h' g hg

theorem Quiet.push (h : Quiet fx) (jr : Option JournalRecord) : Quiet (pushJournal fx jr) := by
  cases jr with
  | none => exact h
  | some r => exact h.append (by simp [Quiet, Effect.movesMoney])

/-- The state waits for a reconciliation of a venue order. -/
def AwaitsAt (v : VenueOrderId) (s : OrderState) : Prop :=
  ∃ filled left target rc avg fee, s = .reconcilePending v filled left target rc avg fee

variable {hx : List Effect}

theorem notReadyForTerminal_again {fallback : ReconcileTerminal} {request : Bool} {left : Option Nat}
    (h : notReadyForTerminal c v fx fallback request left = .accept s gx) (hq : Quiet hx) :
    AwaitsAt v s ∧ ∃ ix, notReadyForTerminal c v hx fallback request left = .accept s ix ∧ Quiet ix := by
  obtain ⟨_, -, he⟩ := notReadyForTerminal_eq c v fx fallback request left
  obtain ⟨ix, hix, he'⟩ := notReadyForTerminal_eq c v hx fallback request left
  rw [he] at h
  cases h
  exact ⟨⟨_, _, _, _, _, _, rfl⟩, _, he', hq.append fun g hg => idle_movesMoney (hix g hg)⟩

/-- A terminal that is not reached now is not reached the second time. -/
theorem tryFinalizeTerminal_again {proposed : ProposedTerminal} {fallback : ReconcileTerminal}
    (h : tryFinalizeTerminal c proposed v fx fallback = .accept s gx) (hs : awaitsReconcile s = true)
    (hq : Quiet hx) : AwaitsAt v s ∧
      ∃ ix, tryFinalizeTerminal c proposed v hx fallback = .accept s ix ∧ Quiet ix := by
  have hrelease : releaseTerminal c proposed fx ≠ .accept s gx := by
    intro he
    cases he
    cases proposed <;> cases hs
  unfold tryFinalizeTerminal at h ⊢
  cases hg : finalizeGate c with
  | some failure =>
      cases failure with
      | halt reason => rw [hg] at h; cases h
      | notReady backfill request =>
          rw [hg] at h
          refine notReadyForTerminal_again h ?_
          split
          · exact hq.append (by simp [Quiet, Effect.movesMoney])
          · exact hq
  | none =>
      rw [hg] at h
      cases proposed with
      | filled filled left =>
          dsimp only at h ⊢
          unfold finalizeFilled at h ⊢
          split at h
          · cases h
          · rename_i hover
            rw [if_neg hover]
            split at h
            · cases h
            · split at h
              · rename_i hopen
                split at h
                · cases h
                · rename_i hroom
                  simp only [if_pos hopen, if_neg hroom]
                  exact notReadyForTerminal_again h hq
              · exact absurd h hrelease
      | canceled => exact absurd h hrelease
      | terminal => exact absurd h hrelease

theorem routeStatus_again {status : BackfillOrderStatus} {filled left memberFilled capacity : Nat}
    {complete : Bool}
    (h : routeStatus c v status filled left memberFilled capacity fx complete false = .accept s gx)
    (hs : awaitsReconcile s = true) (hq : Quiet hx) :
    AwaitsAt v s ∧
      ∃ ix, routeStatus c v status filled left memberFilled capacity hx complete false = .accept s ix ∧
        Quiet ix := by
  have hlive : ∀ fx, continueReconcilePending c v memberFilled fx false complete none ≠ .accept s gx := by
    intro fx he
    unfold continueReconcilePending at he
    simp only [Bool.false_and, Bool.false_eq_true, if_false] at he
    split at he <;> cases he <;> cases hs
  unfold routeStatus stayUnknown at h ⊢
  simp only [Bool.false_and, Bool.false_eq_true, if_false] at h ⊢
  cases status with
  | canceled => exact tryFinalizeTerminal_again h hs hq
  | filled => exact tryFinalizeTerminal_again h hs hq
  | openOrder | partialFill =>
      dsimp only at h
      split at h
      · exact absurd h (hlive _)
      · split at h
        · cases h
        · split at h
          · cases h
          · split at h <;> cases h <;> cases hs

theorem latch_again (c : OrderCtx) (complete : Bool) :
    (noteAuthorityComplete (noteAuthorityComplete c complete).2 complete).2 =
      (noteAuthorityComplete c complete).2 := by
  cases complete <;> rfl

/-- The second half of a row that leaves the order waiting, once more after it. -/
theorem routeBackfillFills_again {status : BackfillOrderStatus} {filled left capacity : Nat}
    {complete : Bool} (hn : (fills.map (·.fillId)).Nodup)
    (h : routeBackfillFills c v status filled left 0 filled capacity fx fills complete false =
      (.accept s gx, d)) (hs : awaitsReconcile s = true) (hq : Quiet hx) :
    (∃ e ix, accountFills (fun _ => none) c fx fills = .ok (ix, e) ∧
      d = (noteAuthorityComplete e complete).2) ∧ AwaitsAt v s ∧
      ∃ jx, routeBackfillFills d v status filled left 0 filled capacity hx fills complete false =
        (.accept s jx, d) ∧ Quiet jx := by
  unfold routeBackfillFills at h
  split at h
  · cases h
  · rename_i ix e ha
    dsimp only at h
    split at h
    · cases h
    · rename_i hcovered
      obtain ⟨hroute, rfl⟩ := Prod.mk.inj h
      have hbooks : ∀ f ∈ fills, InBooks (noteAuthorityComplete e complete).2 f := by
        intro f hf
        have htakes : TakesIn (fun _ => False) e (noteAuthorityComplete e complete).2 :=
          (noteAuthorityComplete_same_books e complete).takes
        exact (accountFills_hold hn ha f hf).1.takes htakes
      have hrecords : Quiet (if complete then
          pushJournal hx (noteAuthorityComplete (noteAuthorityComplete e complete).2 complete).1 ++
            [observedEffect (noteAuthorityComplete e complete).2 v filled left 0 true]
        else pushJournal hx (noteAuthorityComplete (noteAuthorityComplete e complete).2 complete).1) := by
        split
        · exact (hq.push _).append (by simp [Quiet, Effect.movesMoney, observedEffect])
        · exact hq.push _
      obtain ⟨hv, jx, hj, hquiet⟩ := routeStatus_again hroute hs hrecords
      refine ⟨⟨e, ix, ha, rfl⟩, hv, jx, ?_, hquiet⟩
      unfold routeBackfillFills
      rw [accountFills_held fun f hf => ⟨hbooks f hf, rfl⟩]
      dsimp only
      rw [latch_again, if_neg hcovered]
      exact congrArg (·, _) hj

/-- Evidence that is covered already raises nothing. -/
theorem noteFillEvidence_covered {n : Nat} (h : n ≤ c.fillObligation) (hq : n ≤ c.qty) :
    noteFillEvidence c n = .ok (none, c) := by
  have hraise : c.raiseFillObligation n = .ok c := by
    unfold OrderCtx.raiseFillObligation
    rw [if_neg (by omega), if_neg (by omega)]
  simp [noteFillEvidence, hraise]

/-- What a row has left in the context for the next one. -/
structure Taken (c : OrderCtx) (v : VenueOrderId) (filled left : Nat) : Prop where
  venue : c.venueOrderId = some v
  remaining : c.lastVenueRemainingQty = some left
  covered : filled ≤ c.fillObligation
  bounded : filled ≤ c.qty

theorem noteFillEvidence_taken {filled left : Nat} {jr : Option JournalRecord}
    (hv : c.venueOrderId = some v) (h : noteFillEvidence (c.noteVenueRemaining left) filled = .ok (jr, d)) :
    Taken d v filled left ∧ d.qty = c.qty := by
  obtain ⟨hq, ⟨hle, -, rfl⟩ | ⟨-, -, rfl⟩⟩ := noteFillEvidence_ok h
  · exact ⟨⟨hv, rfl, hle, hq⟩, rfl⟩
  · unfold raisedCtx
    split <;> exact ⟨⟨hv, rfl, le_rfl, hq⟩, rfl⟩

theorem Taken.booked {filled left : Nat} (h : Taken c v filled left)
    (ha : accountFills (fun _ => none) c fx fills = .ok (gx, d)) :
    Taken d v filled left ∧ d.qty = c.qty := by
  obtain ⟨_, _, hdrained⟩ := accountFills_drained (P := .any) (fun _ => none) c fx fills
    fun _ _ => trivial
  have hlast := accountFills_remaining (fun _ => none) c fx fills
  rw [ha] at hdrained hlast
  have hk := Moves.kept hdrained.trail
  exact ⟨⟨hk.venue v h.venue, hlast.trans h.remaining, h.covered.trans hk.obligation,
    h.bounded.trans_eq hk.qty.symm⟩, hk.qty⟩

theorem Taken.latch {filled left : Nat} (h : Taken c v filled left) (complete : Bool) :
    Taken (noteAuthorityComplete c complete).2 v filled left := by
  cases complete <;> exact ⟨h.venue, h.remaining, h.covered, h.bounded⟩

/-- A row that left the order waiting finds all that it brings. -/
theorem routeFromBackfillStatus_again {status : BackfillOrderStatus} {filled left : Nat} {complete : Bool}
    (hn : (fills.map (·.fillId)).Nodup)
    (h : routeFromBackfillStatus c v status filled left 0 fills complete false = (.accept s gx, d))
    (hs : awaitsReconcile s = true) :
    d.venueOrderId = some v ∧ AwaitsAt v s ∧
      ∃ ix, routeFromBackfillStatus d v status filled left 0 fills complete false = (.accept s ix, d) ∧
        Quiet ix := by
  unfold routeFromBackfillStatus at h
  rw [backfillMemberQuantities_zero] at h
  dsimp only at h
  split at h
  · cases h
  · rename_i jr bound hb
    split at h
    · cases h
    · rename_i jr' e hnote
      obtain ⟨he, heq⟩ := noteFillEvidence_taken (bindVenueId_bound hb) hnote
      have hqty : e.qty = c.qty := by
        rw [heq]
        rcases bindVenueId_ok hb with ⟨_, _, rfl⟩ | ⟨_, _, _, rfl⟩ <;> rfl
      have hquiet : Quiet [observedEffect d v filled left 0 false] := by
        simp [Quiet, Effect.movesMoney, observedEffect]
      obtain ⟨⟨e', ix, ha, rfl⟩, hv, jx, hroute, hj⟩ := routeBackfillFills_again hn h hs hquiet
      obtain ⟨he', heq'⟩ := he.booked ha
      have hd := he'.latch complete
      have hdqty : (noteAuthorityComplete e' complete).2.qty = c.qty := by
        rw [← hqty, ← heq']
        cases complete <;> rfl
      have hremaining : (noteAuthorityComplete e' complete).2.noteVenueRemaining left =
          (noteAuthorityComplete e' complete).2 := by
        have hlast := hd.remaining
        unfold OrderCtx.noteVenueRemaining
        rw [← hlast]
      refine ⟨hd.venue, hv, jx, ?_, hj⟩
      unfold routeFromBackfillStatus
      rw [backfillMemberQuantities_zero, bindVenueId_same hd.venue, hdqty]
      dsimp only
      rw [hremaining, noteFillEvidence_covered hd.covered hd.bounded]
      exact hroute

/-- Only an order that awaits a reconciliation takes one. -/
theorem reconcile_rejected (hs : awaitsReconcile s = false) {status : BackfillOrderStatus}
    {ev : Option VenueOrderId} {filled left : Nat} {complete : Bool} :
    Inert s c (.reconcileResult status ev filled left fills complete) := by
  cases s <;> first | exact .rejected rfl | cases hs

theorem reconcile_inert {status : BackfillOrderStatus} {ev : Option VenueOrderId} {filled left : Nat}
    {complete : Bool} (hn : (fills.map (·.fillId)).Nodup)
    (h : applyReconcileResult c v status ev filled left fills complete = (.accept s gx, d)) :
    Inert s d (.reconcileResult status ev filled left fills complete) := by
  cases hs : awaitsReconcile s with
  | false => exact reconcile_rejected hs
  | true =>
      unfold applyReconcileResult at h
      split at h
      · cases h
      · rename_i w jr e hresolve
        have hev : ev = none ∨ ev = some w := by
          unfold resolveReconcileVenue at hresolve
          split at hresolve
          · cases hresolve
          · split at hresolve
            · exact .inl rfl
            · split at hresolve <;> cases hresolve
              · exact .inr rfl
              · exact .inr rfl
        dsimp only at h
        obtain ⟨hout, rfl⟩ := Prod.mk.inj h
        have hroute : ∃ fx, routeFromBackfillStatus e w status filled left 0 fills complete false =
            (.accept s fx, (routeFromBackfillStatus e w status filled left 0 fills complete false).2) := by
          rcases hr : routeFromBackfillStatus e w status filled left 0 fills complete false with ⟨o, d⟩
          rw [hr] at hout
          cases o with
          | accept s' fx =>
              cases hout
              exact ⟨fx, rfl⟩
          | reject _ => cases hout
          | halt _ _ _ => cases hout
        obtain ⟨fx, hroute⟩ := hroute
        obtain ⟨hv, ⟨q, r, t, rc, avg, fee, rfl⟩, ix, hagain, hquiet⟩ :=
          routeFromBackfillStatus_again hn hroute hs
        generalize (routeFromBackfillStatus e w status filled left 0 fills complete false).2 = d at *
        have hresolved : resolveReconcileVenue d w ev = .ok (w, none, d) := by
          unfold resolveReconcileVenue
          rw [bindVenueId_same hv]
          rcases hev with rfl | rfl
          · rfl
          · dsimp only
            rw [bindVenueId_same hv]
        refine .inr ⟨ix, ?_, hquiet⟩
        show applyReconcileResult d w status ev filled left fills complete = _
        unfold applyReconcileResult
        rw [hresolved]
        dsimp only
        rw [hagain]
        rfl

/-! ## Redelivery -/

/-- The events that carry fill records. -/
def OrderEvent.isEvidence : OrderEvent → Bool
  | .fill _ | .unknownBackfillResult .. | .immediateFillBackfillResult _ | .reconcileResult .. => true
  | _ => false

/-- In any state and context: evidence with distinct fill ids that was accepted is inert from then on. -/
theorem redelivered_evidence_inert (s : OrderState) (c : OrderCtx) (e : OrderEvent)
    (he : e.isEvidence = true) (hn : (e.fills.map (·.fillId)).Nodup) (s₁ : OrderState)
    (fx : List Effect) (c₁ : OrderCtx) (h : applyEvent s c e = (.accept s₁ fx, c₁)) :
    Inert s₁ c₁ e := by
  cases e with
  | fill f =>
      cases hs : awaitsFills s with
      | false =>
          obtain ⟨hf, hs₁⟩ := fill_taken hs h
          exact fill_inert hf hs₁
      | true =>
          cases s with
          | immediateFillUnattributed _ _ _ _ _ => exact (fillBackfill_inert hn h).2 f rfl
          | _ => cases hs
  | immediateFillBackfillResult fills =>
      cases s with
      | immediateFillUnattributed _ _ _ _ _ => exact (fillBackfill_inert hn h).1
      | _ => cases h
  | unknownBackfillResult exhaustive matched =>
      cases s with
      | submitUnknown => exact unknownBackfill_inert h
      | _ => cases h
  | reconcileResult status ev filled left fills complete =>
      cases s with
      | cancelPending _ _ _ _ _ _ _ | reconcilePending _ _ _ _ _ _ _ => exact reconcile_inert hn h
      | _ => cases h
  | _ => cases he

/-- A reconciliation that brings a fill and leaves the order waiting for another one. -/
theorem redelivered_evidence_inert_waiting :
    let o := lifecycle.final (Order.new ⟨"c"⟩ "m" "s" .buyYes 40 10) (restingRun 10 ++ [.cancelRequested])
    let e := OrderEvent.reconcileResult .canceled (some ⟨"V"⟩) 5 0
      [⟨⟨"f"⟩, 3, 40, 7, some ⟨"V"⟩, none⟩] true
    ∃ s₁ fx c₁, applyEvent o.state o.ctx e = (.accept s₁ fx, c₁) ∧ AwaitsAt ⟨"V"⟩ s₁ ∧ Inert s₁ c₁ e := by
  intro o e
  exact ⟨_, _, _, rfl, ⟨_, _, _, _, _, _, rfl⟩,
    redelivered_evidence_inert o.state o.ctx e rfl (by decide) _ _ _ rfl⟩

end Omsrs.Lifecycle
