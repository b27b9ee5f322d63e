import Omsrs.Lifecycle.Lemmas.Steps

/-!
# What a result without fills can halt with

The texts of the core's own cross-checks are never the text of a batch that is all of the other side, so
a backfill or reconcile result without fills never leaves an open order halted for that.
-/

namespace Omsrs.Lifecycle
open Omsrs.Lib

variable {c d : OrderCtx} {fx : List Effect} {v : VenueOrderId} {reason : HaltReason} {detail : String}

def sideText : String := "execution side mismatch with order ctx.side"

/-! ## Texts -/

/-- The text begins with another letter. -/
def OtherText (s : String) : Prop := ∃ c, s.toList.head? = some c ∧ c ≠ 'e'

theorem OtherText.append {a : String} (h : OtherText a) (b : String) : OtherText (a ++ b) := by
  obtain ⟨c, hc, hne⟩ := h
  exact ⟨c, by simp [String.toList_append, hc], hne⟩

theorem OtherText.ne {s : String} (h : OtherText s) : s ≠ sideText := by
  rintro rfl
  obtain ⟨c, hc, hne⟩ := h
  exact hne (Option.some.inj (hc.symm.trans (by decide)))

/-- A halt for anything else. -/
def OtherReason (reason : HaltReason) : Prop := reason ≠ .crossCheckMismatch sideText

theorem OtherText.other (h : OtherText detail) : OtherReason (.crossCheckMismatch detail) :=
  fun he => h.ne (HaltReason.crossCheckMismatch.inj he)

theorem feeCrossCheckMismatch_text {resp : Option Nat} {fee : Nat}
    (h : feeCrossCheckMismatch resp fee = some detail) : OtherText detail := by
  unfold feeCrossCheckMismatch at h
  split at h
  · cases h
  · split at h
    · cases Option.some.inj h
      repeat apply OtherText.append
      exact ⟨'f', rfl, by decide⟩
    · cases h

theorem notionalAvgMismatch_text {n a count : Nat} (h : notionalAvgMismatch n a count = some detail) :
    OtherText detail := by
  unfold notionalAvgMismatch at h
  split at h
  · cases h
  · dsimp only at h
    generalize (if a * count ≤ n then n - a * count else a * count - n) = diff at h
    split at h
    · cases Option.some.inj h
      repeat apply OtherText.append
      exact ⟨'a', rfl, by decide⟩
    · cases h

theorem domainOverfillText_text (q rc : Nat) : OtherText (domainOverfillText q rc) := by
  unfold domainOverfillText
  repeat apply OtherText.append
  exact ⟨'r', rfl, by decide⟩

theorem overAttributionText_text (c : OrderCtx) (filled member others : Nat) :
    OtherText (overAttributionText c filled member others) := by
  unfold overAttributionText
  split
  all_goals
    repeat apply OtherText.append
    exact ⟨'a', rfl, by decide⟩

/-! ## Outcomes -/

/-- The order is not halted for the side of an execution. -/
structure Unsided (o : TransitionOutcome) : Prop where
  ne : o.newState ≠ some (.halted (.crossCheckMismatch sideText))

theorem haltWithReason_unsided (h : OtherReason reason) (fx : List Effect) :
    Unsided (haltWithReason reason fx) :=
  ⟨fun he => h (OrderState.halted.inj (Option.some.inj he))⟩

theorem accept_unsided {s : OrderState} (h : ∀ r, s ≠ .halted r) (fx : List Effect) :
    Unsided (accept s fx) :=
  ⟨fun he => h _ (Option.some.inj he)⟩

theorem Unsided.prepend {o : TransitionOutcome} (h : Unsided o) (fx : List Effect) :
    Unsided (o.prependEffects fx) := by
  cases o <;> exact ⟨h.ne⟩

/-! ## The terminal gate -/

theorem notReadyForTerminal_unsided (c : OrderCtx) (v : VenueOrderId) (fx : List Effect)
    (fallback : ReconcileTerminal) (request : Bool) (remaining : Option Nat) :
    Unsided (notReadyForTerminal c v fx fallback request remaining) :=
  accept_unsided (fun _ h => by cases h) _

theorem ownershipBlock_reason {fills : List (FillId × FillPayload)}
    (h : ownershipBlock v fills = some (some reason)) : OtherReason reason := by
  obtain ⟨⟨fid, p⟩, -, hp⟩ := List.exists_of_findSome?_eq_some h
  dsimp only at hp
  split at hp
  · split at hp
    · cases hp
    · cases hp
      exact fun he => by cases he
  · cases hp

theorem responseDomainGate_reason (h : responseDomainGate c = some (.halt reason)) :
    OtherReason reason := by
  unfold responseDomainGate at h
  split at h
  · cases h
  · split at h
    · split at h
      · cases h
      · split at h
        · cases h
          exact (domainOverfillText_text _ _).other
        · split at h
          · rename_i hdetail
            cases h
            obtain ⟨avg, -, hd⟩ := Option.bind_eq_some_iff.mp hdetail
            exact (notionalAvgMismatch_text hd).other
          · split at h
            · rename_i hd
              cases h
              exact (feeCrossCheckMismatch_text hd).other
            · cases h
    · cases h

theorem finalizeGate_reason (h : finalizeGate c = some (.halt reason)) : OtherReason reason := by
  unfold finalizeGate at h
  split at h
  · rename_i failure hown
    cases h
    unfold ownershipGate at hown
    split at hown
    · cases hown
    · split at hown
      · cases hown
      · rename_i hblock
        cases hown
        exact ownershipBlock_reason hblock
      · cases hown
  · split at h
    · cases h
    · split at h
      · cases h
      · exact responseDomainGate_reason h

theorem tryFinalizeTerminal_unsided (c : OrderCtx) (proposed : ProposedTerminal) (v : VenueOrderId)
    (fx : List Effect) (fallback : ReconcileTerminal) :
    Unsided (tryFinalizeTerminal c proposed v fx fallback) := by
  unfold tryFinalizeTerminal
  split
  · rename_i h
    exact haltWithReason_unsided (finalizeGate_reason h) _
  · exact notReadyForTerminal_unsided ..
  · cases proposed with
    | filled filled remaining =>
        dsimp only
        unfold finalizeFilled
        split
        · exact haltWithReason_unsided (fun he => by cases he) _
        · split
          · exact haltWithReason_unsided (fun he => by cases he) _
          · split
            · split
              · exact haltWithReason_unsided (fun he => by cases he) _
              · exact notReadyForTerminal_unsided ..
            · exact accept_unsided (fun _ h => by cases h) _
    | _ => exact accept_unsided (fun _ h => by cases h) _

/-! ## Immediate fills -/

theorem routeLiveOrFilled_unsided (c : OrderCtx) (v : VenueOrderId) (fx : List Effect) :
    Unsided (routeLiveOrFilled c v fx).1 := by
  unfold routeLiveOrFilled
  split
  · exact haltWithReason_unsided (fun he => by cases he) _
  · split
    · exact tryFinalizeTerminal_unsided ..
    · split <;> exact accept_unsided (fun _ h => by cases h) _

theorem checkUnattributed_reason {count remaining : Nat} {avg fee : Option Nat}
    (h : checkUnattributed c count remaining avg fee = .halt reason) : OtherReason reason := by
  unfold checkUnattributed at h
  split at h
  · split at h
    · cases h
    · split at h
      · cases h
        exact fun he => by cases he
      · split at h
        · cases h
          exact fun he => by cases he
        · split at h
          · rename_i hdetail
            cases h
            obtain ⟨a, -, hd⟩ := Option.bind_eq_some_iff.mp hdetail
            exact (notionalAvgMismatch_text hd).other
          · split at h
            · rename_i hd
              cases h
              exact (feeCrossCheckMismatch_text hd).other
            · cases h
  · split at h
    · cases h
    · split at h
      · cases h
        exact fun he => by cases he
      · cases h

theorem bindVenueId_reason (h : bindVenueId c v = .error reason) : OtherReason reason := by
  unfold bindVenueId at h
  split at h
  · split at h
    · rename_i hfound
      cases h
      obtain ⟨⟨fid, p⟩, -, hp⟩ := List.exists_of_findSome?_eq_some hfound
      dsimp only at hp
      split at hp
      · split at hp
        · cases hp
          exact fun he => by cases he
        · cases hp
      · cases hp
    · cases h
  · split at h
    · cases h
    · cases h
      exact fun he => by cases he

theorem applyImmediateFillBackfill_unsided (c : OrderCtx) (v : VenueOrderId) (count remaining : Nat)
    (avg fee : Option Nat) :
    Unsided (applyImmediateFillBackfill c v count remaining avg fee []).1 := by
  unfold applyImmediateFillBackfill
  split
  · rename_i h
    exact haltWithReason_unsided (bindVenueId_reason h) _
  · simp only [accountFills]
    unfold resolveUnattributed
    split
    · exact accept_unsided (fun _ h => by cases h) _
    · rename_i h
      exact haltWithReason_unsided (checkUnattributed_reason h) _
    · exact routeLiveOrFilled_unsided ..

/-! ## Backfills and reconciliation -/

theorem noteFillEvidence_reason {n : Nat} (h : noteFillEvidence c n = .error reason) :
    OtherReason reason := by
  unfold noteFillEvidence OrderCtx.raiseFillObligation at h
  split at h
  · rename_i hr
    split at hr
    · cases hr
      cases h
      exact fun he => by cases he
    · split at hr
      · dsimp only at hr
        split at hr <;> cases hr
      · cases hr
  · split at h <;> cases h

theorem backfillMemberQuantities_reason {filled others : Nat}
    (h : backfillMemberQuantities c filled others = .error reason) : OtherReason reason := by
  unfold backfillMemberQuantities at h
  split at h
  · cases h
  · cases h
    apply OtherText.other
    repeat apply OtherText.append
    exact ⟨'o', rfl, by decide⟩

theorem continueReconcilePending_unsided (c : OrderCtx) (v : VenueOrderId) (filled : Nat)
    (fx : List Effect) (fromSubmitUnknown complete : Bool) (target : Option ReconcileTarget) :
    Unsided (continueReconcilePending c v filled fx fromSubmitUnknown complete target) := by
  unfold continueReconcilePending
  dsimp only
  split
  · exact accept_unsided (fun _ h => by cases h) _
  · split
    · exact accept_unsided (fun _ h => by cases h) _
    · split <;> exact accept_unsided (fun _ h => by cases h) _

theorem stayUnknown_unsided {o : TransitionOutcome} (h : Unsided o) (c : OrderCtx)
    (fromSubmitUnknown complete : Bool) : Unsided (stayUnknown c fromSubmitUnknown complete o) := by
  unfold stayUnknown
  split
  · split
    · exact accept_unsided (fun _ h => by cases h) _
    · exact h
  · exact h

theorem routeStatus_unsided (c : OrderCtx) (v : VenueOrderId) (status : BackfillOrderStatus)
    (filled remaining member capacity : Nat) (fx : List Effect) (complete fromSubmitUnknown : Bool) :
    Unsided (routeStatus c v status filled remaining member capacity fx complete fromSubmitUnknown) := by
  have hlive : ∀ s, s = .openOrder ∨ s = .partialFill →
      Unsided (routeStatus c v s filled remaining member capacity fx complete fromSubmitUnknown) := by
    rintro s (rfl | rfl)
    all_goals
      unfold routeStatus
      dsimp only
      split
      · exact accept_unsided (fun _ h => by cases h) _
      · split
        · exact continueReconcilePending_unsided ..
        · split
          · exact haltWithReason_unsided (fun he => by cases he) _
          · split
            · refine haltWithReason_unsided (OtherText.other ?_) _
              repeat apply OtherText.append
              exact ⟨'v', rfl, by decide⟩
            · split <;> exact accept_unsided (fun _ h => by cases h) _
  cases status with
  | canceled => exact stayUnknown_unsided (tryFinalizeTerminal_unsided ..) ..
  | filled => exact stayUnknown_unsided (tryFinalizeTerminal_unsided ..) ..
  | openOrder => exact hlive _ (.inl rfl)
  | partialFill => exact hlive _ (.inr rfl)

theorem routeBackfillFills_unsided (c : OrderCtx) (v : VenueOrderId) (status : BackfillOrderStatus)
    (filled remaining others member capacity : Nat) (fx : List Effect)
    (complete fromSubmitUnknown : Bool) :
    Unsided (routeBackfillFills c v status filled remaining others member capacity fx [] complete
      fromSubmitUnknown).1 := by
  unfold routeBackfillFills
  simp only [accountFills]
  split
  · exact haltWithReason_unsided (overAttributionText_text ..).other _
  · exact routeStatus_unsided ..

theorem routeFromBackfillStatus_unsided (c : OrderCtx) (v : VenueOrderId)
    (status : BackfillOrderStatus) (filled remaining others : Nat) (complete fromSubmitUnknown : Bool) :
    Unsided (routeFromBackfillStatus c v status filled remaining others [] complete
      fromSubmitUnknown).1 := by
  unfold routeFromBackfillStatus
  split
  · rename_i h
    exact haltWithReason_unsided (backfillMemberQuantities_reason h) _
  · split
    · rename_i h
      exact haltWithReason_unsided (bindVenueId_reason h) _
    · dsimp only
      split
      · rename_i h
        exact haltWithReason_unsided (noteFillEvidence_reason h) _
      · exact routeBackfillFills_unsided ..

theorem applyUniqueBackfill_unsided (c : OrderCtx) {r : BackfillOrderRecord} (hr : r.fills = []) :
    Unsided (applyUniqueBackfill c r).1 := by
  unfold applyUniqueBackfill
  split
  · rename_i h
    exact haltWithReason_unsided (backfillMemberQuantities_reason h) _
  · split
    · rename_i h
      exact haltWithReason_unsided (bindVenueId_reason h) _
    · dsimp only
      split
      · rename_i h
        exact haltWithReason_unsided (noteFillEvidence_reason h) _
      · unfold bookUniqueBackfill
        simp only [hr, accountFills]
        exact (routeFromBackfillStatus_unsided ..).prepend _

theorem applyUnknownBackfill_unsided (c : OrderCtx) (exhaustive : Bool)
    {matched : List BackfillOrderRecord} (hr : ∀ r ∈ matched, r.fills = []) :
    Unsided (applyUnknownBackfill c exhaustive matched).1 := by
  unfold applyUnknownBackfill
  split
  · split
    · exact ⟨fun he => by cases he⟩
    · exact accept_unsided (fun _ h => by cases h) _
  · rename_i r
    split
    · exact haltWithReason_unsided (fun he => by cases he) _
    · split
      · exact accept_unsided (fun _ h => by cases h) _
      · exact applyUniqueBackfill_unsided c (hr r (by simp))
  · exact haltWithReason_unsided (fun he => by cases he) _

theorem applyReconcileResult_unsided (c : OrderCtx) (v : VenueOrderId) (status : BackfillOrderStatus)
    (eventVid : Option VenueOrderId) (filled remaining : Nat) (complete : Bool) :
    Unsided (applyReconcileResult c v status eventVid filled remaining [] complete).1 := by
  unfold applyReconcileResult
  split
  · rename_i h
    refine haltWithReason_unsided ?_ _
    unfold resolveReconcileVenue at h
    split at h
    · rename_i hb
      cases h
      exact bindVenueId_reason hb
    · split at h
      · cases h
      · split at h
        · cases h
        · cases h
        · rename_i hb
          cases h
          exact bindVenueId_reason hb
  · exact (routeFromBackfillStatus_unsided ..).prepend _

/-! ## Events -/

/-- A result that carries no fills. -/
inductive BareResult : OrderEvent → Prop
  | immediate : BareResult (.immediateFillBackfillResult [])
  | unknown {exhaustive : Bool} {matched : List BackfillOrderRecord}
      (h : ∀ r ∈ matched, r.fills = []) : BareResult (.unknownBackfillResult exhaustive matched)
  | reconcile {status : BackfillOrderStatus} {v : Option VenueOrderId} {filled remaining : Nat}
      {complete : Bool} : BareResult (.reconcileResult status v filled remaining [] complete)

theorem applyEvent_unsided {s : OrderState} {event : OrderEvent} (h : BareResult event)
    (hs : isRestartFrozen s = false) (c : OrderCtx) : Unsided (applyEvent s c event).1 := by
  have hreject : ∀ s event, Unsided (rejectIllegal s event) := fun _ _ => ⟨fun he => by cases he⟩
  cases h with
  | immediate =>
      cases s <;> first | exact hreject .. | exact applyImmediateFillBackfill_unsided .. | cases hs
  | unknown h =>
      cases s <;> first | exact hreject .. | exact applyUnknownBackfill_unsided c _ h | cases hs
  | reconcile =>
      cases s <;> first | exact hreject .. | exact applyReconcileResult_unsided .. | cases hs

end Omsrs.Lifecycle
