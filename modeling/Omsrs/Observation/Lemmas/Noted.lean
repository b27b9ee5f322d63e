import Omsrs.Observation.Lemmas.Shell

/-!
# What a record of a wire leaves

An amend, a frame, a hold or a proof changes its own wire, after what was asked of it, and no other.
-/

namespace Omsrs.Observation
open Omsrs.Lib Omsrs.Lifecycle Omsrs.Execution

/-- What a noted record leaves of its wire. -/
inductive WireNoted (pos : Nat) (inv : MarketInventory) (l : LedgerId) (w : VenueOrderId)
    (ws : WireState) : Record → WireState → Prop
  | amended {lineage : AmendLineage} (h : ws.checkLineage lineage = .ok ()) :
      WireNoted pos inv l w ws (.amendLineage l w (some lineage)) (ws.setLineage (some lineage))
  | received {e : UserOrderEvidence} (hadm : Admissible l w ws e) (hnew : ws.checkFrame e = .ok true) :
      WireNoted pos inv l w ws (.userOrderReceived l w e) (ws.receive pos e)
  | held : WireNoted pos inv l w ws (.orderAuthorityHold l w) (ws.holdAuthority pos)
  | rests {e : UserOrderEvidence} {t : OrderStateTxnRecord} (h : Rests ws inv e) (he : t.evidence = e)
      (ht : t.wireAfter = ws.proved e.clientOrderId e.remaining) :
      WireNoted pos inv l w ws (.orderStateTxn t) (ws.proved e.clientOrderId e.remaining)
  | paged {cid : ClientOrderId} {filled remaining : Nat} {t : RestOrderProofTxnRecord}
      (h : Paged ws inv cid filled) (hfilled : t.filled = filled) (hremaining : t.remaining = remaining)
      (ht : t.wireAfter = { ws.proved cid remaining with authorityHold := false }) :
      WireNoted pos inv l w ws (.restOrderProofTxn t)
        { ws.proved cid remaining with authorityHold := false }

variable {s : Shell} {act : ShellAction} {rec : Record} {registry : WireRegistry}

theorem Noted.wire (h : Noted s act rec) (hfold : s.registry.fold s.journal.length rec = .ok registry) :
    ∃ l w ws', WireNoted s.journal.length (s.inventory l) l w (s.registry.ensure l w) rec ws' ∧
      ∀ l' w', registry.ensure l' w' =
        if l' = l ∧ w' = w then ws' else s.registry.ensure l' w' := by
  have hset : ∀ (l : LedgerId) (w : VenueOrderId) (ws' : WireState),
      registry = s.registry.set l w ws' → ∀ l' w', registry.ensure l' w' =
        if l' = l ∧ w' = w then ws' else s.registry.ensure l' w' := by
    rintro l w ws' rfl l' w'
    exact WireRegistry.ensure_set _ _ _ _ _ _
  cases h with
  | @amend l w lineage rec h =>
      obtain ⟨rfl, ws, hws, hc⟩ := WireRegistry.prepareAmendLineage_ok h
      cases hfold
      rw [← WireRegistry.ensure_of_get hws] at hc
      exact ⟨l, w, _, .amended hc, hset l w _ rfl⟩
  | @frame l w e rec h =>
      obtain ⟨rfl, hadm, hnew⟩ := WireRegistry.prepareUserOrderReceived_some.mp h
      cases hfold
      exact ⟨l, w, _, .received hadm hnew, hset l w _ rfl⟩
  | @state l w t h =>
      obtain ⟨e, hr, rfl, rfl, he, ht⟩ := WireRegistry.prepareOrderStateResting_ok h
      cases hfold
      exact ⟨_, _, _, .rests hr he ht, hset _ _ _ (by rw [ht])⟩
  | @page l w cid filled remaining initial t h =>
      obtain ⟨hp, rfl, rfl, _, hf, hr, ht⟩ := WireRegistry.prepareRestOrderProof_ok h
      cases hfold
      exact ⟨_, _, _, .paged hp hf hr ht, hset _ _ _ (by rw [ht])⟩
  | @hold l w =>
      cases hfold
      exact ⟨l, w, _, .held, hset l w _ rfl⟩

/-- No noted record changes what a wire holds. -/
theorem WireNoted.held_eq {pos : Nat} {inv : MarketInventory} {l : LedgerId} {w : VenueOrderId}
    {ws ws' : WireState} (h : WireNoted pos inv l w ws rec ws') : ws'.held = ws.held := by
  cases h <;> rfl

end Omsrs.Observation
