import Mathlib.Data.List.Pairwise
import Omsrs.Execution.Lemmas.Settle

/-!
# The entries a transaction writes

A write extends the entry that is there. An execution is written once in a transaction, save where a
batch of a foreign row completes an entry again and again, each time from what it was before the batch.
-/

namespace Omsrs.Execution
open Omsrs.Lib Omsrs.Lifecycle Omsrs.Observation

/-- The entries a transaction writes, oldest first. -/
def ExecutionTransaction.writes (t : ExecutionTransaction) : List (FillId × InventoryEntry) :=
  t.outcomes.filterMap (·.write)

variable {order : OrderRow} {inv : MarketInventory} {e : ExecutionEvidence} {st : Settlement}
  {event : OrderEvent} {es : List ExecutionEvidence} {t : ExecutionTransaction} {id : FillId}
  {x y : InventoryEntry}

/-! ## One write -/

/-- The write of one verdict. -/
structure WriteOf (order : OrderRow) (inv : MarketInventory) (a : ExecutionEvidence × PreCore)
    (id : FillId) (x : InventoryEntry) : Prop where
  key : id = a.1.executionId
  extends_ : ∀ p, inv.get id = some p → Extends p x
  claims : (rowForeign order inv = false ∨ inv.get id = none) → a.2.claims = true

theorem settle_writeOf {a : ExecutionEvidence × PreCore} (hinv : st.inv = inv)
    (hr : ∀ od i ea cf, a.2 = .refused od i ea cf → Passes order inv a.1 i ea cf)
    (h : (settle st a).1.write = some (id, x)) : WriteOf order inv a id x := by
  rw [← settle_write] at h
  obtain ⟨entry, hentry, heq⟩ := Option.map_eq_some_iff.mp h
  rw [settle_evidence] at heq
  obtain ⟨rfl, rfl⟩ := Prod.mk.inj heq
  obtain ⟨e, pc⟩ := a
  cases pc with
  | ignoredZero => cases hentry
  | refused od i ea cf =>
      have hp := hr od i ea cf rfl
      simp only [settle] at hentry
      split at hentry
      · rename_i hw
        cases i with
        | ingested pv =>
            refine ⟨rfl, fun p hp' => ?_, fun _ => rfl⟩
            rw [hp.fresh ⟨pv, rfl⟩] at hp'
            cases hp'
        | upgraded =>
            obtain ⟨hf, p, hp'⟩ := hp.upgraded rfl
            refine ⟨rfl, (hp.entry rfl entry hentry).1, fun hc => ?_⟩
            rcases hc with hc | hc
            · rw [hf] at hc
              cases hc
            · rw [hp'] at hc
              cases hc
        | _ => cases hw
      · cases hentry
  | admitted s =>
      refine ⟨rfl, fun p hp => ?_, fun _ => rfl⟩
      simp only [settle, settleAdmitted, hinv, hp] at hentry
      split at hentry
      · cases hentry
        exact ⟨rfl, rfl, rfl, fun _ h => fillIn_eq_some h, fun _ h => fillIn_eq_some h⟩
      · cases hentry

/-! ## The writes of a transaction -/

theorem BatchParts.writeOf (b : BatchParts order inv event es t) (h : (id, x) ∈ t.writes) :
    ∃ a ∈ (adjudicate order inv es).1, WriteOf order inv a id x ∧
      (settle (batchSettlement order inv (adjudicate order inv es).2 b.core) a).1.write =
        some (id, x) := by
  have hj := adjudicate_judged order inv es
  rw [ExecutionTransaction.writes, b.outcomes, List.map_map, List.filterMap_map,
    List.mem_filterMap] at h
  obtain ⟨a, ha, hw⟩ := h
  exact ⟨a, ha, settle_writeOf rfl (fun od i ea cf he => hj.refused a.1 od i ea cf (he ▸ ha)) hw, hw⟩

theorem norow_write (h : prepareExecutionNorow inv e = .ok t) (hw : (id, x) ∈ t.writes) :
    (∀ p, inv.get id = some p → Extends p x) ∧ ∀ y, (id, y) ∈ t.writes → y = x := by
  obtain ⟨o, ho, -, -, -, hwrite⟩ := adjudicateNorow_spec inv e
  unfold prepareExecutionNorow at h
  split at h
  · cases h
  · rw [ho] at h
    cases h
    simp only [ExecutionTransaction.writes, List.mem_filterMap, List.mem_singleton,
      exists_eq_left] at hw ⊢
    refine ⟨(hwrite id x hw).2.1, fun y hy => ?_⟩
    rw [hw] at hy
    cases hy
    rfl

/-- A write extends the entry that is there. -/
theorem Prepared.extends_ {row : Option OrderRow} (h : Prepared inv row t) (hw : (id, x) ∈ t.writes)
    {p : InventoryEntry} (hp : inv.get id = some p) : Extends p x := by
  rcases h.cases with ⟨_, e, he⟩ | ⟨row, event, es, _, hb⟩
  · exact (norow_write he hw).1 p hp
  · obtain ⟨b⟩ := prepareExecutionBatch_parts hb
    obtain ⟨a, -, hof, -⟩ := b.writeOf hw
    exact hof.extends_ p hp

theorem apart_symm : Std.Symm Apart := ⟨fun _ _ h hb ha he => h ha hb he.symm⟩

/-- A batch writes an execution once, unless a foreign row completes its entry. -/
theorem BatchParts.writes_once (b : BatchParts order inv event es t)
    (hc : rowForeign order inv = false ∨ inv.get id = none) (hx : (id, x) ∈ t.writes)
    (hy : (id, y) ∈ t.writes) : x = y := by
  obtain ⟨a, ha, hofa, hwa⟩ := b.writeOf hx
  obtain ⟨a', ha', hofa', hwa'⟩ := b.writeOf hy
  have haa : a = a' := by
    by_contra hne
    have := apart_symm
    exact List.Pairwise.forall (adjudicate_judged order inv es).apart ha ha' hne (hofa.claims hc)
      (hofa'.claims hc) (hofa.key.symm.trans hofa'.key)
  rw [haa, hwa'] at hwa
  cases hwa
  rfl

/-! ## The writes of a foreign row -/

/-- The entry `p`, completed by an evidence that agrees with it. -/
def completed (p : InventoryEntry) (e : ExecutionEvidence) : Option InventoryEntry :=
  if e.qty = 0 || disagreesEntry e p || feeConflict e.feeCents p.feeCents then none
  else if fillsIn p.venueOrderId e.venueOrderId || fillsIn p.feeCents e.feeCents then
    some
      { p with
        venueOrderId := fillIn p.venueOrderId e.venueOrderId
        feeCents := fillIn p.feeCents e.feeCents }
  else none

/-- The evidence agrees with the entry. -/
def agrees (p : InventoryEntry) (e : ExecutionEvidence) : Bool :=
  decide (e.qty ≠ 0) && !disagreesEntry e p && !feeConflict e.feeCents p.feeCents

/-- It also names something the entry lacks. -/
def informs (p : InventoryEntry) (e : ExecutionEvidence) : Bool :=
  agrees p e && (fillsIn p.venueOrderId e.venueOrderId || fillsIn p.feeCents e.feeCents)

/-- The entry, completed. -/
def complete (p : InventoryEntry) (e : ExecutionEvidence) : InventoryEntry :=
  { p with
    venueOrderId := fillIn p.venueOrderId e.venueOrderId
    feeCents := fillIn p.feeCents e.feeCents }

theorem completed_eq (p : InventoryEntry) (e : ExecutionEvidence) :
    completed p e = if informs p e = true then some (complete p e) else none := by
  simp only [completed, informs, agrees, complete]
  by_cases hq : e.qty = 0
  · simp [hq]
  · by_cases hd : disagreesEntry e p = true
    · simp [hq, hd]
    · by_cases hf : feeConflict e.feeCents p.feeCents = true <;> simp [hq, hd, hf]

/-- The verdict on an evidence of an execution that is there and was not staged writes its entry,
completed. -/
theorem adjudicateForeign_write {p : InventoryEntry} (refusal : RefusalReason) {σ : Staging}
    (hp : inv.get e.executionId = some p) (hs : σ.get? e.executionId = none) :
    (settle st (e, (adjudicateForeign refusal inv σ e).1)).1.write =
      (completed p e).map fun x => (e.executionId, x) := by
  have hcore : coreHit e none (some p) none = disagreesEntry e p := by simp [coreHit, anyPair]
  have hfee : feeHit e none (some p) none = feeConflict e.feeCents p.feeCents := by
    cases he : e.feeCents <;> cases hpf : p.feeCents <;>
      simp [feeHit, feeConflict, bothUnequal, he, hpf]
  simp only [adjudicateForeign, hp, hs, hcore, hfee, completed]
  by_cases hq : e.qty = 0
  · simp [settle, ExecutionOutcome.write, InventoryDisposition.writes, hq]
  · by_cases hd : disagreesEntry e p = true
    · simp [settle, ExecutionOutcome.write, InventoryDisposition.writes, hq, hd, refuseConflict]
    · by_cases hf : feeConflict e.feeCents p.feeCents = true
      · simp [settle, ExecutionOutcome.write, InventoryDisposition.writes, hq, hd, hf, refuseConflict]
      · by_cases hfill : (fillsIn p.venueOrderId e.venueOrderId || fillsIn p.feeCents e.feeCents) = true
        · simp [settle, ExecutionOutcome.write, InventoryDisposition.writes, publishStaged, hq, hd, hf,
            hfill]
        · simp [settle, ExecutionOutcome.write, InventoryDisposition.writes, hq, hd, hf, hfill]

/-- Only what is not there is staged for a foreign row. -/
theorem adjudicateForeign_staging {p : InventoryEntry} (refusal : RefusalReason) {σ : Staging}
    (hp : inv.get id = some p) (hs : σ.get? id = none) :
    (adjudicateForeign refusal inv σ e).2.get? id = none := by
  have hstage : ∀ s : StagedPayload, e.executionId ≠ id → (σ.insert e.executionId s).get? id = none :=
    fun s hid => by
      rw [OrdMap.get?_insert_ne _ _ (Ne.symm hid)]
      exact hs
  simp only [adjudicateForeign]
  split
  · exact hs
  · split
    · exact hs
    · split
      · exact hs
      · split
        · rename_i sp p' hsp
          exact hstage _ fun hid => by simp [← hid, hsp] at hs
        · split <;> exact hs
        · rename_i hp'
          exact hstage _ fun hid => by simp [hid, hp] at hp'

/-- What a batch of a foreign row writes of an execution that is there. -/
theorem adjudicateForeign_writes {p : InventoryEntry} (refusal : RefusalReason)
    (hp : inv.get id = some p) {σ : Staging} (hs : σ.get? id = none) (es : List ExecutionEvidence) :
    ((adjudicateAll (adjudicateForeign refusal inv) σ es).1.filterMap fun a =>
        (settle st a).1.write).filter (fun w => decide (w.1 = id)) =
      (es.filter fun e => decide (e.executionId = id)).filterMap fun e =>
        (completed p e).map fun x => (id, x) := by
  induction es generalizing σ with
  | nil => rfl
  | cons e es ih =>
      have hrest := ih (adjudicateForeign_staging (e := e) refusal hp hs)
      simp only [adjudicateAll, List.filterMap_cons]
      by_cases hid : e.executionId = id
      · subst hid
        rw [adjudicateForeign_write refusal hp hs]
        simp only [decide_true, List.filter_cons_of_pos, List.filterMap_cons]
        cases completed p e with
        | none => exact hrest
        | some x => simp only [Option.map_some, decide_true, List.filter_cons_of_pos, hrest]
      · rw [List.filter_cons_of_neg (by simpa using hid)]
        cases hw : (settle st (e, (adjudicateForeign refusal inv σ e).1)).1.write with
        | none => exact hrest
        | some w =>
            have hkey : w.1 = e.executionId := by
              rw [← settle_write] at hw
              obtain ⟨x, -, rfl⟩ := Option.map_eq_some_iff.mp hw
              rw [settle_evidence]
            rw [List.filter_cons_of_neg (by simpa [hkey] using hid)]
            exact hrest

/-- The same, of a transaction. -/
theorem BatchParts.foreign_writes (b : BatchParts order inv event es t)
    (hf : rowForeign order inv = true) {p : InventoryEntry} (hp : inv.get id = some p) :
    t.writes.filter (fun w => decide (w.1 = id)) =
      (es.filter fun e => decide (e.executionId = id)).filterMap fun e =>
        (completed p e).map fun x => (id, x) := by
  rw [ExecutionTransaction.writes, b.outcomes, List.map_map, List.filterMap_map, adjudicate, if_pos hf]
  exact adjudicateForeign_writes _ hp rfl es

/-- A foreign row writes the completions of an entry. -/
theorem BatchParts.foreign_mem (b : BatchParts order inv event es t)
    (hf : rowForeign order inv = true) (hp : inv.get id = some p) :
    (id, x) ∈ t.writes ↔ ∃ e ∈ es, e.executionId = id ∧ informs p e = true ∧ complete p e = x := by
  have hmem : (id, x) ∈ t.writes ↔ (id, x) ∈ t.writes.filter (fun w => decide (w.1 = id)) := by simp
  rw [hmem, b.foreign_writes hf hp]
  simp [completed_eq, and_assoc]

end Omsrs.Execution
