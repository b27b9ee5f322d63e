import Omsrs.Execution.Lemmas.Deliver
import Omsrs.Execution.Lemmas.Writes

/-!
# What a batch attributes

The core takes in fills the batch has staged, and the entry of each goes to the order exactly when the
order has booked it. Whatever else a batch writes leaves the owners alone.
-/

namespace Omsrs.Execution
open Omsrs.Lib Omsrs.Lifecycle Omsrs.Observation

variable {row : OrderRow} {inv : MarketInventory} {event : OrderEvent} {es : List ExecutionEvidence}
  {t : ExecutionTransaction} {e : ExecutionEvidence} {s : StagedPayload} {id : FillId}
  {x : InventoryEntry} {pre : List (ExecutionEvidence × PreCore)} {σ : Staging}

/-! ## What the core takes in -/

/-- A fill the batch has admitted, as it was staged in the end. -/
structure Admits (row : OrderRow) (inv : MarketInventory)
    (pre : List (ExecutionEvidence × PreCore)) (σ : Staging) (e : ExecutionEvidence)
    (s : StagedPayload) : Prop where
  admitted : ∃ s₀, (e, .admitted s₀) ∈ pre
  staged : σ.get? e.executionId = some s
  fits : StagedFor row inv e s
  side : row.ctx.side = e.side
  own : rowForeign row inv = false

/-- The fill of an admitted evidence. -/
def AdmittedFill (row : OrderRow) (inv : MarketInventory)
    (pre : List (ExecutionEvidence × PreCore)) (σ : Staging) (f : FillRecord) : Prop :=
  ∃ e s, Admits row inv pre σ e s ∧ f = s.asFillRecord e.executionId

theorem Judged.admits {s₀ : StagedPayload} (h : Judged row inv pre σ) (hm : (e, .admitted s₀) ∈ pre) :
    ∃ s, Admits row inv pre σ e s := by
  obtain ⟨hown, hside, s, hs, hfor⟩ := h.admitted e s₀ hm
  exact ⟨s, ⟨s₀, hm⟩, hs, hfor, hside, hown⟩

theorem admittedFills_admits (h : Judged row inv pre σ) {a : FillId × StagedPayload}
    (ha : a ∈ admittedFills σ pre) : AdmittedFill row inv pre σ (a.2.asFillRecord a.1) := by
  obtain ⟨⟨e, pc⟩, hm, heq⟩ := List.mem_filterMap.mp ha
  cases pc with
  | admitted s₀ =>
      obtain ⟨s, hs⟩ := h.admits hm
      cases heq
      refine ⟨e, s, hs, ?_⟩
      rw [hs.staged]
      rfl
  | _ => cases heq

/-- The rebuilt event carries admitted fills only. -/
theorem rebuilt_fills {admitted : List (FillId × StagedPayload)} {positions : List Nat}
    (hadm : admitted ≠ [] ∨ isStructured event = true) {f : FillRecord}
    (hf : f ∈ (rebuildEventWithFills event admitted positions).fills) :
    ∃ a ∈ admitted, f = a.2.asFillRecord a.1 := by
  have hmap : ∀ g, g ∈ admitted.map (fun a => a.2.asFillRecord a.1) →
      ∃ a ∈ admitted, g = a.2.asFillRecord a.1 := by
    intro g hg
    obtain ⟨a, ha, rfl⟩ := List.mem_map.mp hg
    exact ⟨a, ha, rfl⟩
  cases event with
  | fill g =>
      cases admitted with
      | nil => simp [isStructured] at hadm
      | cons a rest =>
          obtain rfl : f = a.2.asFillRecord a.1 := by
            simpa [rebuildEventWithFills, OrderEvent.fills] using hf
          exact ⟨a, List.mem_cons_self, rfl⟩
  | immediateFillBackfillResult _ => exact hmap f hf
  | reconcileResult _ _ _ _ _ _ => exact hmap f hf
  | unknownBackfillResult exhaustive matched =>
      simp only [rebuildEventWithFills, OrderEvent.fills, List.mem_flatMap, List.mem_map] at hf
      obtain ⟨r, ⟨⟨m, i⟩, -, rfl⟩, hfr⟩ := hf
      simp only [List.mem_map, List.mem_filter] at hfr
      obtain ⟨⟨j, g⟩, ⟨⟨⟨k, g'⟩, hz, heq⟩, -⟩, rfl⟩ := hfr
      cases heq
      exact hmap _ (List.of_mem_zip hz).2
  | _ => cases hf

/-- The context after the core. -/
def BatchParts.ctxAfter (b : BatchParts row inv event es t) : OrderCtx :=
  (b.core.map (·.2)).getD row.ctx

theorem batchCore_takes (h : Judged row inv pre σ) :
    TakesIn (AdmittedFill row inv pre σ) row.ctx
      (((batchCore row inv event pre σ).map (·.2)).getD row.ctx) := by
  unfold batchCore
  dsimp only
  split
  · exact .refl _
  · split
    · split <;> exact .refl _
    · split
      · rename_i hadm
        refine (applyEvent_takes row.state row.ctx _).mono fun f hf => ?_
        have hne : admittedFills σ pre ≠ [] ∨ isStructured event = true := by
          simpa [List.isEmpty_iff] using hadm
        obtain ⟨a, ha, rfl⟩ := rebuilt_fills hne hf
        exact admittedFills_admits h ha
      · exact .refl _

theorem BatchParts.takes (b : BatchParts row inv event es t) :
    TakesIn (AdmittedFill row inv (adjudicate row inv es).1 (adjudicate row inv es).2) row.ctx
      b.ctxAfter := by
  rw [BatchParts.ctxAfter, b.core_eq]
  exact batchCore_takes (adjudicate_judged row inv es)

/-- The row the transaction leaves has the core's context. -/
theorem BatchParts.advance_ctx (b : BatchParts row inv event es t) :
    (row.advance t.after).ctx = b.ctxAfter := by
  have hpart := b.part_eq
  rw [b.after, BatchParts.ctxAfter]
  cases hcore : b.core with
  | none =>
      rw [hcore] at hpart
      rw [← Except.ok.inj hpart]
      rfl
  | some c =>
      obtain ⟨tr, d⟩ := c
      rw [hcore] at hpart
      simp only [orderPart] at hpart
      split at hpart
      · simp only [bind, Except.bind] at hpart
        split at hpart
        · cases hpart
        · rw [← Except.ok.inj hpart]
          rfl
      · rename_i hsame
        rw [← Except.ok.inj hpart]
        have : d = row.ctx := by
          by_contra hne
          simp [orderChanged, hne] at hsame
        exact this.symm

/-! ## The entries after it -/

theorem isAttribution_admittedOrder (st : Settlement) (id : FillId) :
    isAttribution (admittedOrder st id) = st.ctxAfter.appliedFills.contains id := by
  unfold admittedOrder OrdMap.contains
  cases h : st.ctxAfter.appliedFills.get? id with
  | none => simp [isAttribution]
  | some q =>
      simp only [Option.isNone_some, Bool.false_eq_true, ↓reduceIte, Option.isSome_some]
      split
      · split <;> rfl
      · split <;> rfl

/-- The entry of an admitted evidence says what was staged. -/
structure Settles (s : StagedPayload) (p : InventoryEntry) : Prop where
  side : p.side = s.side
  qty : p.qty = s.qty
  price : p.priceCents = s.priceCents
  venue : ∀ v, s.venueOrderId = some v → p.venueOrderId = some v
  fee : ∀ f, s.feeCents = some f → p.feeCents = some f

/-- Who owns an admitted execution after the core. -/
def Settlement.ownerAfter (st : Settlement) (id : FillId) : Option ClientOrderId :=
  if st.ctxAfter.appliedFills.contains id then some st.order.ctx.clientOrderId
  else (st.inv.get id).bind (·.owner)

/-- An admitted evidence leaves its entry as it was staged and owned: the one it plans, or the one that
is there. -/
theorem settleAdmitted_entry {st : Settlement} {s₀ : StagedPayload}
    (hs : st.staging.get? e.executionId = some s) (hf : StagedFor st.order st.inv e s) :
    ∃ p, (settleAdmitted st e s₀).2.or (st.inv.get e.executionId) = some p ∧ Settles s p ∧
      p.owner = st.ownerAfter e.executionId := by
  have hattr := isAttribution_admittedOrder st e.executionId
  unfold Settlement.ownerAfter
  cases hp : st.inv.get e.executionId with
  | none =>
      refine ⟨_, by simp only [settleAdmitted, hp]; rfl, ?_, ?_⟩
      · simp only [hs, Option.getD_some]
        exact ⟨rfl, rfl, rfl, fun _ h => h, fun _ h => h⟩
      · simp only [ownerFor, hattr, Bool.false_or]
        cases st.ctxAfter.appliedFills.contains e.executionId <;> rfl
  | some p =>
      obtain ⟨hside, hqty, hprice, hvenue, hfee⟩ := hf.entry p hp
      have hv : ∀ v, s.venueOrderId = some v → p.venueOrderId = none ∨ p.venueOrderId = some v := by
        intro v hv
        cases hpv : p.venueOrderId with
        | none => exact .inl rfl
        | some w => exact .inr ((hvenue w hpv).symm.trans hv)
      have hfe : ∀ f, s.feeCents = some f → p.feeCents = none ∨ p.feeCents = some f := by
        intro f hf
        cases hpf : p.feeCents with
        | none => exact .inl rfl
        | some g => exact .inr ((hfee g hpf).symm.trans hf)
      have howner : ∀ o, p.owner = some o → o = st.order.ctx.clientOrderId :=
        fun o ho => hf.owner p o hp ho
      simp only [settleAdmitted, hp, hs, Option.getD_some, hattr, Bool.and_self_right]
      split
      · refine ⟨_, rfl, ⟨hside, hqty, hprice, fun v h => ?_, fun f h => ?_⟩, ?_⟩
        · rcases hv v h with h' | h' <;> simp [fillIn, h, h']
        · rcases hfe f h with h' | h' <;> simp [fillIn, h, h']
        · cases hc : st.ctxAfter.appliedFills.contains e.executionId with
          | false => simp
          | true =>
              cases ho : p.owner with
              | none => simp
              | some o => simp [howner o ho]
      · rename_i hno
        refine ⟨p, rfl, ⟨hside, hqty, hprice, fun v h => ?_, fun f h => ?_⟩, ?_⟩
        · rcases hv v h with h' | h'
          · simp [fillsIn, h, h'] at hno
          · exact h'
        · rcases hfe f h with h' | h'
          · simp [fillsIn, h, h'] at hno
          · exact h'
        · cases hc : st.ctxAfter.appliedFills.contains e.executionId with
          | false => simp
          | true =>
              cases ho : p.owner with
              | none => simp [ho, hc] at hno
              | some o => simp [howner o ho]

/-- A planned entry is found under its execution. -/
theorem BatchParts.get_write (b : BatchParts row inv event es t)
    (honce : ∀ y, (id, y) ∈ t.writes → y = x) (hw : (id, x) ∈ t.writes) :
    (inv.install t.plannedEntries t.plannedConflicts).get id = some x := by
  rw [MarketInventory.install_get, b.entries]
  cases hg : (OrdMap.empty.insertAll (t.outcomes.filterMap (·.write))).get? id with
  | none => exact absurd (List.mem_map_of_mem hw) (OrdMap.get?_insertAll_none.mp hg)
  | some y =>
      rw [honce y (OrdMap.mem_of_get?_insertAll hg)]
      rfl

/-- Where nothing is planned the entry stays. -/
theorem BatchParts.get_unwritten (b : BatchParts row inv event es t)
    (hno : ∀ x, (id, x) ∉ t.writes) :
    (inv.install t.plannedEntries t.plannedConflicts).get id = inv.get id := by
  rw [MarketInventory.install_get, b.entries, OrdMap.get?_insertAll_none.mpr]
  · rfl
  · intro hm
    obtain ⟨⟨j, x⟩, hx, rfl⟩ := List.mem_map.mp hm
    exact hno x hx

/-- What a verdict writes is planned by the transaction. -/
theorem BatchParts.writes_mem (b : BatchParts row inv event es t)
    {a : ExecutionEvidence × PreCore} (ha : a ∈ (adjudicate row inv es).1)
    (hw : (settle (batchSettlement row inv (adjudicate row inv es).2 b.core) a).1.write =
      some (id, x)) : (id, x) ∈ t.writes := by
  rw [ExecutionTransaction.writes, b.outcomes, List.map_map, List.filterMap_map]
  exact List.mem_filterMap.mpr ⟨a, ha, hw⟩

/-- The entry of an admitted evidence: as it was staged, and the order's once the order has booked the
fill. -/
theorem BatchParts.get_admitted (b : BatchParts row inv event es t)
    (h : Admits row inv (adjudicate row inv es).1 (adjudicate row inv es).2 e s) :
    ∃ p, (inv.install t.plannedEntries t.plannedConflicts).get e.executionId = some p ∧
      Settles s p ∧
      p.owner = if b.ctxAfter.appliedFills.contains e.executionId then some row.ctx.clientOrderId
        else (inv.get e.executionId).bind (·.owner) := by
  obtain ⟨s₀, hm⟩ := h.admitted
  let st := batchSettlement row inv (adjudicate row inv es).2 b.core
  obtain ⟨p, hentry⟩ : ∃ p, (settleAdmitted st e s₀).2.or (inv.get e.executionId) = some p ∧
      Settles s p ∧ p.owner = st.ownerAfter e.executionId := settleAdmitted_entry h.staged h.fits
  have hwrite := settle_write st (e, .admitted s₀)
  rw [settle_evidence] at hwrite
  cases hplan : (settle st (e, .admitted s₀)).2 with
  | some x =>
      have hx : (e.executionId, x) ∈ t.writes := b.writes_mem hm (by rw [← hwrite, hplan]; rfl)
      rw [b.get_write (fun y hy => b.writes_once (.inl h.own) hy hx) hx]
      rw [show (settleAdmitted st e s₀).2 = some x from hplan] at hentry
      exact ⟨p, hentry⟩
  | none =>
      rw [b.get_unwritten fun x hx => ?_]
      · rw [show (settleAdmitted st e s₀).2 = none from hplan] at hentry
        exact ⟨p, hentry⟩
      · -- the execution is claimed once, by a verdict that writes nothing
        obtain ⟨a, ha, hof, hw⟩ := b.writeOf hx
        have hsame : a = (e, .admitted s₀) := by
          by_contra hne
          have := apart_symm
          exact List.Pairwise.forall (adjudicate_judged row inv es).apart ha hm hne
            (hof.claims (.inl h.own)) rfl hof.key.symm
        rw [hsame, ← hwrite, hplan] at hw
        cases hw

/-- What a refusal writes leaves the owner. -/
theorem settle_refused_owner {st : Settlement} {od : OrderDisposition} {i : InventoryDisposition}
    {ea : Option InventoryEntry} {cf : Option ConflictFact} (hp : Passes row inv e i ea cf)
    (h : (settle st (e, .refused od i ea cf)).1.write = some (id, x)) :
    id = e.executionId ∧ x.owner = (inv.get id).bind (·.owner) := by
  rw [← settle_write] at h
  obtain ⟨entry, hentry, heq⟩ := Option.map_eq_some_iff.mp h
  rw [settle_evidence] at heq
  obtain ⟨rfl, rfl⟩ := Prod.mk.inj heq
  refine ⟨rfl, ?_⟩
  simp only [settle] at hentry
  split at hentry
  · rename_i hw
    cases hea : ea with
    | none =>
        unfold publishStaged at hentry
        split at hentry <;> simp [hea] at hentry
    | some y =>
        have hy := (hp.entry hw y hea).2
        unfold publishStaged at hentry
        split at hentry
        · rw [hea] at hentry
          cases hentry
          exact hy
        · rw [hea] at hentry
          cases hentry
          exact hy
  · cases hentry

/-- Elsewhere the entry says no less, and its owner stays. -/
theorem BatchParts.get_other (b : BatchParts row inv event es t)
    (h : ∀ e s₀, (e, .admitted s₀) ∈ (adjudicate row inv es).1 → e.executionId ≠ id) :
    (∀ p, inv.get id = some p →
      ∃ p', (inv.install t.plannedEntries t.plannedConflicts).get id = some p' ∧ Extends p p') ∧
    ((inv.install t.plannedEntries t.plannedConflicts).get id).bind (·.owner) =
      (inv.get id).bind (·.owner) := by
  rw [MarketInventory.install_get, b.entries]
  cases hg : (OrdMap.empty.insertAll (t.outcomes.filterMap (·.write))).get? id with
  | none => exact ⟨fun p hp => ⟨p, hp, .refl p⟩, rfl⟩
  | some x =>
      obtain ⟨a, ha, hof, hw⟩ := b.writeOf (OrdMap.mem_of_get?_insertAll hg)
      refine ⟨fun p hp => ⟨x, rfl, hof.extends_ p hp⟩, ?_⟩
      obtain ⟨e, pc⟩ := a
      cases pc with
      | ignoredZero => cases hw
      | admitted s₀ => exact absurd hof.key.symm (h e s₀ ha)
      | refused od i ea cf =>
          exact (settle_refused_owner ((adjudicate_judged row inv es).refused e od i ea cf ha) hw).2

end Omsrs.Execution
