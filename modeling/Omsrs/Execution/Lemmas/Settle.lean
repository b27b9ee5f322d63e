import Omsrs.Execution.Lemmas.Adjudicate
import Omsrs.Execution.Lemmas.Install
import Omsrs.Lifecycle.Lemmas.Intake

/-!
# What a prepared transaction plans

The plan of a transaction is what its outcomes say, and what its outcomes say of an execution agrees
with what the order has booked of it.
-/

namespace Omsrs.Execution
open Omsrs.Lib Omsrs.Lifecycle Omsrs.Observation

variable {order : OrderRow} {inv : MarketInventory} {e : ExecutionEvidence}
  {σ : Staging} {pre : List (ExecutionEvidence × PreCore)} {st : Settlement}
  {event : OrderEvent} {es : List ExecutionEvidence} {t : ExecutionTransaction}

/-! ## The plan is what the outcomes say -/

theorem settle_evidence (st : Settlement) (a : ExecutionEvidence × PreCore) :
    (settle st a).1.evidence = a.1 := by
  obtain ⟨e, pc⟩ := a
  cases pc with
  | ignoredZero => rfl
  | refused od i ea cf => rfl
  | admitted s =>
      simp only [settle, settleAdmitted]
      split
      · rfl
      · split <;> rfl

theorem settle_write (st : Settlement) (a : ExecutionEvidence × PreCore) :
    (settle st a).2.map (fun entry => ((settle st a).1.evidence.executionId, entry)) =
      (settle st a).1.write := by
  obtain ⟨e, pc⟩ := a
  cases pc with
  | ignoredZero => rfl
  | refused od i ea cf =>
      cases hw : i.writes <;> simp [settle, ExecutionOutcome.write, hw]
  | admitted s =>
      simp only [settle, settleAdmitted]
      split
      · rfl
      · split <;> rfl

theorem settle_fact (st : Settlement) (a : ExecutionEvidence × PreCore) :
    (settle st a).1.fact =
      match a.2 with
      | .refused _ _ _ (some fact) => some (fact.executionId, fact)
      | _ => none := by
  obtain ⟨e, pc⟩ := a
  cases pc with
  | ignoredZero => rfl
  | refused od i ea cf => cases cf <;> rfl
  | admitted s =>
      simp only [settle, settleAdmitted]
      split
      · rfl
      · split <;> rfl

theorem plannedWrites_eq (st : Settlement) (pre : List (ExecutionEvidence × PreCore)) :
    plannedWrites (pre.map (settle st)) =
      ((pre.map (settle st)).map (·.1)).filterMap (·.write) := by
  rw [plannedWrites, List.filterMap_map, List.map_map, List.filterMap_map]
  exact List.filterMap_congr fun a _ => settle_write st a

theorem plannedFacts_eq (st : Settlement) (pre : List (ExecutionEvidence × PreCore)) :
    plannedFacts pre = ((pre.map (settle st)).map (·.1)).filterMap (·.fact) := by
  rw [plannedFacts, List.map_map, List.filterMap_map]
  exact List.filterMap_congr fun a _ => (settle_fact st a).symm

/-- An execution that is ingested is claimed, and was not in the inventory. -/
theorem settle_ingests {a : ExecutionEvidence × PreCore} (hst : st.inv = inv)
    (hr : ∀ od i ea cf, a.2 = .refused od i ea cf → Passes order inv a.1 i ea cf)
    (h : (settle st a).1.ingests = true) :
    a.2.claims = true ∧ inv.get a.1.executionId = none := by
  obtain ⟨e, pc⟩ := a
  cases pc with
  | ignoredZero => cases h
  | refused od i ea cf =>
      cases i with
      | ingested p => exact ⟨rfl, (hr od _ ea cf rfl).fresh ⟨p, rfl⟩⟩
      | _ => cases h
  | admitted s =>
      refine ⟨rfl, ?_⟩
      simp only [settle, settleAdmitted, hst] at h
      cases hp : inv.get e.executionId with
      | none => rfl
      | some p =>
          simp only [hp] at h
          split at h <;> cases h

theorem ingestedIds_nodup (h : Judged order inv pre σ) (hst : st.inv = inv) :
    (ingestedIds ((pre.map (settle st)).map (·.1))).Nodup := by
  rw [ingestedIds, List.Nodup, List.pairwise_map, List.pairwise_filter, List.pairwise_map,
    List.pairwise_map]
  refine h.apart.imp_of_mem fun {a b} ha hb hab hia hib => ?_
  rw [settle_evidence, settle_evidence]
  exact hab (settle_ingests hst (fun od i ea cf he => h.refused a.1 od i ea cf (he ▸ ha)) hia).1
    (settle_ingests hst (fun od i ea cf he => h.refused b.1 od i ea cf (he ▸ hb)) hib).1

theorem ingestedIds_fresh (h : Judged order inv pre σ) (hst : st.inv = inv) {id : FillId}
    (hid : id ∈ ingestedIds ((pre.map (settle st)).map (·.1))) : inv.get id = none := by
  simp only [ingestedIds, List.mem_map, List.mem_filter] at hid
  obtain ⟨o, ⟨⟨s, ⟨a, ha, rfl⟩, rfl⟩, hi⟩, rfl⟩ := hid
  rw [settle_evidence]
  exact (settle_ingests hst (fun od i ea cf he => h.refused a.1 od i ea cf (he ▸ ha)) hi).2

/-- What is not journaled says nothing. -/
theorem settle_silent {a : ExecutionEvidence × PreCore}
    (hr : ∀ od i ea cf, a.2 = .refused od i ea cf → Passes order inv a.1 i ea cf)
    (h : (settle st a).1.inventory.needsJournal = false) :
    (settle st a).1.write = none ∧ (settle st a).1.fact = none := by
  have hw : (settle st a).1.inventory.writes = false := by
    cases hi : (settle st a).1.inventory <;> simp_all [InventoryDisposition.writes,
      InventoryDisposition.needsJournal]
  refine ⟨by simp [ExecutionOutcome.write, hw], ?_⟩
  obtain ⟨e, pc⟩ := a
  rw [settle_fact]
  cases pc with
  | refused od i ea cf =>
      cases cf with
      | none => rfl
      | some c =>
          obtain ⟨cl, rfl⟩ := (hr od i ea (some c) rfl).marked rfl
          cases h
  | _ => rfl

/-- What every prepared transaction promises about its plan, its outcomes and its journal. -/
structure WellPlanned (inv : MarketInventory) (t : ExecutionTransaction) : Prop where
  ledger : t.preparedInventoryLedger = inv.ledger
  generation : t.expectedGeneration = inv.generation
  entries : t.plannedEntries = OrdMap.empty.insertAll (t.outcomes.filterMap (·.write))
  conflicts : t.plannedConflicts = OrdMap.empty.insertAll (t.outcomes.filterMap (·.fact))
  once : (ingestedIds t.outcomes).Nodup
  fresh : ∀ id ∈ ingestedIds t.outcomes, inv.get id = none
  journaled : (t.journal = none ∧ t.outcomes.filterMap (·.write) = [] ∧
      t.outcomes.filterMap (·.fact) = []) ∨
    ∃ part, t.journal = some (.executionTxn ⟨inv.ledger, inv.generation, t.outcomes, part⟩)

theorem executionJournal_cases {outcomes : List ExecutionOutcome} {part : Option OrderTxnRecord}
    (h : ∀ o ∈ outcomes, o.inventory.needsJournal = false → o.write = none ∧ o.fact = none) :
    (executionJournal inv outcomes part = none ∧ outcomes.filterMap (·.write) = [] ∧
        outcomes.filterMap (·.fact) = []) ∨
      ∃ part', executionJournal inv outcomes part =
        some (.executionTxn ⟨inv.ledger, inv.generation, outcomes, part'⟩) := by
  unfold executionJournal
  split
  · exact .inr ⟨part, rfl⟩
  · rename_i hn
    simp only [Bool.or_eq_true, List.any_eq_true, not_or, not_exists, not_and,
      Bool.not_eq_true] at hn
    exact .inl ⟨rfl, List.filterMap_eq_nil_iff.mpr fun o ho => (h o ho (hn.2 o ho)).1,
      List.filterMap_eq_nil_iff.mpr fun o ho => (h o ho (hn.2 o ho)).2⟩

/-! ## The transaction of a batch -/

/-- What the outcomes of a batch are settled with. -/
def batchSettlement (order : OrderRow) (inv : MarketInventory) (σ : Staging)
    (core : Option (TransitionOutcome × OrderCtx)) : Settlement where
  order := order
  inv := inv
  staging := σ
  ctxAfter := (core.map (·.2)).getD order.ctx
  batchOutcome := (core.map fun c => outcomeFromTransition c.1).getD .accept

/-- The parts of a prepared batch. -/
structure BatchParts (order : OrderRow) (inv : MarketInventory) (event : OrderEvent)
    (es : List ExecutionEvidence) (t : ExecutionTransaction) where
  core : Option (TransitionOutcome × OrderCtx)
  part : Option (OrderTxnRecord × OrderAfter)
  core_eq : core = batchCore order inv event (adjudicate order inv es).1 (adjudicate order inv es).2
  part_eq : orderPart order event core = .ok part
  outcomes : t.outcomes = ((adjudicate order inv es).1.map
    (settle (batchSettlement order inv (adjudicate order inv es).2 core))).map (·.1)
  journal : t.journal = executionJournal inv t.outcomes (part.map (·.1))
  ledger : t.preparedInventoryLedger = inv.ledger
  generation : t.expectedGeneration = inv.generation
  prepared : t.preparedOrder = some order
  after : t.after = part.map (·.2)
  entries : t.plannedEntries = OrdMap.empty.insertAll (t.outcomes.filterMap (·.write))
  conflicts : t.plannedConflicts = OrdMap.empty.insertAll (t.outcomes.filterMap (·.fact))

theorem prepareExecutionBatch_parts (h : prepareExecutionBatch order inv event es = .ok t) :
    Nonempty (BatchParts order inv event es t) := by
  simp only [prepareExecutionBatch, bind, Except.bind] at h
  split at h
  · cases h
  · split at h
    · cases h
    · split at h
      · cases h
      · rename_i part hpart
        cases h
        refine ⟨⟨_, part, rfl, hpart, rfl, rfl, rfl, rfl, rfl, rfl, ?_, ?_⟩⟩
        · exact congrArg _ (plannedWrites_eq _ _)
        · exact congrArg _ (plannedFacts_eq _ _)

/-- The checks before a batch is judged. -/
theorem prepared_checks (h : prepareExecutionBatch order inv event es = .ok t) :
    checkEvidenceMatchesFills event.fills es = .ok () ∧ checkBatchLedger inv es = .ok () := by
  simp only [prepareExecutionBatch, bind, Except.bind] at h
  split at h
  · cases h
  · rename_i hfills
    split at h
    · cases h
    · exact ⟨hfills, ‹_›⟩

/-- The effects of a prepared batch are those of the core. -/
theorem prepared_effects (h : prepareExecutionBatch order inv event es = .ok t) :
    t.effects = ((batchCore order inv event (adjudicate order inv es).1
      (adjudicate order inv es).2).map fun c => nonJournal c.1.effects).getD [] := by
  simp only [prepareExecutionBatch, bind, Except.bind] at h
  split at h
  · cases h
  · split at h
    · cases h
    · split at h
      · cases h
      · cases h
        rfl

/-- What the checks and the order part let through is prepared. -/
theorem prepareExecutionBatch_of_checks {part : Option (OrderTxnRecord × OrderAfter)}
    (hf : checkEvidenceMatchesFills event.fills es = .ok ()) (hl : checkBatchLedger inv es = .ok ())
    (hp : orderPart order event (batchCore order inv event (adjudicate order inv es).1
      (adjudicate order inv es).2) = .ok part) :
    ∃ t, prepareExecutionBatch order inv event es = .ok t := by
  simp only [prepareExecutionBatch, bind, Except.bind, hf, hl, hp]
  exact ⟨_, rfl⟩

theorem BatchParts.wellPlanned (b : BatchParts order inv event es t) : WellPlanned inv t := by
  have hj := adjudicate_judged order inv es
  refine ⟨b.ledger, b.generation, b.entries, b.conflicts, ?_, ?_, ?_⟩
  · rw [b.outcomes]
    exact ingestedIds_nodup hj rfl
  · rw [b.outcomes]
    exact fun id hid => ingestedIds_fresh hj rfl hid
  · rw [b.journal]
    refine executionJournal_cases fun o ho => ?_
    rw [b.outcomes, List.map_map, List.mem_map] at ho
    obtain ⟨a, ha, rfl⟩ := ho
    exact settle_silent fun od i ea cf he => hj.refused a.1 od i ea cf (he ▸ ha)

/-! ## Evidence without a row -/

/-- The plan of row-less evidence: it completes the entry, brings in an execution nobody owns, or
writes nothing. -/
theorem adjudicateNorow_spec (inv : MarketInventory) (e : ExecutionEvidence) :
    ∃ o, adjudicateNorow inv e = (o, o.write.toList, o.fact.toList) ∧
      o.evidence = e ∧ (o.ingests = true → inv.get e.executionId = none) ∧
      (o.inventory.needsJournal = false → o.write = none ∧ o.fact = none) ∧
      ∀ id entry, o.write = some (id, entry) → id = e.executionId ∧
        (∀ p, inv.get id = some p → Extends p entry) ∧
        entry.owner = (inv.get id).bind (·.owner) := by
  unfold adjudicateNorow
  dsimp only
  split
  · exact ⟨_, rfl, rfl, fun h => (nomatch h), fun _ => ⟨rfl, rfl⟩, fun _ _ h => (nomatch h)⟩
  · cases hp : inv.get e.executionId with
    | none =>
        refine ⟨_, rfl, rfl, fun _ => rfl, fun h => (nomatch h), fun id entry h => ?_⟩
        obtain ⟨rfl, rfl⟩ := Prod.mk.inj (Option.some.inj h)
        rw [hp]
        exact ⟨rfl, fun p h => (nomatch h), rfl⟩
    | some p =>
        dsimp only
        split
        · exact ⟨_, rfl, rfl, fun h => (nomatch h), fun h => (nomatch h), fun _ _ h => (nomatch h)⟩
        · split
          · exact ⟨_, rfl, rfl, fun h => (nomatch h), fun h => (nomatch h),
              fun _ _ h => (nomatch h)⟩
          · split
            · refine ⟨_, rfl, rfl, fun h => (nomatch h), fun h => (nomatch h), fun id entry h => ?_⟩
              obtain ⟨rfl, rfl⟩ := Prod.mk.inj (Option.some.inj h)
              rw [hp]
              refine ⟨rfl, fun p' hp' => ?_, rfl⟩
              obtain rfl := Option.some.inj hp'
              exact ⟨rfl, rfl, rfl, fun _ h => fillIn_eq_some h, fun _ h => fillIn_eq_some h⟩
            · exact ⟨_, rfl, rfl, fun h => (nomatch h), fun _ => ⟨rfl, rfl⟩,
                fun _ _ h => (nomatch h)⟩

theorem toList_eq_filterMap {α β : Type} (f : α → Option β) (a : α) :
    (f a).toList = [a].filterMap f := by
  cases h : f a <;> simp [h]

theorem prepareExecutionNorow_wellPlanned (h : prepareExecutionNorow inv e = .ok t) :
    WellPlanned inv t := by
  unfold prepareExecutionNorow at h
  split at h
  · cases h
  · obtain ⟨o, ho, he, hfresh, hsilent, _⟩ := adjudicateNorow_spec inv e
    rw [ho] at h
    cases h
    refine ⟨rfl, rfl, congrArg _ (toList_eq_filterMap _ o), congrArg _ (toList_eq_filterMap _ o),
      ?_, ?_, ?_⟩
    · dsimp only [ingestedIds, List.filter]
      split <;> simp
    · intro id hid
      simp only [ingestedIds, List.mem_map, List.mem_filter, List.mem_singleton] at hid
      obtain ⟨o', ⟨rfl, hi⟩, rfl⟩ := hid
      rw [he]
      exact hfresh hi
    · exact executionJournal_cases fun o' ho' => by
        obtain rfl := List.mem_singleton.mp ho'
        exact hsilent

/-- Whatever a transaction was prepared from. -/
inductive Prepared (inv : MarketInventory) : Option OrderRow → ExecutionTransaction → Prop
  | single {order : Option OrderRow} {e : ExecutionEvidence} {t : ExecutionTransaction}
      (h : prepareExecution order inv e = .ok t) : Prepared inv order t
  | batch {row : OrderRow} {event : OrderEvent} {es : List ExecutionEvidence}
      {t : ExecutionTransaction} (h : prepareExecutionBatch row inv event es = .ok t) :
      Prepared inv (some row) t

/-- A transaction comes from row-less evidence or from a batch. -/
theorem Prepared.cases {order : Option OrderRow} (h : Prepared inv order t) :
    (order = none ∧ ∃ e, prepareExecutionNorow inv e = .ok t) ∨
      ∃ row event es, order = some row ∧ prepareExecutionBatch row inv event es = .ok t := by
  cases h with
  | @single order e _ h =>
      cases order with
      | none => exact .inl ⟨rfl, e, h⟩
      | some row => exact .inr ⟨row, _, _, rfl, h⟩
  | @batch row event es _ h => exact .inr ⟨row, event, es, rfl, h⟩

theorem Prepared.wellPlanned {order : Option OrderRow} (h : Prepared inv order t) :
    WellPlanned inv t := by
  rcases h.cases with ⟨_, e, he⟩ | ⟨row, event, es, _, hb⟩
  · exact prepareExecutionNorow_wellPlanned he
  · obtain ⟨b⟩ := prepareExecutionBatch_parts hb
    exact b.wellPlanned

theorem Prepared.preparedOrder {order : Option OrderRow} (h : Prepared inv order t) :
    t.preparedOrder = order := by
  rcases h.cases with ⟨rfl, e, he⟩ | ⟨row, event, es, rfl, hb⟩
  · unfold prepareExecutionNorow at he
    split at he
    · cases he
    · cases he
      rfl
  · obtain ⟨b⟩ := prepareExecutionBatch_parts hb
    exact b.prepared

end Omsrs.Execution
