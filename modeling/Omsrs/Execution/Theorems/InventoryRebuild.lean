import Omsrs.Execution.Lemmas.Market

/-!
# The journal rebuilds the inventory

Every transaction that is taken installs its plan; its record replays to the same inventory. The
generation is what keeps a stale transaction out, so the result stops where it saturates.
-/

namespace Omsrs.Execution
open Omsrs.Lib Omsrs.Lifecycle Omsrs.Observation

/-- The journal so far folds to the inventory, and what the fold counts as ingested is there. -/
def Rebuilt (ledger : LedgerId) (m : Market) : Prop :=
  ∃ ingested : FillSet,
    m.journal.foldlM MarketInventory.replayRecord (.new ledger, .empty) = .ok (m.inventory, ingested) ∧
      ∀ id, ingested.contains id = true → (m.inventory.get id).isSome = true

def ownExecution (ledger : LedgerId) : Record → Bool
  | .executionTxn txn => decide (txn.ledger = ledger)
  | _ => false

/-- What is asked of a step: the records of something else are no execution records of this ledger, and
a transaction is applied below the cap of the generation. -/
def Regular (ledger : LedgerId) (m : Market) : MarketAction → Prop
  | .apply _ _ => m.inventory.generation < u64Max
  | .append r => ownExecution ledger r = false
  | .prepare _ _ | .prepareBatch _ _ _ => True

instance (ledger : LedgerId) (m : Market) (a : MarketAction) : Decidable (Regular ledger m a) := by
  cases a <;> unfold Regular <;> infer_instance

variable {ledger : LedgerId} {m : Market} {t : ExecutionTransaction}

theorem replayRecord_passes {acc : MarketInventory × FillSet} {r : Record}
    (h : ownExecution acc.1.ledger r = false) : MarketInventory.replayRecord acc r = .ok acc := by
  cases r <;> simp_all [MarketInventory.replayRecord, ownExecution]

theorem rebuilt_new (ledger : LedgerId) : Rebuilt ledger (.new ledger) :=
  ⟨.empty, rfl, fun _ h => (nomatch h)⟩

theorem Rebuilt.append {r : Record} (h : Rebuilt ledger m) (hl : m.inventory.ledger = ledger)
    (hr : ownExecution ledger r = false) :
    Rebuilt ledger { m with journal := m.journal ++ [r] } := by
  obtain ⟨ingested, hf, hin⟩ := h
  refine ⟨ingested, ?_, hin⟩
  rw [List.foldlM_append, hf]
  simp only [bind, Except.bind, List.foldlM_cons, List.foldlM_nil]
  rw [replayRecord_passes (by rw [hl]; exact hr)]
  rfl

/-- A transaction prepared from the inventory itself. -/
theorem Rebuilt.install {pending : List ExecutionTransaction} (h : Rebuilt ledger m)
    (hc : Current ledger m) (ht : WellPlanned m.inventory t) :
    Rebuilt ledger ⟨m.inventory.install t.plannedEntries t.plannedConflicts, pending,
      m.journal ++ t.journal.toList⟩ := by
  obtain ⟨ingested, hf, hin⟩ := h
  have hget : ∀ id, (m.inventory.get id).isSome = true →
      ((m.inventory.install t.plannedEntries t.plannedConflicts).get id).isSome = true := by
    intro id hid
    rw [MarketInventory.install_get]
    cases t.plannedEntries.get? id <;> simp [hid]
  rcases ht.journaled with ⟨hj, hw, hcf⟩ | ⟨part, hj⟩
  · have hinst : m.inventory.install t.plannedEntries t.plannedConflicts = m.inventory := by
      rw [ht.entries, ht.conflicts, hw, hcf]
      rfl
    refine ⟨ingested, ?_, fun id hid => hget id (hin id hid)⟩
    rw [hj, hinst, Option.toList_none, List.append_nil]
    exact hf
  · have hfresh : ∀ id ∈ ingestedIds t.outcomes, ingested.contains id = false := by
      intro id hid
      by_contra hcon
      have := hin id (by simpa using hcon)
      rw [ht.fresh id hid] at this
      cases this
    obtain ⟨ingested', hr, hin'⟩ := @MarketInventory.replayTxn_eq_install m.inventory ingested
      ⟨m.inventory.ledger, m.inventory.generation, t.outcomes, part⟩ _ _ hc.word rfl rfl ht.once hfresh
    refine ⟨ingested', ?_, ?_⟩
    · rw [hj, List.foldlM_append, hf]
      simp only [bind, Except.bind, Option.toList_some, List.foldlM_cons, List.foldlM_nil,
        MarketInventory.replayRecord, ne_eq, not_true_eq_false, ↓reduceIte]
      rw [hr, ht.entries, ht.conflicts]
      rfl
    · intro id hid
      rcases hin' id hid with hid | hid
      · exact hget id (hin id hid)
      · rw [MarketInventory.install_get, ht.entries]
        cases hg : (OrdMap.empty.insertAll (t.outcomes.filterMap (·.write))).get? id with
        | none => exact absurd hid (OrdMap.get?_insertAll_none.mp hg)
        | some e => rfl

/-- One regular step keeps the journal and the inventory together. -/
theorem step_rebuilt (hc : Current ledger m) (h : Rebuilt ledger m) {a : MarketAction}
    (ha : Regular ledger m a) : Rebuilt ledger (market.step m a).2 := by
  cases a with
  | prepare order e =>
      show Rebuilt ledger (m.keep _).2
      cases prepareExecution order m.inventory e <;> exact h
  | prepareBatch order event es =>
      show Rebuilt ledger (m.keep _).2
      cases prepareExecutionBatch order m.inventory event es <;> exact h
  | append r => exact h.append hc.ledger ha
  | apply i target =>
      show Rebuilt ledger (m.applyPending i target).2
      unfold Market.applyPending
      split
      · exact h
      · rename_i t ht
        dsimp only
        split
        · exact h
        · rename_i row inv' happ
          obtain ⟨_, _, _, rfl, _⟩ := apply_ok happ
          exact h.install hc (hc.prepared ht happ ha).wellPlanned

theorem run_rebuilt {actions : List MarketAction}
    (h : market.Always (Regular ledger) (.new ledger) actions) :
    Current ledger (market.final (.new ledger) actions) ∧
      Rebuilt ledger (market.final (.new ledger) actions) :=
  market.history_induction (P := fun _ m => Current ledger m ∧ Rebuilt ledger m) (w := [])
    (fun _ _ a hm ha => ⟨step_current hm.1 a, step_rebuilt hm.1 hm.2 ha⟩)
    ⟨current_new ledger, rebuilt_new ledger⟩ h

/-- In every run that applies its transactions below the cap of the generation, stale ones refused and
fresh ones taken, the journal rebuilds the inventory. -/
theorem inventory_rebuild_equals_live (ledger : LedgerId) (actions : List MarketAction)
    (h : market.Always (Regular ledger) (.new ledger) actions) :
    MarketInventory.rebuild ledger (market.final (.new ledger) actions).journal =
      .ok (market.final (.new ledger) actions).inventory := by
  obtain ⟨ingested, hf, _⟩ := (run_rebuilt h).2
  rw [MarketInventory.rebuild, hf]
  rfl

/-! ## The saturated generation -/

namespace Saturated

def theLedger : LedgerId := ⟨⟨"s"⟩, "M"⟩

def report (id : String) (qty : Nat) : ExecutionEvidence :=
  ⟨⟨"s"⟩, "M", ⟨id⟩, .buyYes, qty, 50, 0, none, none, none, .wsFill⟩

end Saturated

open Saturated in
theorem inventory_rebuild_equals_live_conflict :
    MarketInventory.rebuild theLedger (market.final (.new theLedger)
      [.prepare none (report "x" 1), .prepare none (report "x" 1), .apply 0 none, .apply 0 none,
        .append (.core .submitUnknown), .prepare none (report "x" 2), .apply 0 none]).journal =
      .ok (market.final (.new theLedger)
        [.prepare none (report "x" 1), .prepare none (report "x" 1), .apply 0 none, .apply 0 none,
          .append (.core .submitUnknown), .prepare none (report "x" 2), .apply 0 none]).inventory :=
  inventory_rebuild_equals_live theLedger _ (by decide)

namespace Saturated

def entryX : InventoryEntry :=
  ⟨.buyYes, 1, 50, 0, none, none, none, none, .wsFill, .noRow⟩

def factX : ConflictFact := ⟨⟨"x"⟩, .core, .entry entryX, report "x" 2⟩

/-- The inventory after one execution and `n` conflicting reports of it. -/
def worn (n : Nat) : MarketInventory where
  ledger := theLedger
  generation := n + 1
  entries := OrdMap.empty.insert ⟨"x"⟩ entryX
  conflicts := if n = 0 then .empty else OrdMap.empty.insert ⟨"x"⟩ factX

/-- One execution is ingested, then reported again with another quantity `n` times. -/
def wear : Nat → List MarketAction
  | 0 => [.prepare none (report "x" 1), .apply 0 none]
  | n + 1 => wear n ++ [.prepare none (report "x" 2), .apply 0 none]

theorem adjudicate_conflict (n : Nat) :
    adjudicateNorow (worn n) (report "x" 2) =
      (⟨report "x" 2, .refused (.conflictingExecution .core), .conflict .core, some entryX,
        some factX⟩, [], [(⟨"x"⟩, factX)]) := rfl

theorem wear_round {n : Nat} (hn : n + 2 ≤ u64Max) (hi : m.inventory = worn n) (hp : m.pending = []) :
    (market.final m [.prepare none (report "x" 2), .apply 0 none]).inventory = worn (n + 1) ∧
      (market.final m [.prepare none (report "x" 2), .apply 0 none]).pending = [] := by
  obtain ⟨inv, pending, journal⟩ := m
  obtain rfl : inv = worn n := hi
  obtain rfl : pending = [] := hp
  have hl : evidenceLedger (report "x" 2) = (worn n).ledger := rfl
  simp only [Machine.final_cons, Machine.final_nil, market, Market.step, prepareExecution,
    prepareExecutionNorow, hl, ne_eq, not_true_eq_false, ↓reduceIte, adjudicate_conflict, Market.keep,
    Market.applyPending, List.nil_append, List.getElem?_cons_zero, ExecutionTransaction.apply,
    Option.isSome_none, List.eraseIdx_cons_zero, and_true]
  have hins : (worn n).install (OrdMap.empty.insertAll []) (OrdMap.empty.insertAll [(⟨"x"⟩, factX)]) =
      (worn n).insertConflict (⟨"x"⟩, factX) := rfl
  have hg : saturatingAdd u64Max (n + 1) 1 = n + 2 := by simp only [saturatingAdd]; omega
  have hconf : (if n = 0 then (.empty : OrdMap FillId ConflictFact) else
      OrdMap.empty.insert ⟨"x"⟩ factX).insert ⟨"x"⟩ factX = OrdMap.empty.insert ⟨"x"⟩ factX := by
    split
    · rfl
    · exact OrdMap.insert_insert _ _ _ _
  rw [hins]
  simp only [MarketInventory.insertConflict, worn, hg, hconf, Nat.add_eq_zero_iff, one_ne_zero,
    and_false, ↓reduceIte]

theorem wear_run (n : Nat) (hn : n + 1 ≤ u64Max) :
    market.Always (Regular theLedger) (.new theLedger) (wear n) ∧
      (market.final (.new theLedger) (wear n)).inventory = worn n ∧
      (market.final (.new theLedger) (wear n)).pending = [] := by
  induction n with
  | zero => exact ⟨by decide, rfl, rfl⟩
  | succ n ih =>
      obtain ⟨ha, hi, hp⟩ := ih (by omega)
      obtain ⟨hi', hp'⟩ := wear_round (by omega) hi hp
      refine ⟨(Machine.Always.append market).mpr ⟨ha, trivial, ?_, trivial⟩, ?_, ?_⟩
      · have hgen : (market.step (market.final (.new theLedger) (wear n))
            (.prepare none (report "x" 2))).2.inventory =
            (market.final (.new theLedger) (wear n)).inventory := by
          show (Market.keep _ _).2.inventory = _
          cases prepareExecution none (market.final (.new theLedger) (wear n)).inventory
            (report "x" 2) <;> rfl
        show (market.step _ _).2.inventory.generation < u64Max
        rw [hgen, hi]
        exact (show n + 1 < u64Max by omega)
      · rw [wear, Machine.final_append]
        exact hi'
      · rw [wear, Machine.final_append]
        exact hp'

def stale : List MarketAction :=
  [.prepare none (report "f" 1), .prepare none (report "f" 1), .apply 0 none, .apply 0 none]

/-- The record of both transactions of `stale`. -/
def ingestF (n : Nat) : ExecutionTxnRecord :=
  ⟨theLedger, n + 1,
    [⟨report "f" 1, .noRow, .ingested .noRow, some (entryOf (report "f" 1)), none⟩], none⟩
where
  entryOf (e : ExecutionEvidence) : InventoryEntry :=
    ⟨e.side, e.qty, e.priceCents, e.tsNs, none, none, none, none, e.source, .noRow⟩

theorem worn_get (n : Nat) : (worn n).get ⟨"f"⟩ = none := rfl

theorem adjudicate_new (n : Nat) :
    adjudicateNorow (worn n) (report "f" 1) =
      (⟨report "f" 1, .noRow, .ingested .noRow, some (ingestF.entryOf (report "f" 1)), none⟩,
        [(⟨"f"⟩, ingestF.entryOf (report "f" 1))], []) := by
  by_cases hn : n = 0 <;> simp only [adjudicateNorow, worn, hn, ↓reduceIte] <;> rfl

/-- At the cap both transactions are taken. -/
theorem stale_run {n : Nat} (hn : n + 1 = u64Max) (hi : m.inventory = worn n) (hp : m.pending = []) :
    market.outputs m stale = [.prepared, .prepared, .applied none, .applied none] ∧
      (market.final m stale).journal =
        m.journal ++ [.executionTxn (ingestF n), .executionTxn (ingestF n)] := by
  obtain ⟨inv, pending, journal⟩ := m
  obtain rfl : inv = worn n := hi
  obtain rfl : pending = [] := hp
  have hl : evidenceLedger (report "f" 1) = (worn n).ledger := rfl
  have hg : saturatingAdd u64Max u64Max 1 = u64Max := by simp only [saturatingAdd]; omega
  have hgen : ∀ e, ((worn n).install (OrdMap.empty.insertAll [e])
      (OrdMap.empty.insertAll [])).generation = n + 1 := fun e =>
    show saturatingAdd u64Max (n + 1) 1 = n + 1 by rw [hn, hg]
  have hled : (worn n).generation = n + 1 := rfl
  simp only [stale, Machine.final_cons, Machine.final_nil, Machine.outputs_cons, Machine.outputs_nil,
    market, Market.step, prepareExecution, prepareExecutionNorow, hl, ne_eq, not_true_eq_false,
    ↓reduceIte, adjudicate_new, Market.keep, Market.applyPending, List.nil_append, List.cons_append,
    List.getElem?_cons_zero, ExecutionTransaction.apply, Option.isSome_none, List.eraseIdx_cons_zero,
    true_and, MarketInventory.install_ledger, hgen, hled, executionJournal,
    InventoryDisposition.needsJournal, List.any_cons, Bool.true_or, Bool.or_true, Option.toList_some,
    List.append_assoc]
  rfl

/-- The second record of the same execution is a duplicate line. -/
theorem replay_twice {n : Nat} {ingested : FillSet} (h : ingested.contains ⟨"f"⟩ = false) :
    [Record.executionTxn (ingestF n), .executionTxn (ingestF n)].foldlM MarketInventory.replayRecord
      (worn n, ingested) = .error (.duplicateExecutionRecord ⟨"f"⟩) := by
  have hin : (ingested.insert ⟨"f"⟩ ()).contains ⟨"f"⟩ = true := by simp [OrdMap.contains]
  simp only [List.foldlM_cons, List.foldlM_nil, MarketInventory.replayRecord, worn, ingestF, ne_eq,
    not_true_eq_false, ↓reduceIte, MarketInventory.replayTxn, MarketInventory.Replay.outcome,
    MarketInventory.Replay.noteConflict, MarketInventory.Replay.noteIngested,
    MarketInventory.Replay.write, report, h, hin, Bool.false_eq_true, bind, Except.bind, pure,
    Except.pure]

theorem worn_out {n : Nat} (hn : n + 1 = u64Max) :
    market.outputs (market.final (.new theLedger) (wear n)) stale =
        [.prepared, .prepared, .applied none, .applied none] ∧
      MarketInventory.rebuild theLedger (market.final (.new theLedger) (wear n ++ stale)).journal =
        .error (.duplicateExecutionRecord ⟨"f"⟩) := by
  obtain ⟨ha, hi, hp⟩ := wear_run n (Nat.le_of_eq hn)
  obtain ⟨ingested, hf, hin⟩ := (run_rebuilt ha).2
  obtain ⟨ho, hj⟩ := stale_run hn hi hp
  have hnot : ingested.contains ⟨"f"⟩ = false := by
    by_contra hc
    have hget := hin ⟨"f"⟩ (by simpa using hc)
    rw [hi, worn_get] at hget
    cases hget
  refine ⟨ho, ?_⟩
  rw [MarketInventory.rebuild, Machine.final_append, hj, List.foldlM_append, hf, hi]
  simp only [bind, Except.bind]
  rw [replay_twice hnot]
  rfl

end Saturated

open Saturated in
/-- At the cap of the generation a stale transaction is taken, and its record is a duplicate line. -/
theorem inventory_rebuild_duplicates :
    market.outputs (market.final (.new theLedger) (wear (u64Max - 1))) stale =
        [.prepared, .prepared, .applied none, .applied none] ∧
      MarketInventory.rebuild theLedger
        (market.final (.new theLedger) (wear (u64Max - 1) ++ stale)).journal =
        .error (.duplicateExecutionRecord ⟨"f"⟩) :=
  worn_out (Nat.sub_add_cancel (Nat.sub_pos_of_lt (Nat.one_lt_two_pow (by decide))))

end Omsrs.Execution
