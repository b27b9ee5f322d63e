import Omsrs.Execution.Lemmas.Settle
import Omsrs.Execution.Market

/-!
# Prepared transactions and the inventory they meet

The generation tells a stale transaction: below its cap, a transaction that is taken was prepared from
the very inventory it is applied to.
-/

namespace Omsrs.Execution
open Omsrs.Lib Omsrs.Lifecycle Omsrs.Observation

variable {t : ExecutionTransaction} {m : Market} {inv inv' : MarketInventory}
  {target row : Option OrderRow}

theorem checkTarget_ok {p r : OrderRow} (h : checkTarget p r = .ok ()) : r = p := by
  unfold checkTarget at h
  split at h
  · cases h
  · rename_i hl
    split at h
    · cases h
    · rename_i hc
      split at h
      · cases h
      · rename_i hs
        obtain ⟨l, ⟨c⟩, s, x⟩ := r
        obtain ⟨l', ⟨c'⟩, s', x'⟩ := p
        simp only [ne_eq, not_not, not_or] at hl hc hs
        rw [hl, hc, hs.1, hs.2]

/-- What a transaction that is taken has met, and what it leaves. -/
theorem apply_ok (h : t.apply target inv = .ok (row, inv')) :
    t.preparedOrder = target ∧ inv.ledger = t.preparedInventoryLedger ∧
      inv.generation = t.expectedGeneration ∧
      inv' = inv.install t.plannedEntries t.plannedConflicts ∧
      row = target.map (·.advance t.after) := by
  unfold ExecutionTransaction.apply at h
  split at h
  · cases h
  · rename_i hsome
    split at h
    · cases h
    · rename_i hl
      split at h
      · cases h
      · rename_i hg
        simp only [ne_eq, not_not] at hsome hl hg
        cases hp : t.preparedOrder with
        | none =>
            cases target with
            | none =>
                simp only [hp] at h
                cases h
                exact ⟨rfl, hl, hg, rfl, rfl⟩
            | some r => simp [hp] at hsome
        | some p =>
            cases target with
            | none => simp [hp] at hsome
            | some r =>
                simp only [hp, bind, Except.bind] at h
                split at h
                · cases h
                · rename_i hc
                  cases h
                  exact ⟨by rw [checkTarget_ok hc], hl, hg, rfl, rfl⟩

/-- A transaction that is applied to what it was prepared from is taken. -/
theorem apply_own {order : Option OrderRow} (hp : t.preparedOrder = order)
    (hl : t.preparedInventoryLedger = inv.ledger) (hg : t.expectedGeneration = inv.generation) :
    t.apply order inv =
      .ok (order.map (·.advance t.after), inv.install t.plannedEntries t.plannedConflicts) := by
  subst hp
  unfold ExecutionTransaction.apply
  cases hp : t.preparedOrder with
  | none => simp [hl, hg]
  | some r => simp [hl, hg, checkTarget, bind, Except.bind]

/-! ## The transactions in flight -/

/-- The market of `ledger`: every transaction in flight was prepared from an earlier inventory. -/
structure Current (ledger : LedgerId) (m : Market) : Prop where
  ledger : m.inventory.ledger = ledger
  word : m.inventory.generation ≤ u64Max
  pending : ∀ t ∈ m.pending, ∃ inv order, Prepared inv order t ∧
    Since u64Max (·.generation) inv m.inventory

theorem current_new (ledger : LedgerId) : Current ledger (.new ledger) :=
  ⟨rfl, Nat.zero_le _, fun _ h => (nomatch h)⟩

theorem keep_current {ledger : LedgerId} {r : Except PrepareError ExecutionTransaction}
    (h : Current ledger m) (hr : ∀ t, r = .ok t → ∃ order, Prepared m.inventory order t) :
    Current ledger (m.keep r).2 := by
  cases r with
  | error err => exact h
  | ok t =>
      refine ⟨h.ledger, h.word, fun t' ht' => ?_⟩
      rcases List.mem_append.mp ht' with ht' | ht'
      · exact h.pending t' ht'
      · obtain rfl := List.mem_singleton.mp ht'
        obtain ⟨order, hp⟩ := hr t' rfl
        exact ⟨m.inventory, order, hp, .refl _⟩

/-- The applied transaction leaves the pool, and what stays was prepared before its change. -/
theorem applyPending_current {ledger : LedgerId} (h : Current ledger m) (i : Nat)
    (target : Option OrderRow) : Current ledger (m.applyPending i target).2 := by
  unfold Market.applyPending
  split
  · exact h
  · rename_i t ht
    dsimp only
    have hrest : ∀ t' ∈ m.pending.eraseIdx i, t' ∈ m.pending := fun t' ht' =>
      List.mem_of_mem_eraseIdx ht'
    split
    · exact ⟨h.ledger, h.word, fun t' ht' => h.pending t' (hrest t' ht')⟩
    · rename_i row inv' ha
      obtain ⟨_, _, _, rfl, _⟩ := apply_ok ha
      refine ⟨(MarketInventory.install_ledger _ _).trans h.ledger, ?_, fun t' ht' => ?_⟩
      · rw [MarketInventory.install_generation _ _ h.word]
        exact Nat.min_le_right _ _
      · obtain ⟨inv, order, hp, hs⟩ := h.pending t' (hrest t' ht')
        exact ⟨inv, order, hp, hs.trans (MarketInventory.install_since _ _ h.word)⟩

theorem step_current {ledger : LedgerId} (h : Current ledger m) (a : MarketAction) :
    Current ledger (market.step m a).2 := by
  cases a with
  | prepare order e => exact keep_current h fun t ht => ⟨order, .single ht⟩
  | prepareBatch order event es => exact keep_current h fun t ht => ⟨some order, .batch ht⟩
  | apply i target => exact applyPending_current h i target
  | append r => exact ⟨h.ledger, h.word, h.pending⟩

/-- Below the cap a transaction that is taken was prepared from what it is applied to. -/
theorem Current.prepared {ledger : LedgerId} (h : Current ledger m) {i : Nat}
    (ht : m.pending[i]? = some t) (ha : t.apply target m.inventory = .ok (row, inv'))
    (hg : m.inventory.generation < u64Max) : Prepared m.inventory target t := by
  obtain ⟨hp, _, hgen, _, _⟩ := apply_ok ha
  obtain ⟨inv, order, hprep, hs⟩ := h.pending t (List.mem_of_getElem? ht)
  obtain rfl : order = target := hprep.preparedOrder.symm.trans hp
  have hsame : m.inventory = inv := hs.same (hgen.trans hprep.wellPlanned.generation) hg
  rw [hsame]
  exact hprep

end Omsrs.Execution
