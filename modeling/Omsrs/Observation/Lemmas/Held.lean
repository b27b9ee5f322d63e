import Mathlib.Algebra.Order.BigOperators.Group.List
import Mathlib.Data.List.Perm.Subperm
import Omsrs.Execution.Lemmas.Writes
import Omsrs.Observation.Lemmas.Shell

/-!
# The quantity a wire holds

The executions a wire holds, summed by the inventory. Inventories forget nothing and change no quantity, so
the sum only grows.
-/

namespace Omsrs.Observation
open Omsrs.Lib Omsrs.Lifecycle Omsrs.Execution

/-- The executed quantity of the executions a wire holds, exactly. -/
def heldSum (ws : WireState) (inv : MarketInventory) : Nat :=
  (ws.held.keys.map fun id => ((inv.get id).map (·.qty)).getD 0).sum

theorem heldQty_eq_min (ws : WireState) (inv : MarketInventory) :
    ws.heldQty inv = min (heldSum ws inv) u64Max := by
  rw [WireState.heldQty, heldSum]
  simpa only [Nat.zero_min, Nat.zero_add] using foldl_saturatingAdd u64Max _ 0

theorem checkedHeldQty_eq_some {ws : WireState} {inv : MarketInventory} {q : Nat}
    (h : ws.checkedHeldQty inv = some q) : heldSum ws inv = q := by
  have := (foldlM_checkedAdd (Nat.zero_le u64Max)).mp h
  rw [this.2, Nat.zero_add]
  rfl

/-- Every execution that is there stays, with its quantity. -/
def KeepsQty (inv inv' : MarketInventory) : Prop :=
  ∀ id p, inv.get id = some p → ∃ p', inv'.get id = some p' ∧ p'.qty = p.qty

theorem KeepsQty.refl (inv : MarketInventory) : KeepsQty inv inv := fun _ p h => ⟨p, h, rfl⟩

theorem heldSum_mono {ws ws' : WireState} {inv inv' : MarketInventory} (hinv : KeepsQty inv inv')
    (hheld : ∀ id, ws.held.contains id = true → ws'.held.contains id = true) :
    heldSum ws inv ≤ heldSum ws' inv' := by
  have hsub : ws.held.keys.Subperm ws'.held.keys := by
    refine List.Nodup.subperm ws.held.keys_nodup fun id hid => ?_
    rw [OrdMap.mem_keys, ← OrdMap.contains_iff] at hid ⊢
    exact hheld id hid
  have hle : heldSum ws inv ≤ heldSum ws inv' := by
    refine List.sum_le_sum fun id _ => ?_
    cases hp : inv.get id with
    | none => exact Nat.zero_le _
    | some p =>
        obtain ⟨p', hp', hq⟩ := hinv id p hp
        simp [hp', hq]
  refine hle.trans ?_
  obtain ⟨ids, hperm, hsubl⟩ := hsub
  rw [heldSum, heldSum, ← (hperm.map _).sum_eq]
  exact (hsubl.map _).sum_le_sum fun _ _ => Nat.zero_le _

theorem heldQty_mono {ws ws' : WireState} {inv inv' : MarketInventory} (hinv : KeepsQty inv inv')
    (hheld : ∀ id, ws.held.contains id = true → ws'.held.contains id = true) :
    ws.heldQty inv ≤ ws'.heldQty inv' := by
  rw [heldQty_eq_min, heldQty_eq_min]
  exact min_le_min_right _ (heldSum_mono hinv hheld)

/-! ## Folding the writes of a transaction -/

theorem hold_held (ws : WireState) (id : FillId) (entry : InventoryEntry) :
    (ws.hold id entry).held = ws.held.insert id () := by
  simp only [WireState.hold]
  split
  · split <;> rfl
  · rfl

/-- A wire comes to hold what is written under its name. -/
theorem foldExecutions_held (os : List ExecutionOutcome) (ledger l : LedgerId) (w : VenueOrderId)
    (ws : WireState) (id : FillId) :
    (os.foldl (WireState.foldExecution ledger l w) ws).held.contains id = true ↔
      ws.held.contains id = true ∨
        l = ledger ∧ ∃ x, (id, x) ∈ os.filterMap (·.write) ∧ x.venueOrderId = some w := by
  induction os generalizing ws with
  | nil => simp
  | cons o os ih =>
      rw [List.foldl_cons, ih]
      cases hw : o.write with
      | none => simp [WireState.foldExecution, hw]
      | some e =>
          obtain ⟨id', x'⟩ := e
          simp only [WireState.foldExecution, hw, List.filterMap_cons_some hw, List.mem_cons,
            Prod.mk.injEq]
          by_cases hx : l = ledger ∧ x'.venueOrderId = some w
          · rw [if_pos hx, hold_held, OrdMap.contains, OrdMap.get?_insert]
            by_cases hid : id = id'
            · simp only [hid, if_true, Option.isSome_some, true_or, true_iff]
              exact .inr ⟨hx.1, x', .inl ⟨trivial, rfl⟩, hx.2⟩
            · simp [hid, OrdMap.contains]
          · rw [if_neg hx]
            refine or_congr_right (and_congr_right fun hl => exists_congr fun x => ?_)
            refine and_congr_left fun hv => ?_
            constructor
            · exact .inr
            · rintro (⟨_, rfl⟩ | hm)
              · exact absurd ⟨hl, hv⟩ hx
              · exact hm

theorem foldPart_held (pos : Nat) (part : Option (OrderTxnRecord × OrderAfter)) (l : LedgerId)
    (w : VenueOrderId) (ws : WireState) : (foldPart pos part l w ws).held = ws.held := by
  cases part with
  | none => rfl
  | some x => exact (ws.foldOrder_sameEvidence pos x.1 l w).held

variable {s s' : Shell} {act : ShellAction}

theorem Moved.keepsQty (h : Moved s act s') (l : LedgerId) :
    KeepsQty (s.inventory l) (s'.inventory l) := by
  cases h with
  | @executed l' target t part _ hprep _ h =>
      rw [h.inventory]
      split
      · rename_i hl
        subst hl
        intro id p hp
        rw [MarketInventory.install_get, hprep.prepared.wellPlanned.entries]
        cases hy : (OrdMap.empty.insertAll (t.outcomes.filterMap (·.write))).get? id with
        | none => exact ⟨p, hp, rfl⟩
        | some y =>
            exact ⟨y, rfl, (hprep.prepared.extends_ (OrdMap.mem_of_get?_insertAll hy) hp).qty⟩
      · exact .refl _
  | observed _ _ _ _ h =>
      simp only [Shell.inventory, h.inventories]
      exact .refl _
  | _ => exact .refl _

end Omsrs.Observation
