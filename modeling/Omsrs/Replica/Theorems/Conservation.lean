import Omsrs.Replica.Lemmas.Exact
import Omsrs.Replica.Theorems.Interleaving

/-!
# Conservation in the replica broker

What a call leaves of quantities that add up. A cancellation of an open order and a modification of a
quantity break them, everything else keeps them.
-/

namespace Omsrs.Replica
open Omsrs.Lib

variable {uuid : Nat → String} {b b' : ReplicaBroker ℚ} {h : Handle}

/-- The quantities of every order add up. -/
def Balanced (b : ReplicaBroker ℚ) : Prop := ∀ h o, b.cell h = some o → o.Conserves

/-- The quantities of the calls are not negative. -/
def BrokerCall.Sound : BrokerCall ℚ → Prop
  | .orderPlace args => 0 ≤ ((args.get? "quantity").bind (·.asF64)).getD 0
  | _ => True

/-- A modification leaves the quantity of its order as it is, and a cancellation finds it done. -/
def Lawful (b : ReplicaBroker ℚ) : BrokerCall ℚ → Prop
  | .orderModify orderId args => ∀ h o, b.orders.get? orderId = some h → b.cell h = some o →
      VOrder.namedQuantity args o = o.quantity
  | .orderCancel orderId => ∀ h o, b.orders.get? orderId = some h → b.cell h = some o →
      o.isDone = true
  | _ => True

theorem lawful_orderModify (b : ReplicaBroker ℚ) (orderId : String) (args : Args ℚ) :
    (∀ h ∈ b.orders.get? orderId, ∀ o ∈ b.cell h, VOrder.namedQuantity args o = o.quantity) ↔
      Lawful b (.orderModify orderId args) :=
  ⟨fun hall h o hg hc => hall h hg o hc, fun hall h hg o hc => hall h o hg hc⟩

theorem lawful_orderCancel (b : ReplicaBroker ℚ) (orderId : String) :
    (∀ h ∈ b.orders.get? orderId, ∀ o ∈ b.cell h, o.isDone = true) ↔
      Lawful b (.orderCancel orderId) :=
  ⟨fun hall h o hg hc => hall h hg o hc, fun hall h hg o hc => hall h o hg hc⟩

instance : (call : BrokerCall ℚ) → Decidable call.Sound
  | .orderPlace args =>
      inferInstanceAs (Decidable (0 ≤ ((args.get? "quantity").bind (·.asF64)).getD 0))
  | .update _ | .orderModify _ _ | .orderCancel _ | .runFill => isTrue trivial

instance (b : ReplicaBroker ℚ) : (call : BrokerCall ℚ) → Decidable (Lawful b call)
  | .orderModify orderId args => decidable_of_iff _ (lawful_orderModify b orderId args)
  | .orderCancel orderId => decidable_of_iff _ (lawful_orderCancel b orderId)
  | .update _ | .orderPlace _ | .runFill => isTrue trivial

/-! ## Cells -/

theorem onCell_settles {f : VOrder ℚ → VOrder ℚ} (hb : Balanced b)
    (hf : ∀ o, b.cell h = some o → o.Settles (f o)) :
    Balanced (b.onCell h f) ∧ Frozen b (b.onCell h f) := by
  constructor
  · intro j o hj
    rw [ReplicaBroker.cell_onCell] at hj
    split at hj
    · rename_i he
      subst he
      obtain ⟨o', ho', rfl⟩ := Option.map_eq_some_iff.mp hj
      exact (hf o' ho').conserves
    · exact hb j o hj
  · intro j o hj hd
    rw [ReplicaBroker.cell_onCell]
    split
    · rename_i he
      subst he
      exact ⟨f o, by rw [hj]; rfl, (hf o hj).done hd⟩
    · exact ⟨o, hj, hd, rfl, rfl⟩

/-- An operation on one order keeps the balance exactly when it keeps that order's. -/
theorem onCell_balanced_iff {f : VOrder ℚ → VOrder ℚ} (hb : Balanced b) :
    Balanced (b.onCell h f) ↔ ∀ o, b.cell h = some o → (f o).Conserves := by
  constructor
  · intro hb' o ho
    refine hb' h _ ?_
    rw [ReplicaBroker.cell_onCell, if_pos rfl, ho]
    rfl
  · intro hf j o hj
    rw [ReplicaBroker.cell_onCell] at hj
    split at hj
    · rename_i he
      subst he
      obtain ⟨o', ho', rfl⟩ := Option.map_eq_some_iff.mp hj
      exact hf o' ho'
    · exact hb j o hj

/-- A new cell. -/
theorem append_settles {o : VOrder ℚ} (hb : Balanced b) (hcells : b'.cells = b.cells ++ [o])
    (ho : o.Conserves) : Balanced b' ∧ Frozen b b' := by
  have hcell : ∀ j, b'.cell j = (b.cells ++ [o])[j]? := fun j => by rw [ReplicaBroker.cell, hcells]
  constructor
  · intro j o' hj
    rw [hcell, List.getElem?_append] at hj
    split at hj
    · exact hb j o' hj
    · obtain rfl : o' = o := by
        have := List.mem_of_getElem? hj
        simpa using this
      exact ho
  · intro j o' hj hd
    have hlt : j < b.cells.length := ReplicaBroker.cell_isSome.mp (by rw [hj]; rfl)
    refine ⟨o', ?_, hd, rfl, rfl⟩
    rw [hcell, List.getElem?_append_left hlt]
    exact hj

theorem balanced_of_cells (hb : Balanced b) (hcells : b'.cells = b.cells) :
    Balanced b' ∧ Frozen b b' := by
  refine ⟨fun j o hj => hb j o ?_, Frozen.of_cells hcells⟩
  rwa [ReplicaBroker.cell, hcells] at hj

/-! ## Calls -/

theorem ofArgs_quantity {orderId : String} {args : Args ℚ} {o : VOrder ℚ}
    (h : VOrder.ofArgs orderId args = some o) :
    o.quantity = ((args.get? "quantity").bind (·.asF64)).getD 0 := by
  unfold VOrder.ofArgs at h
  obtain ⟨side, _, rfl⟩ := Option.map_eq_some_iff.mp h
  rfl

theorem orderPlace_balanced {args : Args ℚ} (hb : Balanced b)
    (hq : 0 ≤ ((args.get? "quantity").bind (·.asF64)).getD 0) {orderId : String}
    (h' : b.orderPlace orderId args = some (h, b')) : Balanced b' ∧ Frozen b b' := by
  unfold ReplicaBroker.orderPlace ReplicaBroker.place at h'
  obtain ⟨o, ho, hr⟩ := Option.map_eq_some_iff.mp h'
  have hu := VOrder.ofArgs_unfilled ho
  have hq' : 0 ≤ o.quantity := by
    rw [ofArgs_quantity ho, OrdMap.get?_erase, if_neg (by decide)]
    exact hq
  dsimp only at hr
  split at hr
  · cases hr
    exact append_settles hb (modify_last b.cells _) (hu.reject_conserves hq')
  · rename_i instrument _
    cases hr
    exact append_settles hb (modify_last b.cells _)
      ((hu.conserves hq').applyAsMarket instrument.lastPrice)

theorem runFills_balanced (fills : List (ReplicaFill ℚ)) (hb : Balanced b) :
    Balanced (ReplicaBroker.runFills fills b).2.2 ∧
      Frozen b (ReplicaBroker.runFills fills b).2.2 := by
  induction fills generalizing b with
  | nil => exact ⟨hb, .refl b⟩
  | cons fill fills ih =>
      cases hp : b.priceOf fill.order with
      | none =>
          rw [ReplicaBroker.runFills_none hp]
          exact ih hb
      | some lastPrice =>
          rw [ReplicaBroker.runFills_some hp]
          obtain ⟨hcell, hfrozen⟩ := onCell_settles (h := fill.order) hb
            fun o ho => (hb _ o ho).applyFillUpdate lastPrice
          obtain ⟨hrest, hfrozen'⟩ := ih hcell
          exact ⟨hrest, hfrozen.trans hfrozen'⟩

theorem runFill_balanced (hb : Balanced b) : Balanced b.runFill ∧ Frozen b b.runFill := by
  obtain ⟨hcell, hfrozen⟩ := runFills_balanced b.fills hb
  obtain ⟨hsame, hfrozen'⟩ := (balanced_of_cells hcell rfl : Balanced b.runFill ∧ Frozen _ b.runFill)
  exact ⟨hsame, hfrozen.trans hfrozen'⟩

/-- A modification keeps the balance exactly when the quantity it names is the one it finds. -/
theorem orderModify_balanced_iff (hb : Balanced b) (orderId : String) (args : Args ℚ) :
    (Balanced (b.orderModify orderId args).2 ↔ Lawful b (.orderModify orderId args)) ∧
      (Lawful b (.orderModify orderId args) → Frozen b (b.orderModify orderId args).2) := by
  simp only [ReplicaBroker.orderModify]
  cases hg : b.orders.get? orderId with
  | none =>
      have hl : Lawful b (.orderModify orderId args) := fun h o hh => by
        rw [hg] at hh
        cases hh
      exact ⟨iff_of_true hb hl, fun _ => .refl b⟩
  | some handle =>
      have hl : Lawful b (.orderModify orderId args) ↔
          ∀ o, b.cell handle = some o → VOrder.namedQuantity args o = o.quantity := by
        refine ⟨fun hl o ho => hl handle o hg ho, fun hl j o hj => ?_⟩
        rw [hg] at hj
        cases hj
        exact hl o
      rw [hl]
      dsimp only
      constructor
      · rw [onCell_balanced_iff hb]
        exact forall₂_congr fun o ho => (hb handle o ho).modify_iff args
      · intro hkeep
        refine (onCell_settles hb fun o ho => ?_).2
        obtain ⟨hf, hp, hc⟩ := VOrder.modify_quantities args o
        exact (hb handle o ho).congr ((VOrder.modify_quantity args o).trans (hkeep o ho)) hf hp hc

/-- A cancellation keeps the balance exactly when it finds the order done. -/
theorem orderCancel_balanced_iff (hb : Balanced b) (orderId : String) :
    (Balanced (b.orderCancel orderId).2 ↔ Lawful b (.orderCancel orderId)) ∧
      (Lawful b (.orderCancel orderId) → Frozen b (b.orderCancel orderId).2) := by
  simp only [ReplicaBroker.orderCancel]
  cases hg : b.orders.get? orderId with
  | none =>
      have hl : Lawful b (.orderCancel orderId) := fun h o hh => by
        rw [hg] at hh
        cases hh
      exact ⟨iff_of_true hb hl, fun _ => .refl b⟩
  | some handle =>
      have hl : Lawful b (.orderCancel orderId) ↔ ∀ o, b.cell handle = some o → o.isDone = true := by
        refine ⟨fun hl o ho => hl handle o hg ho, fun hl j o hj => ?_⟩
        rw [hg] at hj
        cases hj
        exact hl o
      rw [hl]
      dsimp only
      split
      · rename_i hd
        have hdone : ∀ o, b.cell handle = some o → o.isDone = true := fun o ho => by
          simpa [ReplicaBroker.isDone, ho] using hd
        exact ⟨iff_of_true hb hdone, fun _ => .refl b⟩
      · rename_i hd
        have hcell : Balanced { b.onCell handle (·.cancel) with
            completed := ReplicaBroker.push (b.onCell handle (·.cancel)).completed handle } ↔
            Balanced (b.onCell handle (·.cancel)) :=
          ⟨fun h => (balanced_of_cells h rfl).1, fun h => (balanced_of_cells h rfl).1⟩
        constructor
        · rw [hcell, onCell_balanced_iff hb]
          refine forall₂_congr fun o ho => ?_
          have hopen : o.isDone = false := by simpa [ReplicaBroker.isDone, ho] using hd
          rw [hopen]
          exact iff_of_false ((hb handle o ho).not_cancel hopen) (by decide)
        · intro hdone j o hj hod
          by_cases he : handle = j
          · subst he
            exact absurd (hdone o hj) (by simpa [ReplicaBroker.isDone, hj] using hd)
          · refine ⟨o, ?_, hod, rfl, rfl⟩
            have hother : (b.onCell handle (·.cancel)).cell j = b.cell j := by
              rw [ReplicaBroker.cell_onCell, if_neg he]
            exact hother.trans hj

/-- A call keeps the balance exactly when it is lawful, and then keeps what is done. -/
theorem step_balanced (hb : Balanced b) (call : BrokerCall ℚ) (hc : call.Sound) :
    (Balanced ((replicaBroker uuid).step b call).2 ↔ Lawful b call) ∧
      (Lawful b call → Frozen b ((replicaBroker uuid).step b call).2) := by
  have trivially : ∀ {call : BrokerCall ℚ} {b' : ReplicaBroker ℚ}, Lawful b call →
      Balanced b' ∧ Frozen b b' → (Balanced b' ↔ Lawful b call) ∧ (Lawful b call → Frozen b b') :=
    fun hl h => ⟨iff_of_true h.1 hl, fun _ => h.2⟩
  cases call with
  | update instruments => exact trivially trivial (balanced_of_cells hb rfl)
  | orderPlace args =>
      simp only [replicaBroker, ReplicaBroker.step]
      cases hp : b.orderPlace (uuid b.cells.length) args with
      | none => exact trivially trivial ⟨hb, .refl b⟩
      | some r => exact trivially trivial (orderPlace_balanced hb hc hp)
  | orderModify orderId args => exact orderModify_balanced_iff hb orderId args
  | orderCancel orderId => exact orderCancel_balanced_iff hb orderId
  | runFill => exact trivially trivial (runFill_balanced hb)

end Omsrs.Replica
