import Omsrs.Observation.Desk
import Omsrs.Observation.Lemmas.Shell

/-!
# What a step of the desk can do

A step of the desk is one of the shell, or only moves its rounds, or applies a transaction that waits. What
waits was finished over some state before; it is taken only by the members it was finished over.
-/

namespace Omsrs.Observation
open Omsrs.Lib Omsrs.Lifecycle Omsrs.Execution

variable {r r' : WireRegistry} {inv : MarketInventory} {l : LedgerId} {w : VenueOrderId}

/-! ## Applying what was prepared before -/

/-- A transaction is taken by the rows it was prepared from, at its two generations. -/
structure Taken (t : ObservationTransaction) (targets : List OrderRow) (r : WireRegistry)
    (inv : MarketInventory) (rows : List OrderRow) (r' : WireRegistry) : Prop where
  prepared : ∀ target ∈ targets, target ∈ t.preparedMembers
  inventoryGeneration : inv.generation = t.expectedInventoryGeneration
  wireGeneration : r.marker t.ledger t.wire = t.expectedWireGeneration
  rows : rows = targets.map t.advance
  registry : r' = r.set t.ledger t.wire t.wireAfter

namespace ObservationTransaction

theorem checkTargets_ok {t : ObservationTransaction} {found : List ClientOrderId}
    {targets : List OrderRow} (h : t.checkTargets found targets = .ok ()) :
    ∀ target ∈ targets, target ∈ t.preparedMembers := by
  induction targets with
  | nil => simp
  | cons target targets ih =>
      simp only [checkTargets] at h
      split at h
      · cases h
      · rename_i prepared hfind
        split at h
        · cases h
        · rename_i hcheck
          intro x hx
          rcases List.mem_cons.mp hx with rfl | hx
          · rw [checkTarget_ok hcheck]
            exact List.mem_of_find?_eq_some hfind
          · exact ih h x hx

theorem apply_ok {t : ObservationTransaction} {targets rows : List OrderRow} {outcome : ObservationOutcome}
    (h : t.apply targets r inv = .ok (outcome, rows, r')) : Taken t targets r inv rows r' := by
  simp only [apply] at h
  split at h
  · cases h
  · obtain ⟨u, hu, h⟩ := exceptBind_ok.mp h
    split at h
    · cases h
    · rename_i hinv
      split at h
      · cases h
      · rename_i hgen
        cases h
        exact ⟨checkTargets_ok hu, not_not.mp hinv, not_not.mp hgen, rfl, rfl⟩

end ObservationTransaction

namespace WireRegistry

/-- A proof that is applied is the one that would be prepared now. -/
theorem applyOrderStateResting_ok {t : OrderStateTxnRecord}
    (h : r.applyOrderStateResting t inv = .ok r') :
    r.prepareOrderStateResting t.ledger t.wire inv = .ok t ∧ r' = r.set t.ledger t.wire t.wireAfter := by
  simp only [applyOrderStateResting] at h
  split at h
  · cases h
  · obtain ⟨fresh, hfresh, h⟩ := exceptBind_ok.mp h
    split at h
    · cases h
    · rename_i heq
      cases h
      exact ⟨by rw [hfresh, not_not.mp heq], rfl⟩

theorem applyRestOrderProof_ok {t : RestOrderProofTxnRecord} (h : r.applyRestOrderProof t inv = .ok r') :
    r.prepareRestOrderProof t.ledger t.wire t.clientOrderId t.filled t.remaining t.initial inv = .ok t ∧
      r' = r.set t.ledger t.wire t.wireAfter := by
  simp only [applyRestOrderProof] at h
  split at h
  · cases h
  · obtain ⟨fresh, hfresh, h⟩ := exceptBind_ok.mp h
    split at h
    · cases h
    · rename_i heq
      cases h
      exact ⟨by rw [hfresh, not_not.mp heq], rfl⟩

end WireRegistry

/-! ## Steps -/

/-- The step the shell itself takes in an action. -/
def DeskAction.shellAct : DeskAction → Option ShellAction
  | .shell act => some act
  | .applyOrderState t => some (.orderState t.ledger t.wire)
  | .applyRestProof t =>
      some (.restProof t.ledger t.wire t.clientOrderId t.filled t.remaining t.initial)
  | _ => none

/-- The round of a transaction is finished over the state of the desk. -/
def FinishedNow (d : Desk) (x : Waiting) : Prop :=
  ∃ (round : ObservationRound) (keys : List OrderKey) (rows : List OrderRow) (ev : RowEvidence),
    keys.mapM d.shell.orders.get? = some rows ∧
      round.finish d.shell.registry (d.shell.inventory round.ledger) rows ev = .ok x.txn

/-- What a step of the desk does. -/
inductive Turned (d : Desk) (a : DeskAction) : Desk → Prop
  | acted {act : ShellAction} {stamps : OrdMap WireKey Nat} (ha : a.shellAct = some act) :
      Turned d a ⟨(shell.step d.shell act).2, d.rounds, d.waiting, stamps⟩
  | arranged {rounds : List OpenRound} {waiting : List Waiting}
      (hw : ∀ x ∈ waiting, x ∈ d.waiting ∨ x.finished = d.now ∧ FinishedNow d x) :
      Turned d a ⟨d.shell, rounds, waiting, d.stamps⟩
  | applied {i : Nat} {x : Waiting} {keys : List OrderKey} {rows rows' : List OrderRow}
      {r' : WireRegistry} {s' : Shell} {waiting : List Waiting} {stamps : OrdMap WireKey Nat}
      (ha : a = .apply i keys) (hx : d.waiting[i]? = some x)
      (hrows : keys.mapM d.shell.orders.get? = some rows)
      (ht : Taken x.txn rows d.shell.registry (d.shell.inventory x.txn.ledger) rows' r')
      (hc : Closed d.shell x.txn.ledger x.txn.wire keys x.txn s')
      (hw : ∀ y ∈ waiting, y ∈ d.waiting) : Turned d a ⟨s', d.rounds, waiting, stamps⟩

variable {d d' : Desk} {a : DeskAction}

/-- A proof that is applied is a step of the shell: the same is prepared and folded. -/
theorem proved_step (act : ShellAction) {rec : Record} {ws : WireState} (l : LedgerId) (w : VenueOrderId)
    (hfold : d.shell.registry.fold d.shell.journal.length rec = .ok (d.shell.registry.set l w ws))
    (hact : shell.step d.shell act = d.shell.append rec) :
    (d.proved rec (.ok (d.shell.registry.set l w ws))).2 =
      ⟨(shell.step d.shell act).2, d.rounds, d.waiting, d.stamps⟩ := by
  rw [hact, Shell.append_ok _ hfold]
  rfl

theorem Desk.step_turned (d : Desk) (a : DeskAction) : Turned d a (desk.step d a).2 := by
  have hidle : Turned d a d := .arranged fun x hx => .inl hx
  cases a with
  | shell act =>
      simp only [desk, step, Desk.act]
      cases act
      case observe => dsimp only; split <;> exact .acted rfl
      all_goals exact .acted rfl
  | begin l w => exact .arranged fun x hx => .inl hx
  | record i o =>
      simp only [desk, step, Desk.record]
      split
      · exact hidle
      · split
        · exact hidle
        · exact .arranged fun x hx => .inl hx
  | page i p =>
      simp only [desk, step, Desk.page]
      split
      · exact hidle
      · exact .arranged fun x hx => .inl hx
  | finish i keys ev =>
      simp only [desk, step, Desk.finish]
      split
      · exact hidle
      · rename_i x hx
        split
        · exact hidle
        · rename_i rows hrows
          split
          · exact .arranged fun x hx => .inl hx
          · rename_i t ht
            refine .arranged fun y hy => ?_
            rcases List.mem_append.mp hy with hy | hy
            · exact .inl hy
            · obtain rfl := List.mem_singleton.mp hy
              exact .inr ⟨rfl, x.round, keys, rows, ev, hrows, ht⟩
  | apply i keys =>
      simp only [desk, step, Desk.apply]
      split
      · exact hidle
      · rename_i x hx
        split
        · exact hidle
        · rename_i rows hrows
          split
          · exact .arranged fun y hy => .inl (List.mem_of_mem_eraseIdx hy)
          · rename_i o rows' r' happly
            have ht := ObservationTransaction.apply_ok happly
            refine .applied rfl hx hrows ht ⟨fun key => ?_, rfl, ht.registry, rfl⟩
              fun y hy => List.mem_of_mem_eraseIdx hy
            rw [observed, ht.rows]
            exact Shell.get?_writeBack hrows x.txn.advance key
  | applyOrderState t =>
      simp only [desk, step]
      cases h : d.shell.registry.applyOrderStateResting t (d.shell.inventory t.ledger) with
      | error err => exact hidle
      | ok r' =>
          obtain ⟨hprep, rfl⟩ := WireRegistry.applyOrderStateResting_ok h
          rw [proved_step (.orderState t.ledger t.wire) t.ledger t.wire rfl
            (by simp only [Observation.shell, Shell.step, hprep]; rfl)]
          exact .acted rfl
  | applyRestProof t =>
      simp only [desk, step]
      cases h : d.shell.registry.applyRestOrderProof t (d.shell.inventory t.ledger) with
      | error err => exact hidle
      | ok r' =>
          obtain ⟨hprep, rfl⟩ := WireRegistry.applyRestOrderProof_ok h
          rw [proved_step (.restProof t.ledger t.wire t.clientOrderId t.filled t.remaining t.initial)
            t.ledger t.wire rfl (by simp only [Observation.shell, Shell.step, hprep]; rfl)]
          exact .acted rfl

/-! ## What holds of every desk -/

/-- The shell is sound, and every transaction that waits was given by a round. -/
structure Desk.Orderly (d : Desk) : Prop where
  sound : Sound d.shell
  finished : ∀ x ∈ d.waiting, ∃ (round : ObservationRound) (r : WireRegistry) (inv : MarketInventory)
    (rows : List OrderRow) (ev : RowEvidence), round.finish r inv rows ev = .ok x.txn

theorem Desk.orderly_new : Desk.new.Orderly := ⟨Shell.sound_new, fun _ h => nomatch h⟩

/-- The rows a transaction is applied to are members of its round. -/
theorem Taken.succeeds {t : ObservationTransaction} {targets rows : List OrderRow}
    (h : Taken t targets r inv rows r')
    (hfin : ∃ (round : ObservationRound) (r : WireRegistry) (inv : MarketInventory)
      (rows : List OrderRow) (ev : RowEvidence), round.finish r inv rows ev = .ok t)
    {row : OrderRow} (hrow : row ∈ targets) : Succeeds row (t.advance row) := by
  obtain ⟨round, r₀, inv₀, rows₀, ev, hfin⟩ := hfin
  have hf := ObservationRound.finish_ok hfin
  have hmem := h.prepared row hrow
  rw [hf.prepared] at hmem
  exact (hf.became hmem).succeeds (closeMember_books ..).1

theorem Turned.orderly (h : Turned d a d') (hd : d.Orderly) : d'.Orderly := by
  cases h with
  | acted ha => exact ⟨step_sound hd.sound _, hd.finished⟩
  | arranged hw =>
      refine ⟨hd.sound, fun x hx => ?_⟩
      rcases hw x hx with hx | ⟨-, round, _, rows, ev, _, hfin⟩
      · exact hd.finished x hx
      · exact ⟨round, _, _, rows, ev, hfin⟩
  | applied ha hx hrows ht hc hw =>
      refine ⟨hd.sound.closed hc fun key hk row hrow => ?_, fun y hy => hd.finished y (hw y hy)⟩
      exact ht.succeeds (hd.finished _ (List.mem_of_getElem? hx)) (Shell.mem_rows_of_key hrows hk hrow)

theorem Desk.step_orderly (hd : d.Orderly) (a : DeskAction) : (desk.step d a).2.Orderly :=
  (d.step_turned a).orderly hd

end Omsrs.Observation
