import Omsrs.Replica.Lemmas.Broker

/-!
# Fills and completed orders

An order leaves the fills when it is done and is put among the completed ones by whatever made it done.
The two conditions differ, so this is right only in the runs that keep clear of the difference.
-/

namespace Omsrs.Replica
open Omsrs.Lib

variable {F : Type} {uuid : Nat → String} {b : ReplicaBroker F} {h : Handle}

/-! ## What is kept -/

/-- Every handle is completed at most once, and is among the fills or completed. -/
def Tidy (b : ReplicaBroker F) : Prop :=
  b.completed.Nodup ∧ ∀ h, h < b.cells.length → h ∈ b.fillHandles ∨ h ∈ b.completed

/-- The handles, the ids and the cells belong together. -/
structure Booked (uuid : Nat → String) (b : ReplicaBroker F) : Prop where
  ids : ∀ h o, b.cell h = some o → o.orderId = uuid h
  orders : ∀ h, h < b.cells.length → b.orders.get? (uuid h) = some h
  known : ∀ id h, b.orders.get? id = some h → h < b.cells.length
  fills : ∀ h ∈ b.fillHandles, h < b.cells.length
  fillsOnce : b.fillHandles.Nodup
  completed : ∀ h ∈ b.completed, h < b.cells.length

theorem booked_new : Booked uuid (.new : ReplicaBroker F) :=
  ⟨fun _ _ h => by simp [ReplicaBroker.cell, ReplicaBroker.new] at h, fun _ h => (nomatch h),
    fun _ _ h => (nomatch h), fun _ h => (nomatch h), .nil, fun _ h => (nomatch h)⟩

/-! ## Calls that keep the handles -/

theorem Booked.onCell (hb : Booked uuid b) {f : VOrder F → VOrder F}
    (hf : ∀ o, (f o).orderId = o.orderId) : Booked uuid (b.onCell h f) := by
  have hl : (b.onCell h f).cells.length = b.cells.length := ReplicaBroker.onCell_length
  refine ⟨fun j o hj => ?_, fun j hj => hb.orders j (hl ▸ hj), fun id j hj => hl ▸ hb.known id j hj,
    fun j hj => hl ▸ hb.fills j hj, hb.fillsOnce, fun j hj => hl ▸ hb.completed j hj⟩
  rw [ReplicaBroker.cell_onCell] at hj
  split at hj
  · obtain ⟨o', ho', rfl⟩ := Option.map_eq_some_iff.mp hj
    rw [hf, hb.ids j o' ho']
  · exact hb.ids j o hj

theorem tidy_onCell {f : VOrder F → VOrder F} : Tidy (b.onCell h f) ↔ Tidy b := by
  simp only [Tidy, ReplicaBroker.onCell_length, ReplicaBroker.onCell_completed]
  rfl

/-- Pushing one handle. -/
theorem tidy_push (hb : Tidy b) (h : Handle) :
    Tidy { b with completed := ReplicaBroker.push b.completed h } ↔ h ∉ b.completed := by
  unfold Tidy ReplicaBroker.push
  dsimp only
  rw [List.nodup_append_comm, List.singleton_append, List.nodup_cons]
  constructor
  · exact fun ht => ht.1.1
  · intro hh
    refine ⟨⟨hh, hb.1⟩, fun j hj => ?_⟩
    exact (hb.2 j hj).imp_right (List.mem_append_left _)

variable [Quantity F]

/-- What a pass over the fills removes is done and completed, and nothing done is left. -/
def Cleared (before after : ReplicaBroker F) : Prop :=
  (∀ h ∈ after.fillHandles, after.isDone h = false) ∧
    ∀ h ∈ before.fillHandles, h ∉ after.fillHandles → h ∈ after.completed

/-- An open order that is canceled is not completed yet. In a pass over the fills the same is asked of
every order that is done or filled at the price of its instrument; one that has no price is completed
already, if it is done. -/
def Admissible (b : ReplicaBroker F) : BrokerCall F → Prop
  | .orderCancel orderId =>
      ∀ h, b.orders.get? orderId = some h → b.isDone h = false → h ∉ b.completed
  | .runFill => ∀ h ∈ b.fillHandles,
      (b.runsDone h = true → h ∉ b.completed) ∧
        (b.priceOf h = none → b.isDone h = true → h ∈ b.completed)
  | .update _ | .orderPlace _ | .orderModify _ _ => True

instance (b : ReplicaBroker F) (call : BrokerCall F) : Decidable (Admissible b call) := by
  cases call with
  | orderCancel orderId =>
      refine decidable_of_iff ((b.orders.get? orderId).all fun h =>
        b.isDone h || decide (h ∉ b.completed)) ?_
      unfold Admissible
      cases hget : b.orders.get? orderId <;> simp [hget, or_iff_not_imp_left]
  | _ => unfold Admissible; infer_instance

/-! ## Placing -/

section Place

variable {args : Args F} {o : VOrder F} {user : String}

omit [Quantity F] in
theorem register_booked (hu : Function.Injective uuid) (hb : Booked uuid b)
    (ho : o.orderId = uuid b.cells.length) : Booked uuid (b.register user o) := by
  have hcell : ∀ j, (b.register user o).cell j =
      if j = b.cells.length then some o else b.cell j := by
    intro j
    unfold ReplicaBroker.cell ReplicaBroker.register
    dsimp only
    rw [List.getElem?_append]
    split
    · rename_i hj
      rw [if_neg (Nat.ne_of_lt hj)]
    · rename_i hj
      split
      · simp [*]
      · rename_i hne
        have hlt : b.cells.length < j := Nat.lt_of_le_of_ne (Nat.not_lt.mp hj) (Ne.symm hne)
        rw [List.getElem?_eq_none (Nat.not_lt.mp hj), List.getElem?_eq_none]
        simp only [List.length_singleton]
        exact Nat.sub_pos_of_lt hlt
  have hlen : (b.register user o).cells.length = b.cells.length + 1 := by
    simp [ReplicaBroker.register]
  have hget : ∀ id, (b.register user o).orders.get? id =
      if id = uuid b.cells.length then some b.cells.length else b.orders.get? id := by
    intro id
    rw [← ho]
    exact OrdMap.get?_insert _ _ _ _
  refine ⟨fun j o' hj => ?_, fun j hj => ?_, fun id j hj => ?_, fun j hj => ?_, hb.fillsOnce,
    fun j hj => ?_⟩
  · rw [hcell] at hj
    split at hj
    · cases hj
      subst j
      exact ho
    · exact hb.ids j o' hj
  · rw [hget]
    split
    · rename_i he
      rw [hu he]
    · rename_i he
      rw [hlen] at hj
      exact hb.orders j (Nat.lt_of_le_of_ne (Nat.lt_succ_iff.mp hj) fun hj' => he (by rw [hj']))
  · rw [hlen]
    rw [hget] at hj
    split at hj
    · cases hj
      exact Nat.lt_succ_self _
    · exact Nat.lt_succ_of_lt (hb.known id j hj)
  · rw [hlen]
    exact Nat.lt_succ_of_lt (hb.fills j hj)
  · rw [hlen]
    exact Nat.lt_succ_of_lt (hb.completed j hj)

/-- Placing an order books it and keeps the rest tidy. -/
theorem orderPlace_spec (hu : Function.Injective uuid) (hb : Booked uuid b)
    {b' : ReplicaBroker F} (h' : b.orderPlace (uuid b.cells.length) args = some (h, b')) :
    Booked uuid b' ∧ (Tidy b → Tidy b') := by
  unfold ReplicaBroker.orderPlace ReplicaBroker.place at h'
  obtain ⟨o, ho, hr⟩ := Option.map_eq_some_iff.mp h'
  have hreg : Booked uuid (b.register (((args.get? "user").bind (·.asStr)).getD "default") o) :=
    register_booked hu hb (VOrder.ofArgs_orderId ho)
  have hnew : b.cells.length ∉ b.completed := fun hm => (hb.completed _ hm).false
  have hfresh : b.cells.length ∉ b.fillHandles := fun hm => (hb.fills _ hm).false
  have hlen : (b.register (((args.get? "user").bind (·.asStr)).getD "default") o).cells.length =
      b.cells.length + 1 := by simp [ReplicaBroker.register]
  dsimp only at hr
  split at hr
  · cases hr
    have hcell := hreg.onCell (h := b.cells.length) (f := (·.reject)) fun _ => rfl
    refine ⟨⟨hcell.ids, hcell.orders, hcell.known, hcell.fills, hcell.fillsOnce, fun j hj => ?_⟩,
      fun ht => ⟨?_, fun j hj => ?_⟩⟩
    · rcases List.mem_append.mp hj with hj | hj
      · exact hcell.completed j hj
      · rw [List.mem_singleton.mp hj]
        simp [hlen]
    · exact (List.nodup_append_comm.mp (List.nodup_cons.mpr ⟨hnew, ht.1⟩))
    · simp only [ReplicaBroker.onCell_length, hlen] at hj
      rcases Nat.lt_succ_iff_lt_or_eq.mp hj with hj | rfl
      · exact (ht.2 j hj).imp_right (List.mem_append_left _)
      · exact .inr (List.mem_append_right _ (List.mem_singleton.mpr rfl))
  · rename_i instrument _
    cases hr
    have hcell := hreg.onCell (h := b.cells.length) (f := (·.applyAsMarket instrument.lastPrice))
      fun o => (o.applyAsMarket_frame _).1
    have hfills : ∀ {j}, j ∈ b.fillHandles ++ [b.cells.length] → j < b.cells.length + 1 := by
      intro j hj
      rcases List.mem_append.mp hj with hj | hj
      · exact (hb.fills j hj).trans (Nat.lt_succ_self _)
      · rw [List.mem_singleton.mp hj]
        exact Nat.lt_succ_self _
    have hh : ∀ {b' : ReplicaBroker F} {fill : ReplicaFill F}, b'.fills = b.fills ++ [fill] →
        b'.fillHandles = b.fillHandles ++ [fill.order] := by
      intro b' fill he
      simp [ReplicaBroker.fillHandles, he]
    refine ⟨⟨hcell.ids, hcell.orders, hcell.known, fun j hj => ?_, ?_, hcell.completed⟩,
      fun ht => ⟨ht.1, fun j hj => ?_⟩⟩
    · rw [hh rfl] at hj
      simp only [ReplicaBroker.onCell_length, hlen]
      exact hfills hj
    · rw [hh rfl]
      exact List.nodup_append_comm.mp (List.nodup_cons.mpr ⟨hfresh, hb.fillsOnce⟩)
    · rw [hh rfl]
      simp only [ReplicaBroker.onCell_length, hlen] at hj
      rcases Nat.lt_succ_iff_lt_or_eq.mp hj with hj | rfl
      · exact (ht.2 j hj).imp_left (List.mem_append_left _)
      · exact .inl (List.mem_append_right _ (List.mem_singleton.mpr rfl))

end Place

/-! ## A pass over the fills -/

/-- The order is done after the pass. -/
def ReplicaBroker.leaves (b : ReplicaBroker F) (h : Handle) : Bool :=
  b.runsDone h || ((b.priceOf h).isNone && b.isDone h)

structure Ran (uuid : Nat → String) (b b' : ReplicaBroker F) : Prop where
  booked : Booked uuid b'
  length : b'.cells.length = b.cells.length
  handles : b'.fillHandles = b.fillHandles.filter fun h => !b.leaves h
  completed : b'.completed = b.completed ++ b.fillHandles.filter b.runsDone
  done : ∀ h ∈ b.fillHandles, b'.isDone h = b.leaves h

theorem runFill_ran (hb : Booked uuid b) : Ran uuid b b.runFill := by
  obtain ⟨hh, ⟨cells, hframe, hlen⟩, hcells, hdone⟩ :=
    ReplicaBroker.runFills_passed (b := b) hb.fillsOnce
  generalize hr : ReplicaBroker.runFills b.fills b = r at hh hframe hcells hdone
  obtain ⟨fills', doneIds, b'⟩ := r
  dsimp only at hh hframe hcells hdone
  have hrun : b.runFill =
      { b' with
        completed := b'.completed ++ doneIds.filterMap b'.orders.get?
        fills := fills'.filter fun f => !b'.isDone f.order } := by
    rw [ReplicaBroker.runFill, hr]
  have hcompleted : b'.completed ++ doneIds.filterMap b'.orders.get? =
      b.completed ++ b.fillHandles.filter b.runsDone := by
    rw [hframe, hdone, List.filterMap_filterMap]
    congr 1
    rw [← List.filterMap_some (l := b.fillHandles.filter b.runsDone)]
    refine List.filterMap_congr fun h hh => ?_
    have hlt := hb.fills h (List.mem_of_mem_filter hh)
    obtain ⟨o, ho⟩ := Option.isSome_iff_exists.mp (ReplicaBroker.cell_isSome.mpr hlt)
    simp only [ho, Option.map_some, Option.bind_some, hb.ids h o ho, hb.orders h hlt]
  have hleaves : ∀ h ∈ b.fillHandles, b'.isDone h = b.leaves h := by
    intro h hh
    have hc : b'.cell h = (b.cell h).map (b.afterFill h) := (hcells h).trans (if_pos hh)
    rw [ReplicaBroker.isDone, hc, ReplicaBroker.leaves, ← ReplicaBroker.afterFill_isDone]
    cases b.cell h <;> rfl
  have hfills : (fills'.filter fun f => !b'.isDone f.order).map (·.order) =
      b.fillHandles.filter fun h => !b.leaves h := by
    rw [show (fun f : ReplicaFill F => !b'.isDone f.order) =
      (fun h => !b'.isDone h) ∘ (·.order) from rfl, ← List.filter_map, hh]
    exact List.filter_congr fun h hh => by rw [hleaves h hh]
  have hids : ∀ h o, b'.cell h = some o → o.orderId = uuid h := by
    intro h o ho
    rw [hcells] at ho
    split at ho
    · obtain ⟨o', ho', rfl⟩ := Option.map_eq_some_iff.mp ho
      rw [← hb.ids h o' ho']
      unfold ReplicaBroker.afterFill
      split
      · rfl
      · exact (o'.applyFillUpdate_frame _).1
    · exact hb.ids h o ho
  rw [hrun]
  refine ⟨⟨hids, ?_, ?_, ?_, ?_, ?_⟩, ?_, hfills, hcompleted, hleaves⟩
  · rw [hframe]
    exact fun h hh => hb.orders h (hlen ▸ hh)
  · rw [hframe]
    exact fun id h hh => hlen ▸ hb.known id h hh
  · intro h hh
    rw [ReplicaBroker.fillHandles, hfills] at hh
    rw [hframe]
    exact hlen ▸ hb.fills h (List.mem_of_mem_filter hh)
  · rw [ReplicaBroker.fillHandles, hfills]
    exact hb.fillsOnce.filter _
  · intro h hh
    rw [hcompleted] at hh
    rw [hframe]
    rcases List.mem_append.mp hh with hh | hh
    · exact hlen ▸ hb.completed h hh
    · exact hlen ▸ hb.fills h (List.mem_of_mem_filter hh)
  · rw [hframe]
    exact hlen

/-- A pass is right exactly where it is admissible. -/
theorem runFill_right (hb : Booked uuid b) (ht : Tidy b) :
    Tidy b.runFill ∧ Cleared b b.runFill ↔ Admissible b .runFill := by
  obtain ⟨_, hlen, hh, hc, hd⟩ := runFill_ran hb
  have hleft : ∀ {h}, h ∈ b.runFill.fillHandles ↔ h ∈ b.fillHandles ∧ b.leaves h = false := by
    intro h
    simp [hh, List.mem_filter]
  have hdone : ∀ {h}, h ∈ b.runFill.completed ↔
      h ∈ b.completed ∨ h ∈ b.fillHandles ∧ b.runsDone h = true := by
    intro h
    simp [hc, List.mem_filter]
  constructor
  · rintro ⟨⟨honce, _⟩, _, hremoved⟩ h hm
    rw [hc] at honce
    constructor
    · intro hr hin
      exact List.disjoint_of_nodup_append honce hin (List.mem_filter.mpr ⟨hm, hr⟩)
    · intro hp hdn
      have hruns : b.runsDone h = false := by simp [ReplicaBroker.runsDone, hp]
      have hl : b.leaves h = true := by simp [ReplicaBroker.leaves, hp, hdn]
      have hgone := hremoved h hm fun hin => by simp [(hleft.mp hin).2] at hl
      rcases hdone.mp hgone with hin | ⟨_, hr⟩
      · exact hin
      · rw [hruns] at hr
        cases hr
  · intro ha
    have hgoes : ∀ h ∈ b.fillHandles, b.leaves h = true → h ∈ b.runFill.completed := by
      intro h hm hl
      refine hdone.mpr ?_
      unfold ReplicaBroker.leaves at hl
      rcases Bool.or_eq_true _ _ |>.mp hl with hr | hr
      · exact .inr ⟨hm, hr⟩
      · rw [Bool.and_eq_true, Option.isNone_iff_eq_none] at hr
        exact .inl ((ha h hm).2 hr.1 hr.2)
    refine ⟨⟨?_, fun h hlt => ?_⟩, fun h hin => ?_, fun h hm hnot => ?_⟩
    · rw [hc]
      refine List.nodup_append.mpr ⟨ht.1, hb.fillsOnce.filter _, fun h hin j hj he => ?_⟩
      subst he
      obtain ⟨hm, hr⟩ := List.mem_filter.mp hj
      exact (ha h hm).1 hr hin
    · rcases ht.2 h (hlen ▸ hlt) with hm | hin
      · cases hl : b.leaves h with
        | true => exact .inr (hgoes h hm hl)
        | false => exact .inl (hleft.mpr ⟨hm, hl⟩)
      · exact .inr (hdone.mpr (.inl hin))
    · obtain ⟨hm, hl⟩ := hleft.mp hin
      rw [hd h hm, hl]
    · cases hl : b.leaves h with
      | true => exact hgoes h hm hl
      | false => exact absurd (hleft.mpr ⟨hm, hl⟩) hnot

/-! ## Runs -/

/-- What is asked of a step of the broker. -/
def Kept (b : ReplicaBroker F) (call : BrokerCall F) (after : ReplicaBroker F) : Prop :=
  Tidy after ∧ (call = .runFill → Cleared b after)

/-- One call keeps the bookkeeping exactly where it is admissible, and the ids in either case. -/
theorem step_kept (hu : Function.Injective uuid) (hb : Booked uuid b) (call : BrokerCall F) :
    Booked uuid ((replicaBroker uuid).step b call).2 ∧
      (Tidy b → (Kept b call ((replicaBroker uuid).step b call).2 ↔ Admissible b call)) := by
  have trivially : ∀ {call : BrokerCall F} {b' : ReplicaBroker F}, (Tidy b → Tidy b') →
      call ≠ .runFill → Admissible b call →
      (Tidy b → (Kept b call b' ↔ Admissible b call)) := fun ht' hne ha ht =>
    ⟨fun _ => ha, fun _ => ⟨ht' ht, fun he => absurd he hne⟩⟩
  cases call with
  | update instruments => exact ⟨⟨hb.ids, hb.orders, hb.known, hb.fills, hb.fillsOnce, hb.completed⟩,
      trivially id (by simp) trivial⟩
  | orderPlace args =>
      show Booked uuid (ReplicaBroker.step uuid b _).2 ∧
        (Tidy b → (Kept b _ (ReplicaBroker.step uuid b _).2 ↔ _))
      cases hp : b.orderPlace (uuid b.cells.length) args with
      | none =>
          simp only [ReplicaBroker.step, hp]
          exact ⟨hb, trivially id (by simp) trivial⟩
      | some r =>
          obtain ⟨hb', ht'⟩ := orderPlace_spec hu hb hp
          simp only [ReplicaBroker.step, hp]
          exact ⟨hb', trivially ht' (by simp) trivial⟩
  | orderModify orderId args =>
      show Booked uuid (b.orderModify orderId args).2 ∧
        (Tidy b → (Kept b _ (b.orderModify orderId args).2 ↔ _))
      unfold ReplicaBroker.orderModify
      split
      · exact ⟨hb, trivially id (by simp) trivial⟩
      · exact ⟨hb.onCell fun o => (o.modify_frame args).1,
          trivially tidy_onCell.mpr (by simp) trivial⟩
  | orderCancel orderId =>
      show Booked uuid (b.orderCancel orderId).2 ∧
        (Tidy b → (Kept b _ (b.orderCancel orderId).2 ↔ _))
      unfold ReplicaBroker.orderCancel
      split
      · rename_i hg
        exact ⟨hb, trivially id (by simp) fun h hh => by simp [hg] at hh⟩
      · rename_i h hg
        split
        · rename_i hd
          refine ⟨hb, trivially id (by simp) fun j hj hopen => ?_⟩
          obtain rfl : h = j := by simpa [hg] using hj
          rw [hd] at hopen
          cases hopen
        · rename_i hd
          have hcell := hb.onCell (h := h) (f := (·.cancel)) fun _ => rfl
          refine ⟨⟨hcell.ids, hcell.orders, hcell.known, hcell.fills, hcell.fillsOnce,
            fun j hj => ?_⟩, fun ht => ?_⟩
          · rcases List.mem_append.mp hj with hj | hj
            · exact hcell.completed j hj
            · rw [List.mem_singleton.mp hj]
              exact hcell.known orderId h hg
          · constructor
            · intro hk j hj _
              obtain rfl : h = j := by simpa [hg] using hj
              exact (tidy_push (tidy_onCell.mpr ht) h).mp hk.1
            · intro ha
              refine ⟨(tidy_push (tidy_onCell.mpr ht) h).mpr ?_, fun he => (nomatch he)⟩
              exact ha h hg (Bool.eq_false_iff.mpr hd)
  | runFill =>
      refine ⟨(runFill_ran hb).booked, fun ht => ?_⟩
      rw [← runFill_right hb ht]
      exact ⟨fun hk => ⟨hk.1, hk.2 rfl⟩, fun hk => ⟨hk.1, fun _ => hk.2⟩⟩

/-- The bookkeeping is kept by every call of a run exactly when every call of it is admissible. -/
theorem replica_bookkeeping (uuid : Nat → String) (hu : Function.Injective uuid)
    (calls : List (BrokerCall F)) :
    (replicaBroker uuid).Always
        (fun b call => Kept b call ((replicaBroker uuid).step b call).2) .new calls ↔
      (replicaBroker uuid).Always Admissible .new calls := by
  have hrun : ∀ (calls : List (BrokerCall F)) (b : ReplicaBroker F), Booked uuid b → Tidy b →
      ((replicaBroker uuid).Always
        (fun b call => Kept b call ((replicaBroker uuid).step b call).2) b calls ↔
      (replicaBroker uuid).Always Admissible b calls) := by
    intro calls
    induction calls with
    | nil => exact fun _ _ _ => Iff.rfl
    | cons call calls ih =>
        intro b hb ht
        obtain ⟨hb', hk⟩ := step_kept hu hb call
        specialize hk ht
        constructor
        · exact fun ⟨h, hrest⟩ => ⟨hk.mp h, (ih _ hb' h.1).mp hrest⟩
        · exact fun ⟨h, hrest⟩ => ⟨hk.mpr h, (ih _ hb' (hk.mpr h).1).mpr hrest⟩
  exact hrun calls .new booked_new ⟨.nil, fun _ h => (nomatch h)⟩

namespace Sample

/-- Ids by the length of the text. -/
def ids (n : Nat) : String := String.ofList (List.replicate n 'x')

theorem ids_injective : Function.Injective ids := fun m n h => by
  simpa [ids] using congrArg String.length h

def buyLimit : Args Int :=
  OrdMap.empty.insertAll
    [("symbol", .str "AAPL"), ("side", .int 1), ("quantity", .int 10), ("order_type", .int 2),
      ("price", .int 124)]

end Sample

open Sample in
theorem replica_bookkeeping_filled :
    (replicaBroker ids).Always
      (fun b call => Kept b call ((replicaBroker ids).step b call).2) .new
      [.update [⟨"AAPL", 125⟩], .orderPlace buyLimit, .runFill, .orderModify (ids 0)
        (OrdMap.empty.insert "quantity" (.int 20)), .update [⟨"AAPL", 123⟩], .runFill] :=
  (replica_bookkeeping ids ids_injective _).mpr (by decide)

open Sample in
/-- An order that is canceled while it is among the fills is completed once more by the next pass. An
order that is done at once on an instrument without a price leaves the fills and is not completed. -/
theorem replica_bookkeeping_breaks :
    ((replicaBroker ids).final .new
        [.update [⟨"AAPL", 125⟩], .orderPlace buyLimit, .orderCancel (ids 0), .runFill]).completed =
        [0, 0] ∧
      (replicaBroker ids).outputs .new [.update [⟨"AAPL", 0⟩], .orderPlace buyLimit, .runFill] =
        [.updated, .placed 0, .filled] ∧
      ((replicaBroker ids).final .new
        [.update [⟨"AAPL", 0⟩], .orderPlace buyLimit, .runFill]).fillHandles = [] ∧
      ((replicaBroker ids).final .new
        [.update [⟨"AAPL", 0⟩], .orderPlace buyLimit, .runFill]).completed = [] := by
  decide

end Omsrs.Replica
