import Omsrs.Replica.Theorems.Interleaving

/-!
# The async broker, one call at a time

A call that has the async broker to itself does what the call of the replica broker does, up to the
completed orders and the fills: a handle is completed once, and only what a pass has run and found done
leaves the fills.
-/

namespace Omsrs.Replica
open Omsrs.Lib

variable {F : Type} [Quantity F] {uuid : Nat → String} {b : ReplicaBroker F}
  {s : AsyncReplicaBroker F} {h : Handle} {task : Task F}

/-! ## One call at a time -/

/-- The same call of the async broker; the id goes with the arguments. -/
def BrokerCall.async : BrokerCall F → AsyncCall F
  | .update instruments => .update instruments
  | .orderPlace args => .place args
  | .orderModify orderId args => .modify (args.insert "order_id" (.str orderId))
  | .orderCancel orderId => .cancel (OrdMap.empty.insert "order_id" (.str orderId))
  | .runFill => .runFill

namespace AsyncReplicaBroker

/-- No call has more sections than this. -/
def patience (s : AsyncReplicaBroker F) : Nat := 3 * s.inner.fills.length + 4

/-- The call is taken up, and nothing but its own sections runs until it is finished. -/
def perform (uuid : Nat → String) (s : AsyncReplicaBroker F) (c : AsyncCall F) :
    AsyncReplicaBroker F :=
  (asyncReplicaBroker uuid).final s
    (.call c :: List.replicate s.patience (.advance s.tasks.length))

end AsyncReplicaBroker

/-- The async broker that takes one call after another. -/
def oneByOne (uuid : Nat → String) : Machine (AsyncReplicaBroker F) (AsyncCall F) Unit :=
  ⟨fun s c => ((), s.perform uuid c)⟩

/-- Where the two brokers agree: a cancellation or a pass completes only what is not completed yet, and
a pass leaves no fill of a done order without a price. -/
def InStep (b : ReplicaBroker F) : BrokerCall F → Prop
  | .orderCancel orderId =>
      ∀ h, b.orders.get? orderId = some h → b.isDone h = false → h ∉ b.completed
  | .runFill => ∀ h ∈ b.fillHandles,
      (b.runsDone h = true → h ∉ b.completed) ∧ (b.priceOf h = none → b.isDone h = false)
  | .update _ | .orderPlace _ | .orderModify _ _ => True

theorem inStep_orderCancel (b : ReplicaBroker F) (orderId : String) :
    (b.orders.get? orderId).all (fun h => b.isDone h || decide (h ∉ b.completed)) = true ↔
      InStep b (.orderCancel orderId) := by
  unfold InStep
  cases hget : b.orders.get? orderId <;> simp [hget, or_iff_not_imp_left]

instance (b : ReplicaBroker F) : (call : BrokerCall F) → Decidable (InStep b call)
  | .orderCancel orderId => decidable_of_iff _ (inStep_orderCancel b orderId)
  | .runFill => inferInstanceAs (Decidable (∀ h ∈ b.fillHandles,
      (b.runsDone h = true → h ∉ b.completed) ∧ (b.priceOf h = none → b.isDone h = false)))
  | .update _ | .orderPlace _ | .orderModify _ _ => isTrue trivial

/-! ## A task that runs alone -/

namespace Task

/-- So many sections of a task. -/
def drive : Nat → Task F × ReplicaBroker F → Task F × ReplicaBroker F
  | 0, r => r
  | n + 1, (task, b) => drive n (task.section b)

theorem drive_finished (n : Nat) (reply : AsyncReply) (b : ReplicaBroker F) :
    drive n (.finished reply, b) = (.finished reply, b) := by
  induction n with
  | zero => rfl
  | succ n ih => exact ih

/-- A task that is finished after some sections is finished after more. -/
theorem drive_of_le {n m : Nat} {r : Task F × ReplicaBroker F} {reply : AsyncReply}
    {b : ReplicaBroker F} (h : drive n r = (.finished reply, b)) (hnm : n ≤ m) :
    drive m r = (.finished reply, b) := by
  induction n generalizing m r with
  | zero =>
      obtain rfl : r = (.finished reply, b) := h
      exact drive_finished m reply b
  | succ n ih =>
      obtain ⟨task, b'⟩ := r
      cases m with
      | zero => exact absurd hnm (Nat.not_succ_le_zero n)
      | succ m => exact ih (r := task.section b') h (Nat.le_of_succ_le_succ hnm)

end Task

/-- The sections of the last task are the sections of the call. -/
theorem advance_last (n : Nat) (b : ReplicaBroker F) (tasks : List (Task F)) (task : Task F) :
    (asyncReplicaBroker uuid).final ⟨b, tasks ++ [task]⟩ (List.replicate n (.advance tasks.length)) =
      ⟨(Task.drive n (task, b)).2, tasks ++ [(Task.drive n (task, b)).1]⟩ := by
  induction n generalizing b task with
  | zero => rfl
  | succ n ih =>
      have hstep : ((asyncReplicaBroker uuid).step ⟨b, tasks ++ [task]⟩
          (.advance tasks.length)).2 = ⟨(task.section b).2, tasks ++ [(task.section b).1]⟩ := by
        simp [asyncReplicaBroker, AsyncReplicaBroker.step]
      rw [List.replicate_succ, Machine.final_cons, hstep]
      exact ih _ _

/-- A call is finished by what finishes its task. -/
theorem perform_eq {c : AsyncCall F} {b : ReplicaBroker F} {reply : AsyncReply}
    (hc : s.call uuid c = ⟨s.inner, s.tasks ++ [task]⟩)
    (hd : Task.drive s.patience (task, s.inner) = (.finished reply, b)) :
    s.perform uuid c = ⟨b, s.tasks ++ [.finished reply]⟩ := by
  have hstep : ((asyncReplicaBroker uuid).step s (.call c)).2 = ⟨s.inner, s.tasks ++ [task]⟩ := hc
  rw [AsyncReplicaBroker.perform, Machine.final_cons, hstep, advance_last, hd]

theorem perform_taken {c : AsyncCall F} {b : ReplicaBroker F} {reply : AsyncReply}
    (hc : s.call uuid c = ⟨b, s.tasks ++ [.finished reply]⟩) :
    s.perform uuid c = ⟨b, s.tasks ++ [.finished reply]⟩ := by
  have hstep : ((asyncReplicaBroker uuid).step s (.call c)).2 = ⟨b, s.tasks ++ [.finished reply]⟩ := hc
  rw [AsyncReplicaBroker.perform, Machine.final_cons, hstep, advance_last, Task.drive_finished]

/-! ## A pass that runs alone -/

/-- What a pass does with the fills that are left to do. -/
def fillPass (b : ReplicaBroker F) (pass : Pass F) : List (Nat × Handle) → ReplicaBroker F × Pass F
  | [] => (b, pass)
  | (i, h) :: todo =>
      match b.priceOf h with
      | none => fillPass b pass todo
      | some lastPrice =>
          let b := b.onCell h (·.applyFillUpdate lastPrice)
          fillPass b
            { pass with
              priceWrites := pass.priceWrites ++ [(i, lastPrice)]
              doneHandles := pass.doneHandles ++ if b.isDone h then [h] else [] } todo

/-- The prices of a pass are those of the instruments. -/
def Priced (b : ReplicaBroker F) (pass : Pass F) : Prop :=
  ∀ symbol, pass.prices.get? symbol = (b.instruments.get? symbol).map (·.lastPrice)

omit [Quantity F] in
theorem priced_snapshot :
    Priced b ⟨OrdMap.empty.insertAll (b.instruments.entries.map fun (k, v) => (k, v.lastPrice)),
      [], []⟩ :=
  fun symbol => OrdMap.get?_insertAll_map b.instruments (·.lastPrice) symbol

theorem priced_price {pass : Pass F} (hp : Priced b pass) (h : Handle) :
    ((b.cell h).bind fun o => pass.prices.get? o.symbol).filter (· ≠ 0) = b.priceOf h := by
  unfold ReplicaBroker.priceOf
  cases b.cell h with
  | none => rfl
  | some o => simp [hp o.symbol]

/-- The sections of a pass do what the pass does. -/
theorem drive_pass {pass : Pass F} (hp : Priced b pass) (todo : List (Nat × Handle)) :
    Task.drive (3 * todo.length + 1) (.fillSymbol pass todo, b) =
      (.finished .filled, (fillPass b pass todo).1.reconcile (fillPass b pass todo).2) := by
  induction todo generalizing b pass with
  | nil => rfl
  | cons a todo ih =>
      obtain ⟨i, h⟩ := a
      have hlen : 3 * ((i, h) :: todo).length + 1 = 3 * todo.length + 1 + 1 + 1 + 1 := by
        rw [List.length_cons]
        omega
      rw [hlen, Task.drive, Task.section, priced_price hp, fillPass]
      cases b.priceOf h with
      | none => exact Task.drive_of_le (ih hp) (by omega)
      | some lastPrice =>
          simp only [Task.drive, Task.section]
          exact ih (b := b.onCell h (·.applyFillUpdate lastPrice)) hp

/-- Writing one price back. -/
def writePrice (fills : List (ReplicaFill F)) (w : Nat × F) : List (ReplicaFill F) :=
  fills.modify w.1 fun f => { f with lastPrice := w.2 }

omit [Quantity F] in
theorem writePrice_at (pre rest : List (ReplicaFill F)) (fill : ReplicaFill F) (lastPrice : F) :
    writePrice (pre ++ fill :: rest) (pre.length, lastPrice) =
      pre ++ { fill with lastPrice := lastPrice } :: rest := by
  induction pre with
  | nil => rfl
  | cons f pre ih => simpa [writePrice] using ih

/-- A pass over a snapshot of the fills does to the cells what the pass over the fills does, finds the
same orders done and writes the same prices. -/
theorem fillPass_runFills (hid : ∀ h o, b.cell h = some o → o.orderId = uuid h)
    (fills : List (ReplicaFill F)) (k : Nat) (pass : Pass F) :
    ∃ writes done,
      fillPass b pass ((fills.zipIdx k).map fun (f, i) => (i, f.order)) =
        ((ReplicaBroker.runFills fills b).2.2,
          { pass with
            priceWrites := pass.priceWrites ++ writes
            doneHandles := pass.doneHandles ++ done }) ∧
      (ReplicaBroker.runFills fills b).2.1 = done.map uuid ∧
      ∀ pre : List (ReplicaFill F), pre.length = k →
        writes.foldl writePrice (pre ++ fills) = pre ++ (ReplicaBroker.runFills fills b).1 := by
  induction fills generalizing b k pass with
  | nil => exact ⟨[], [], by simp [fillPass, ReplicaBroker.runFills], rfl, fun _ _ => rfl⟩
  | cons fill rest ih =>
      simp only [List.zipIdx_cons, List.map_cons, fillPass]
      cases hp : b.priceOf fill.order with
      | none =>
          obtain ⟨writes, done, hpass, hids, hwrites⟩ := ih hid (k + 1) pass
          rw [ReplicaBroker.runFills_none hp]
          refine ⟨writes, done, hpass, hids, fun pre hk => ?_⟩
          have := hwrites (pre ++ [fill]) (by simp [hk])
          simpa only [List.append_assoc, List.singleton_append] using this
      | some lastPrice =>
          rw [ReplicaBroker.runFills_some hp]
          dsimp only
          have hid' : ∀ h o, (b.onCell fill.order (·.applyFillUpdate lastPrice)).cell h = some o →
              o.orderId = uuid h := by
            intro h o ho
            rw [ReplicaBroker.cell_onCell] at ho
            split at ho
            · obtain ⟨o', ho', rfl⟩ := Option.map_eq_some_iff.mp ho
              exact (o'.applyFillUpdate_frame lastPrice).1.trans (hid h o' ho')
            · exact hid h o ho
          generalize b.onCell fill.order (·.applyFillUpdate lastPrice) = b' at hid' ⊢
          obtain ⟨writes, done, hpass, hids, hwrites⟩ := ih hid' (k + 1)
            { pass with
              priceWrites := pass.priceWrites ++ [(k, lastPrice)]
              doneHandles := pass.doneHandles ++ if b'.isDone fill.order then [fill.order] else [] }
          refine ⟨(k, lastPrice) :: writes,
            (if b'.isDone fill.order then [fill.order] else []) ++ done, ?_, ?_, fun pre hk => ?_⟩
          · rw [hpass]
            simp only [List.append_assoc, List.singleton_append]
          · rw [hids, List.map_append]
            congr 1
            unfold ReplicaBroker.isDone
            cases hc : b'.cell fill.order with
            | none => rfl
            | some o => cases hd : o.isDone <;> simp [Option.filter, hd, hid' _ o hc]
          · subst hk
            have := hwrites (pre ++ [{ fill with lastPrice := lastPrice }]) (by simp)
            rw [List.foldl_cons, writePrice_at]
            simpa only [List.append_assoc, List.singleton_append] using this

/-- What a pass that runs alone leaves. -/
def ReplicaBroker.runFillOnce (b : ReplicaBroker F) : ReplicaBroker F :=
  let (fills, _, b') := runFills b.fills b
  let done := b.fillHandles.filter b.runsDone
  { b' with
    completed := done.foldl pushCompletedUnique b'.completed
    fills := fills.filter fun f => decide (f.order ∉ done) }

theorem perform_runFill (hu : Function.Injective uuid) (hb : Booked uuid s.inner) :
    s.perform uuid .runFill = ⟨s.inner.runFillOnce, s.tasks ++ [.finished .filled]⟩ := by
  obtain ⟨b, tasks⟩ := s
  dsimp only at hb ⊢
  let prices := OrdMap.empty.insertAll (b.instruments.entries.map fun (k, v) => (k, v.lastPrice))
  let todo := b.fills.zipIdx.map fun (f, i) => (i, f.order)
  obtain ⟨writes, done, hpass, hids, hwrites⟩ :=
    fillPass_runFills hb.ids b.fills 0 ⟨prices, [], []⟩
  have hdrive : Task.drive (AsyncReplicaBroker.patience ⟨b, tasks⟩) (.fillHandles, b) =
      (.finished .filled, (fillPass b ⟨prices, [], []⟩ todo).1.reconcile
        (fillPass b ⟨prices, [], []⟩ todo).2) := by
    have hlen : todo.length = b.fills.length := by simp [todo]
    refine Task.drive_of_le (n := 3 * todo.length + 1 + 1 + 1) ?_ ?_
    · exact drive_pass priced_snapshot todo
    · show 3 * todo.length + 3 ≤ 3 * b.fills.length + 4
      rw [hlen]
      exact Nat.le_succ _
  have hp := ReplicaBroker.runFills_passed (b := b) hb.fillsOnce
  have hdone : done = b.fillHandles.filter b.runsDone := by
    have h := hids.symm.trans hp.done
    refine List.map_injective_iff.mpr hu (h.trans ?_)
    rw [← List.filterMap_eq_map (f := uuid)]
    refine List.filterMap_congr fun h hh => ?_
    obtain ⟨o, ho⟩ := Option.isSome_iff_exists.mp
      (ReplicaBroker.cell_isSome.mpr (hb.fills h (List.mem_of_mem_filter hh)))
    simp [ho, hb.ids h o ho]
  rw [perform_eq rfl hdrive, hpass, ReplicaBroker.reconcile, ReplicaBroker.runFillOnce]
  obtain ⟨cells, hframe, -⟩ := hp.frame
  have hfills : writes.foldl writePrice (ReplicaBroker.runFills b.fills b).2.2.fills =
      (ReplicaBroker.runFills b.fills b).1 := by
    rw [hframe]
    exact hwrites [] rfl
  unfold writePrice at hfills
  simp only [List.nil_append, hdone, hfills]

/-! ## Where the calls agree -/

theorem foldl_pushCompletedUnique {completed done : List Handle} (hn : done.Nodup) :
    done.foldl pushCompletedUnique completed = completed ++ done.filter (· ∉ completed) := by
  induction done generalizing completed with
  | nil => simp
  | cons d done ih =>
      obtain ⟨hd, hn⟩ := List.nodup_cons.mp hn
      rw [List.foldl_cons, ih hn]
      have hlater : done.filter (· ∉ pushCompletedUnique completed d) =
          done.filter (· ∉ completed) := by
        refine List.filter_congr fun j hj => ?_
        have hne : j ≠ d := fun he => hd (he ▸ hj)
        simp [mem_pushCompletedUnique, hne]
      rw [hlater]
      unfold pushCompletedUnique
      by_cases hm : d ∈ completed <;> simp [hm]

theorem pushAll_eq_iff {completed done : List Handle} (hn : done.Nodup) :
    done.foldl pushCompletedUnique completed = completed ++ done ↔ ∀ h ∈ done, h ∉ completed := by
  rw [foldl_pushCompletedUnique hn, List.append_cancel_left_eq, List.filter_eq_self]
  simp only [decide_eq_true_eq]

theorem filter_eq_filter_iff {α : Type} {p q : α → Bool} {l : List α} :
    l.filter p = l.filter q ↔ ∀ a ∈ l, p a = q a := by
  refine ⟨fun h a ha => ?_, List.filter_congr⟩
  have hm : a ∈ l.filter p ↔ a ∈ l.filter q := by rw [h]
  rw [Bool.eq_iff_iff]
  simpa [List.mem_filter, ha] using hm

/-- A pass alone is the pass of the replica broker exactly where they are in step. -/
theorem runFillOnce_eq_iff (hb : Booked uuid b) :
    b.runFillOnce = b.runFill ↔ InStep b .runFill := by
  obtain ⟨-, -, -, hcompleted, hdone⟩ := runFill_ran hb
  have hp := ReplicaBroker.runFills_passed (b := b) hb.fillsOnce
  obtain ⟨cells, hframe, -⟩ := hp.frame
  have hpush : b.runFillOnce.completed = b.runFill.completed ↔
      ∀ h ∈ b.fillHandles.filter b.runsDone, h ∉ b.completed := by
    rw [hcompleted, ← pushAll_eq_iff (hb.fillsOnce.filter _)]
    simp only [ReplicaBroker.runFillOnce, hframe]
  have hfills : b.runFillOnce.fills = b.runFill.fills ↔
      ∀ h ∈ b.fillHandles, b.runsDone h = b.leaves h := by
    have hall : ∀ f ∈ (ReplicaBroker.runFills b.fills b).1, f.order ∈ b.fillHandles := by
      intro f hf
      have := List.mem_map_of_mem (f := (·.order)) hf
      rwa [hp.handles] at this
    have hcell : ∀ h, (ReplicaBroker.runFills b.fills b).2.2.isDone h = b.runFill.isDone h :=
      fun _ => rfl
    show ((ReplicaBroker.runFills b.fills b).1.filter _ =
      (ReplicaBroker.runFills b.fills b).1.filter _) ↔ _
    rw [filter_eq_filter_iff]
    constructor
    · intro h j hj
      rw [ReplicaBroker.fillHandles, ← hp.handles] at hj
      obtain ⟨f, hf, rfl⟩ := List.mem_map.mp hj
      have hm := hall f hf
      have := h f hf
      rw [hcell, hdone _ hm] at this
      simpa [List.mem_filter, hm] using this
    · intro h f hf
      have hm := hall f hf
      rw [hcell, hdone _ hm, ← h _ hm]
      simp [List.mem_filter, hm]
  have hboth : b.runFillOnce = b.runFill ↔
      b.runFillOnce.completed = b.runFill.completed ∧ b.runFillOnce.fills = b.runFill.fills := by
    refine ⟨fun h => by rw [h]; exact ⟨rfl, rfl⟩, ?_⟩
    rintro ⟨hc, hf⟩
    simp only [ReplicaBroker.runFillOnce, ReplicaBroker.runFill] at hc hf ⊢
    rw [hc, hf]
  rw [hboth, hpush, hfills]
  have hleaves : ∀ h, b.runsDone h = b.leaves h ↔ (b.priceOf h = none → b.isDone h = false) := by
    intro h
    unfold ReplicaBroker.leaves
    cases hprice : b.priceOf h with
    | none => simp [ReplicaBroker.runsDone, hprice]
    | some lastPrice => simp
  simp only [List.mem_filter, InStep, hleaves]
  constructor
  · rintro ⟨h₁, h₂⟩ h hm
    exact ⟨fun hr => h₁ h ⟨hm, hr⟩, h₂ h hm⟩
  · exact fun h => ⟨fun j hj => (h j hj.1).1 hj.2, fun j hm => (h j hm).2⟩

theorem modify_order_id (args : Args F) (orderId : String) :
    VOrder.modify ((args.insert "order_id" (.str orderId)).erase "order_id") =
      (VOrder.modify args : VOrder F → VOrder F) := by
  have herase : (args.insert "order_id" (.str orderId)).erase "order_id" = args.erase "order_id" := by
    apply OrdMap.ext_get?
    intro k
    simp only [OrdMap.get?_erase, OrdMap.get?_insert]
    split <;> rfl
  funext o
  rw [herase]
  simp only [VOrder.modify, OrdMap.erase, List.foldl_filter]
  congr 1
  funext o a
  split
  · rfl
  · rename_i ha
    obtain ⟨k, v⟩ := a
    obtain rfl : k = "order_id" := by simpa using ha
    rfl

omit [Quantity F] in
theorem four_le_patience (s : AsyncReplicaBroker F) : 4 ≤ s.patience := Nat.le_add_left _ _

/-- A new order is not completed yet, so it is promoted alike. -/
theorem place_push (hb : Booked uuid b) (orderId : String) (args : Args F) :
    b.place pushCompletedUnique orderId args = b.orderPlace orderId args := by
  have hnew : pushCompletedUnique b.completed b.cells.length =
      ReplicaBroker.push b.completed b.cells.length :=
    if_neg fun hm => (hb.completed _ hm).false
  unfold ReplicaBroker.orderPlace ReplicaBroker.place
  refine congrArg (Option.map · _) (funext fun o => ?_)
  dsimp only
  split
  · simp only [ReplicaBroker.onCell_completed, ReplicaBroker.register, hnew]
  · rfl

theorem perform_place (hb : Booked uuid s.inner) (args : Args F) :
    ∃ reply, s.perform uuid (.place args) =
      ⟨((replicaBroker uuid).step s.inner (.orderPlace args)).2, s.tasks ++ [.finished reply]⟩ := by
  have hplace := place_push hb (uuid s.inner.cells.length) args
  show ∃ reply, _ = AsyncReplicaBroker.mk (ReplicaBroker.step uuid s.inner _).2 _
  rw [ReplicaBroker.step, ← hplace]
  cases hp : s.inner.place pushCompletedUnique (uuid s.inner.cells.length) args with
  | none =>
      refine ⟨.panicked, perform_taken ?_⟩
      simp only [AsyncReplicaBroker.call, hp, AsyncReplicaBroker.start]
  | some r =>
      obtain ⟨handle, inner⟩ := r
      refine ⟨.placed handle, perform_taken ?_⟩
      simp only [AsyncReplicaBroker.call, hp]

theorem perform_modify (uuid : Nat → String) (s : AsyncReplicaBroker F) (orderId : String)
    (args : Args F) :
    ∃ reply, s.perform uuid (BrokerCall.orderModify orderId args).async =
      ⟨((replicaBroker uuid).step s.inner (.orderModify orderId args)).2,
        s.tasks ++ [.finished reply]⟩ := by
  have hc : s.call uuid (BrokerCall.orderModify orderId args).async =
      ⟨s.inner, s.tasks ++
        [.modifyFind orderId ((args.insert "order_id" (.str orderId)).erase "order_id")]⟩ := by
    simp [BrokerCall.async, AsyncReplicaBroker.call, AsyncReplicaBroker.start, Value.asStr]
  have hle : 2 ≤ s.patience := (by decide : 2 ≤ 4).trans (four_le_patience s)
  generalize ha : (args.insert "order_id" (.str orderId)).erase "order_id" = args' at hc
  show ∃ reply, _ = AsyncReplicaBroker.mk (s.inner.orderModify orderId args).2 _
  rw [ReplicaBroker.orderModify]
  cases hg : s.inner.orders.get? orderId with
  | none =>
      have hd : Task.drive 2 (.modifyFind orderId args', s.inner) =
          (.finished (.modified none), s.inner) := by simp only [Task.drive, Task.section, hg]
      exact ⟨_, perform_eq hc (Task.drive_of_le hd hle)⟩
  | some handle =>
      have hd : Task.drive 2 (.modifyFind orderId args', s.inner) =
          (.finished (.modified (some handle)), s.inner.onCell handle (·.modify args)) := by
        simp only [Task.drive, Task.section, hg, ← ha, modify_order_id]
      exact ⟨_, perform_eq hc (Task.drive_of_le hd hle)⟩

omit [Quantity F] in
theorem pushCompletedUnique_eq_push {completed : List Handle} :
    pushCompletedUnique completed h = ReplicaBroker.push completed h ↔ h ∉ completed := by
  unfold pushCompletedUnique ReplicaBroker.push
  split <;> simp [*]

theorem perform_cancel (hb : Booked uuid s.inner) (orderId : String) :
    ∃ b reply, s.perform uuid (BrokerCall.orderCancel orderId).async =
        ⟨b, s.tasks ++ [.finished reply]⟩ ∧
      (b = ((replicaBroker uuid).step s.inner (.orderCancel orderId)).2 ↔
        InStep s.inner (.orderCancel orderId)) := by
  have hc : s.call uuid (BrokerCall.orderCancel orderId).async =
      ⟨s.inner, s.tasks ++ [.cancelFind orderId]⟩ := by
    simp [BrokerCall.async, AsyncReplicaBroker.call, AsyncReplicaBroker.start, Value.asStr]
  have hle : 3 ≤ s.patience := (by decide : 3 ≤ 4).trans (four_le_patience s)
  show ∃ b reply, _ ∧ (b = (s.inner.orderCancel orderId).2 ↔ _)
  simp only [InStep, ReplicaBroker.orderCancel]
  cases hg : s.inner.orders.get? orderId with
  | none =>
      have hd : Task.drive 3 (.cancelFind orderId, s.inner) =
          (.finished (.canceled none), s.inner) := by simp only [Task.drive, Task.section, hg]
      exact ⟨_, _, perform_eq hc (Task.drive_of_le hd hle), iff_of_true rfl (fun _ hn => by cases hn)⟩
  | some handle =>
      simp only [Option.some.injEq, forall_eq']
      obtain ⟨o, ho⟩ := Option.isSome_iff_exists.mp
        (ReplicaBroker.cell_isSome.mpr (hb.known orderId handle hg))
      have hdone : s.inner.isDone handle = o.isDone := by simp [ReplicaBroker.isDone, ho]
      rw [hdone]
      cases hod : o.isDone with
      | true =>
          have hd : Task.drive 3 (.cancelFind orderId, s.inner) =
              (.finished (.canceled (some handle)), s.inner) := by
            simp only [Task.drive, Task.section, hg, ho, hod, if_true]
          exact ⟨_, _, perform_eq hc (Task.drive_of_le hd hle), iff_of_true rfl (fun hn => by cases hn)⟩
      | false =>
          have hd : Task.drive 3 (.cancelFind orderId, s.inner) =
              (.finished (.canceled (some handle)),
                (s.inner.onCell handle (·.cancel)).complete handle) := by
            simp only [Task.drive, Task.section, hg, ho, hod, Bool.false_eq_true, if_false]
          refine ⟨_, _, perform_eq hc (Task.drive_of_le hd hle), ?_⟩
          simp only [Bool.false_eq_true, if_false, forall_const, ReplicaBroker.complete,
            ReplicaBroker.onCell_completed]
          rw [← pushCompletedUnique_eq_push]
          exact ⟨fun h => congrArg ReplicaBroker.completed h, fun h => by rw [h]⟩

/-- A call alone is finished, and does what the call of the replica broker does exactly where they are
in step. -/
theorem perform_agrees (hu : Function.Injective uuid) (hb : Booked uuid s.inner)
    (call : BrokerCall F) :
    ∃ b reply, s.perform uuid call.async = ⟨b, s.tasks ++ [.finished reply]⟩ ∧
      (b = ((replicaBroker uuid).step s.inner call).2 ↔ InStep s.inner call) := by
  cases call with
  | update instruments => exact ⟨_, _, perform_taken rfl, iff_of_true rfl trivial⟩
  | orderPlace args =>
      obtain ⟨reply, h⟩ := perform_place hb args
      exact ⟨_, reply, h, iff_of_true rfl trivial⟩
  | orderModify orderId args =>
      obtain ⟨reply, h⟩ := perform_modify uuid s orderId args
      exact ⟨_, reply, h, iff_of_true rfl trivial⟩
  | orderCancel orderId => exact perform_cancel hb orderId
  | runFill => exact ⟨_, _, perform_runFill hu hb, runFillOnce_eq_iff hb⟩

/-! ## Runs -/

/-- After a run of calls the async broker has answered them all and holds what the replica broker
holds. -/
def Matches (uuid : Nat → String) (calls : List (BrokerCall F)) : Prop :=
  ∃ replies : List AsyncReply, (oneByOne uuid).final .new (calls.map BrokerCall.async) =
    ⟨(replicaBroker uuid).final .new calls, replies.map .finished⟩

theorem oneByOne_cons (s : AsyncReplicaBroker F) (call : BrokerCall F)
    (calls : List (BrokerCall F)) :
    (oneByOne uuid).final s ((call :: calls).map BrokerCall.async) =
      (oneByOne uuid).final (s.perform uuid call.async) (calls.map BrokerCall.async) := rfl

/-- The async broker that takes one call after another holds after every call what the replica broker
holds, exactly when every call finds the two in step. -/
theorem async_replica_refines_iff (uuid : Nat → String) (hu : Function.Injective uuid)
    (calls : List (BrokerCall F)) :
    (∀ pre, pre <+: calls → Matches uuid pre) ↔
      (replicaBroker uuid).Always InStep .new calls := by
  have hrun : ∀ (calls : List (BrokerCall F)) (b : ReplicaBroker F) (replies : List AsyncReply),
      Booked uuid b →
      ((∀ pre, pre <+: calls → ∃ replies' : List AsyncReply,
          (oneByOne uuid).final ⟨b, replies.map .finished⟩ (pre.map BrokerCall.async) =
            ⟨(replicaBroker uuid).final b pre, replies'.map .finished⟩) ↔
        (replicaBroker uuid).Always InStep b calls) := by
    intro calls
    induction calls with
    | nil =>
        refine fun b replies _ => iff_of_true (fun pre hp => ?_) trivial
        rw [List.prefix_nil.mp hp]
        exact ⟨replies, rfl⟩
    | cons call calls ih =>
        intro b replies hb
        obtain ⟨b', reply, hp, hstep⟩ := perform_agrees (s := ⟨b, replies.map .finished⟩) hu hb call
        have htasks : replies.map Task.finished ++ [.finished reply] =
            ((replies ++ [reply]).map .finished : List (Task F)) := by simp
        rw [htasks] at hp
        have hrest := ih ((replicaBroker uuid).step b call).2 (replies ++ [reply])
          (step_kept hu hb call).1
        constructor
        · intro h
          obtain ⟨replies', hone⟩ := h [call] ⟨calls, rfl⟩
          rw [oneByOne_cons, hp] at hone
          have hb' : b' = ((replicaBroker uuid).step b call).2 :=
            congrArg AsyncReplicaBroker.inner hone
          refine ⟨hstep.mp hb', hrest.mp fun pre hpre => ?_⟩
          obtain ⟨replies'', hpre'⟩ := h (call :: pre) (List.cons_prefix_cons.mpr ⟨rfl, hpre⟩)
          rw [oneByOne_cons, hp, hb', Machine.final_cons] at hpre'
          exact ⟨replies'', hpre'⟩
        · intro ⟨hcall, hcalls⟩ pre hpre
          rw [hstep.mpr hcall] at hp
          cases pre with
          | nil => exact ⟨replies, rfl⟩
          | cons call' pre =>
              obtain ⟨rfl, htail⟩ := List.cons_prefix_cons.mp hpre
              obtain ⟨replies', h⟩ := hrest.mpr hcalls pre htail
              refine ⟨replies', ?_⟩
              rw [oneByOne_cons, hp, Machine.final_cons]
              exact h
  exact hrun calls .new [] booked_new

namespace Sample

/-- An order that the market meets later. -/
def metLater : List (BrokerCall Int) :=
  [.update [⟨"AAPL", 125⟩], .orderPlace buyLimit, .runFill, .update [⟨"AAPL", 123⟩], .runFill]

/-- An order that is canceled before the next pass. -/
def canceledFirst : List (BrokerCall Int) :=
  [.update [⟨"AAPL", 125⟩], .orderPlace buyLimit, .orderCancel (ids 0), .runFill]

end Sample

open Sample in
/-- The order that the market meets later is met alike. -/
theorem async_replica_refines_met_later : Matches ids metLater :=
  (async_replica_refines_iff ids ids_injective metLater).mpr (by decide) metLater List.prefix_rfl

open Sample in
/-- A canceled order stays among the fills: the next pass of the replica broker completes it once
more. -/
theorem canceled_order_completed_twice :
    ¬ ∀ (uuid : Nat → String), Function.Injective uuid → ∀ calls : List (BrokerCall Int),
      ∀ pre, pre <+: calls → Matches uuid pre := by
  intro h
  obtain ⟨replies, hm⟩ := h ids ids_injective canceledFirst _ List.prefix_rfl
  have hcompleted := congrArg (·.inner.completed) hm
  have hsync : ((replicaBroker ids).final .new canceledFirst).completed = [0, 0] := by decide
  have hasync : ((oneByOne ids).final .new (canceledFirst.map BrokerCall.async)).inner.completed =
      [0] := by decide
  rw [hasync] at hcompleted
  exact absurd (hcompleted.trans hsync) (by decide)

end Omsrs.Replica
