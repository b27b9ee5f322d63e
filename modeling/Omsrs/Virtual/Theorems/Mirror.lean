import Omsrs.Virtual.Async
import Omsrs.Virtual.Lemmas.Order

/-!
# The async virtual broker mirrors the virtual broker

The two hold the same state after every call, with the same draws and the same ids. Their replies are
the same too, except where `get` hands out the copy of an order whose quantities were not right.
-/

namespace Omsrs.Virtual
open Omsrs.Lib Omsrs.Replica

variable {R : Type}

/-! ## The two brokers -/

section Calls

variable {F : Type} [Amount F] (w : World F R) (b : VirtualBroker F R)

omit [Amount F] in
/-- The same call of the async broker; the id goes with the arguments. -/
def VirtualCall.async : VirtualCall F R → AsyncVirtualCall F R
  | .orderPlace now args => .place now args
  | .orderModify now orderId args => .modify now (args.insert "order_id" (.str orderId))
  | .orderCancel now orderId args => .cancel now (args.insert "order_id" (.str orderId))
  | .get now orderId status => .get now orderId status
  | .addUser user => .addUser user
  | .setFailureRate v => .setFailureRate v

theorem rollFails_eq : AsyncVirtualBroker.rollFails w b = b.isFailure w := rfl

theorem place_mirrors (now : Int) (args : Args F) :
    AsyncVirtualBroker.place w ⟨b⟩ now args =
      ((b.orderPlace w now args).1, ⟨(b.orderPlace w now args).2⟩) := by
  unfold AsyncVirtualBroker.place VirtualBroker.orderPlace
  cases args.get? "response" with
  | some v => rfl
  | none =>
      dsimp only
      rw [rollFails_eq]
      rcases b.isFailure w with ⟨fails, b⟩
      cases fails with
      | true => rfl
      | false =>
          cases missingFields args with
          | cons fld rest => rfl
          | nil =>
              simp only [Bool.false_eq_true, if_false, VirtualBroker.placeInit]
              generalize VirtualOrder.fromInit w _ = built
              cases built with
              | error msg => rfl
              | ok order =>
                  simp only [OrdMap.get?_insert_self, Option.bind_some, clonedCloneWeak_eq]
                  generalize ((args.get? "userid").bind fun v : Value F => v.asStr).map
                    (fun s : String => s.map Char.toUpper) = uid
                  cases uid with
                  | none => simp only [OrdMap.get?_insert_self, Option.bind_some]
                  | some uid =>
                      dsimp only
                      split <;> simp only [OrdMap.get?_insert_self, Option.bind_some]

omit [Amount F] in
theorem get?_order_id_ne (args : Args F) (orderId : String) {k : String} (h : k ≠ "order_id") :
    (args.insert "order_id" (.str orderId)).get? k = args.get? k :=
  OrdMap.get?_insert_ne _ _ h

omit [Amount F] in
theorem get?_order_id (args : Args F) (orderId : String) :
    (((args.insert "order_id" (.str orderId)).get? "order_id").bind (·.asStr)) = some orderId := by
  rw [OrdMap.get?_insert_self]
  rfl

theorem modify_mirrors (now : Int) (orderId : String) (args : Args F) :
    AsyncVirtualBroker.modify w ⟨b⟩ now (args.insert "order_id" (.str orderId)) =
      ((b.orderModify w now orderId args).1, ⟨(b.orderModify w now orderId args).2⟩) := by
  unfold AsyncVirtualBroker.modify VirtualBroker.orderModify
  rw [get?_order_id_ne args orderId (by decide)]
  cases args.get? "response" with
  | some v => rfl
  | none =>
      dsimp only
      rw [rollFails_eq, get?_order_id]
      rcases b.isFailure w with ⟨fails, b⟩
      cases fails with
      | true => rfl
      | false =>
          simp only [Bool.false_eq_true, if_false]
          cases b.orders.get? orderId with
          | none => rfl
          | some order =>
              simp only [VirtualBroker.modifyOrder, get?_order_id_ne args orderId (k := "price")
                (by decide), get?_order_id_ne args orderId (k := "trigger_price") (by decide),
                get?_order_id_ne args orderId (k := "quantity") (by decide)]

theorem cancel_mirrors (now : Int) (orderId : String) (args : Args F) :
    AsyncVirtualBroker.cancel w ⟨b⟩ now (args.insert "order_id" (.str orderId)) =
      ((b.orderCancel w now orderId args).1, ⟨(b.orderCancel w now orderId args).2⟩) := by
  unfold AsyncVirtualBroker.cancel VirtualBroker.orderCancel
  rw [get?_order_id_ne args orderId (by decide)]
  cases args.get? "response" with
  | some v => rfl
  | none =>
      dsimp only
      rw [rollFails_eq, get?_order_id]
      rcases b.isFailure w with ⟨fails, b⟩
      cases fails with
      | true => rfl
      | false =>
          simp only [Bool.false_eq_true, if_false]
          cases b.orders.get? orderId with
          | none => rfl
          | some order =>
              dsimp only
              split <;> rfl

/-- The order that `get` leaves and hands out. -/
def gotten (now : Int) (orderId : String) (status : Status) : Option (PublicOrder F) :=
  (b.orders.get? orderId).map fun order => (order.modifyByStatus w status now).pub

theorem get_mirrors (now : Int) (orderId : String) (status : Status) :
    AsyncVirtualBroker.get w ⟨b⟩ now orderId status =
      ((gotten w b now orderId status).map (copyOf w), ⟨(b.get w now orderId status).2⟩) := by
  unfold AsyncVirtualBroker.get VirtualBroker.get gotten
  cases b.orders.get? orderId with
  | none => rfl
  | some order => simp only [clonedCloneWeak_eq, Option.map_some]

theorem get_gotten (now : Int) (orderId : String) (status : Status) :
    (b.get w now orderId status).1 = gotten w b now orderId status := by
  unfold VirtualBroker.get gotten
  cases b.orders.get? orderId <;> rfl

/-- The copy that a `get` hands out is the order itself. -/
def TrueCopy : VirtualCall F R → Prop
  | .get now orderId status => ∀ o, gotten w b now orderId status = some o → copyOf w o = o
  | _ => True

/-- A call leaves the same state, and is answered alike unless a copy differs. -/
theorem step_mirrors (call : VirtualCall F R) :
    ((asyncVirtualBroker w).step ⟨b⟩ call.async).2 = ⟨((virtualBroker w).step b call).2⟩ ∧
      (((asyncVirtualBroker w).step ⟨b⟩ call.async).1 = ((virtualBroker w).step b call).1 ↔
        TrueCopy w b call) := by
  simp only [asyncVirtualBroker, virtualBroker]
  cases call with
  | orderPlace now args =>
      simp only [VirtualCall.async, AsyncVirtualBroker.step, VirtualBroker.step, place_mirrors, TrueCopy,
        and_self]
  | orderModify now orderId args =>
      simp only [VirtualCall.async, AsyncVirtualBroker.step, VirtualBroker.step, modify_mirrors,
        TrueCopy, and_self]
  | orderCancel now orderId args =>
      simp only [VirtualCall.async, AsyncVirtualBroker.step, VirtualBroker.step, cancel_mirrors,
        TrueCopy, and_self]
  | get now orderId status =>
      simp only [VirtualCall.async, AsyncVirtualBroker.step, VirtualBroker.step, get_mirrors, get_gotten,
        TrueCopy, true_and, VirtualReply.got.injEq]
      cases gotten w b now orderId status <;> simp
  | addUser user =>
      simp only [VirtualCall.async, AsyncVirtualBroker.step, VirtualBroker.step,
        AsyncVirtualBroker.addUser, VirtualBroker.addUser, TrueCopy, iff_true]
      split <;> exact ⟨rfl, rfl⟩
  | setFailureRate v =>
      simp only [VirtualCall.async, AsyncVirtualBroker.step, VirtualBroker.step,
        AsyncVirtualBroker.setFailureRate, VirtualBroker.setFailureRate, TrueCopy, iff_true]
      split <;> exact ⟨rfl, rfl⟩

theorem status_complete_iff {o : VirtualOrder F R} :
    o.status = .complete ↔ o.pub.quantity = o.pub.filledQuantity := by
  unfold VirtualOrder.status
  split
  · rename_i h
    exact iff_of_true rfl h
  · rename_i h
    refine iff_of_false (fun hs => ?_) h
    repeat' split at hs
    all_goals cases hs

/-- An outcome that reports a canceled order leaves what `cancel` would have left, any other leaves the
orders alone. -/
structure OutcomeFollows (s : AsyncVirtualBroker F R) (now : Int) (args : Args F) : Prop where
  canceled : (s.orderCancelOutcome w args).1.status = .canceled →
    (s.orderCancelOutcome w args).2 = (s.cancel w now args).2
  otherwise : (s.orderCancelOutcome w args).1.status ≠ .canceled →
    (s.orderCancelOutcome w args).2.inner.orders = s.inner.orders

theorem outcome_cases (s : AsyncVirtualBroker F R) (now : Int) (args : Args F) :
    (s.orderCancelOutcome w args).1.status ≠ .canceled ∧
        (s.orderCancelOutcome w args).2.inner.orders = s.inner.orders ∨
      (s.orderCancelOutcome w args).1.status = .canceled ∧
        (s.orderCancelOutcome w args).2 = (s.cancel w now args).2 := by
  unfold AsyncVirtualBroker.orderCancelOutcome AsyncVirtualBroker.cancel
  cases args.get? "response" with
  | some v => exact .inl ⟨nofun, rfl⟩
  | none =>
      cases (args.get? "order_id").bind (·.asStr) with
      | none => exact .inl ⟨nofun, rfl⟩
      | some orderId =>
          dsimp only
          rw [rollFails_eq]
          have horders : (s.inner.isFailure w).2.orders = s.inner.orders := rfl
          generalize s.inner.isFailure w = rolled at horders ⊢
          obtain ⟨fails, inner⟩ := rolled
          cases fails with
          | true => exact .inl ⟨nofun, horders⟩
          | false =>
              simp only [Bool.false_eq_true, if_false]
              cases inner.orders.get? orderId with
              | none => exact .inl ⟨nofun, horders⟩
              | some order =>
                  dsimp only
                  cases hd : order.isDone with
                  | true => exact .inl ⟨nofun, horders⟩
                  | false =>
                      have hne : order.status ≠ .complete := by
                        rw [ne_eq, status_complete_iff]
                        intro he
                        simp [VirtualOrder.isDone, VOrder.isDone, he] at hd
                      exact .inr ⟨rfl, by simp [hne]⟩

theorem outcome_follows (s : AsyncVirtualBroker F R) (now : Int) (args : Args F) :
    OutcomeFollows w s now args := by
  rcases outcome_cases w s now args with ⟨hs, horders⟩ | ⟨hs, hstate⟩
  · exact ⟨fun h => absurd h hs, fun _ => horders⟩
  · exact ⟨fun _ => hstate, fun h => absurd hs h⟩

end Calls

/-! ## Where the copies are true -/

/-- A `get` finds an order with its time and average price whose quantities are right, or are made right
by the status that it takes on. -/
def Mirrored (b : VirtualBroker ℚ R) : VirtualCall ℚ R → Prop
  | .get now orderId status => ∀ o, b.orders.get? orderId = some o →
      Dated o.pub ∧
        if o.isDone = true ∨ o.isPastDelayAt now = false then Upright o.pub else Suits o.pub status
  | _ => True

theorem modifyOrderByStatus_dated (w : World ℚ R) (status : Status) (o : VirtualOrder ℚ R) :
    Dated (o.modifyOrderByStatus w status).pub ↔ Dated o.pub := by
  cases status <;> exact Iff.rfl

theorem trueCopy_iff (w : World ℚ R)
    (hw : ∀ rng n, 1 < n → 1 ≤ (w.genRange rng n).1 ∧ (w.genRange rng n).1 < n)
    (b : VirtualBroker ℚ R) (call : VirtualCall ℚ R) : TrueCopy w b call ↔ Mirrored b call := by
  cases call with
  | get now orderId status =>
      simp only [TrueCopy, Mirrored, gotten, Option.map_eq_some_iff, copyOf_eq_iff,
        forall_exists_index, and_imp]
      constructor
      · intro h o ho
        have ho' := h _ o ho rfl
        unfold VirtualOrder.modifyByStatus at ho'
        cases hd : o.isDone with
        | true =>
            simp only [hd, if_true] at ho'
            simpa using ⟨ho'.2, ho'.1⟩
        | false =>
            cases hp : o.isPastDelayAt now with
            | false =>
                simp only [hd, hp, Bool.false_eq_true, if_false] at ho'
                simpa using ⟨ho'.2, ho'.1⟩
            | true =>
                simp only [hd, hp, Bool.false_eq_true, if_false, if_true, upright_iff_suits w hw hd,
                  modifyOrderByStatus_dated] at ho'
                simpa using ⟨ho'.2, ho'.1⟩
      · rintro h _ o ho rfl
        obtain ⟨hdated, hq⟩ := h o ho
        unfold VirtualOrder.modifyByStatus
        cases hd : o.isDone with
        | true => exact ⟨by simpa [hd] using hq, hdated⟩
        | false =>
            cases hp : o.isPastDelayAt now with
            | false => exact ⟨by simpa [hp] using hq, hdated⟩
            | true =>
                simp only [Bool.false_eq_true, if_false, if_true, upright_iff_suits w hw hd,
                  modifyOrderByStatus_dated]
                exact ⟨by simpa [hd, hp] using hq, hdated⟩
  | _ => exact Iff.rfl

/-! ## Runs -/

/-- The async broker holds what the virtual broker holds after every call, with as many draws and ids
taken. Its replies are the same exactly when every `get` finds an order that a copy shows as it is. An
outcome of a cancellation follows what `cancel` does. -/
theorem async_virtual_mirrors_iff (w : World ℚ R)
    (hw : ∀ rng n, 1 < n → 1 ≤ (w.genRange rng n).1 ∧ (w.genRange rng n).1 < n)
    (b : VirtualBroker ℚ R) (calls : List (VirtualCall ℚ R)) :
    (asyncVirtualBroker w).final ⟨b⟩ (calls.map VirtualCall.async) =
        ⟨(virtualBroker w).final b calls⟩ ∧
      ((asyncVirtualBroker w).outputs ⟨b⟩ (calls.map VirtualCall.async) =
          (virtualBroker w).outputs b calls ↔
        (virtualBroker w).Always Mirrored b calls) ∧
      ∀ s now args, OutcomeFollows w s now args := by
  refine ⟨?_, ?_, fun s now args => outcome_follows w s now args⟩
  · induction calls generalizing b with
    | nil => rfl
    | cons call calls ih =>
        rw [List.map_cons, Machine.final_cons, Machine.final_cons, (step_mirrors w b call).1]
        exact ih _
  · induction calls generalizing b with
    | nil => exact iff_of_true rfl trivial
    | cons call calls ih =>
        obtain ⟨hstate, hreply⟩ := step_mirrors w b call
        rw [List.map_cons, Machine.outputs_cons, Machine.outputs_cons, List.cons_eq_cons, hstate, ih,
          hreply, trueCopy_iff w hw]
        exact Iff.rfl

namespace Sample

/-- Nothing fails, and every part of a quantity is one. -/
def calm : World ℚ Unit where
  uuid := fun n => String.ofList (List.replicate n 'x')
  roll := fun _ => 1
  seed := ()
  genRange := fun _ _ => (1, ())
  utcNow := 0

def buyTen : Args ℚ :=
  OrdMap.empty.insertAll [("symbol", .str "AAPL"), ("side", .int 1), ("quantity", .int 10)]

/-- An order that is partly filled once its delay is over. -/
def partly : List (VirtualCall ℚ Unit) :=
  [.orderPlace 0 buyTen, .get 5 (calm.uuid 0) .pending, .get 2000000 (calm.uuid 0) .pending]

/-- The quantity of an order is doubled before its delay is over. -/
def doubled : List (VirtualCall ℚ Unit) :=
  [.orderPlace 0 buyTen, .orderModify 1 (calm.uuid 0) (OrdMap.empty.insert "quantity" (.int 20)),
    .get 2 (calm.uuid 0) .complete]

end Sample

open Sample in
theorem async_virtual_mirrors_partly :
    (asyncVirtualBroker calm).final ⟨.new⟩ (partly.map VirtualCall.async) =
        ⟨(virtualBroker calm).final .new partly⟩ ∧
      ((asyncVirtualBroker calm).outputs ⟨.new⟩ (partly.map VirtualCall.async) =
          (virtualBroker calm).outputs .new partly ↔
        (virtualBroker calm).Always Mirrored .new partly) ∧
      ∀ s now args, OutcomeFollows calm s now args :=
  async_virtual_mirrors_iff calm (fun _ _ h => ⟨le_rfl, h⟩) .new partly

open Sample in
/-- The order has ten pending and nothing filled; its copy shows ten filled. -/
theorem doubled_order_shown_filled :
    ¬ ∀ (w : World ℚ Unit),
      (∀ rng n, 1 < n → 1 ≤ (w.genRange rng n).1 ∧ (w.genRange rng n).1 < n) →
      ∀ (b : VirtualBroker ℚ Unit) (calls : List (VirtualCall ℚ Unit)),
        (asyncVirtualBroker w).outputs ⟨b⟩ (calls.map VirtualCall.async) =
          (virtualBroker w).outputs b calls := by
  intro h
  have hsame := h calm (fun _ _ h => ⟨le_rfl, h⟩) .new doubled
  revert hsame
  decide +kernel

end Omsrs.Virtual
