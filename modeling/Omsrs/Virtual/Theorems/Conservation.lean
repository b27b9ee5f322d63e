import Omsrs.Replica.Theorems.Conservation
import Omsrs.Virtual.Theorems.Mirror

/-!
# Conservation in the two brokers

The virtual broker keeps quantities that add up in its orders and in the copies of its users, unless a
quantity is modified, or a status is forced on an order whose parts it does not replace.
-/

namespace Omsrs.Virtual
open Omsrs.Lib Omsrs.Replica

variable {R : Type} {w : World ℚ R} {b b' : VirtualBroker ℚ R}

/-! ## What is stored -/

/-- A stored order: under its id, or the copy of a user at its place. -/
def VirtualBroker.stored (b : VirtualBroker ℚ R) : String ⊕ Nat × Nat → Option (VirtualOrder ℚ R)
  | .inl orderId => b.orders.get? orderId
  | .inr (i, j) => (b.users[i]?).bind (·.orders[j]?)

/-- The quantities of every stored order add up. -/
def AllBalanced (b : VirtualBroker ℚ R) : Prop :=
  ∀ place o, b.stored place = some o → o.pub.Conserves

/-- The stored orders that are done stay as they are. -/
def AllFrozen (b b' : VirtualBroker ℚ R) : Prop :=
  ∀ place o, b.stored place = some o → o.isDone = true → ∃ o', b'.stored place = some o' ∧
    o'.isDone = true ∧ o'.pub.filledQuantity = o.pub.filledQuantity ∧
    o'.pub.canceledQuantity = o.pub.canceledQuantity

theorem AllFrozen.refl (b : VirtualBroker ℚ R) : AllFrozen b b := fun _ o h hd => ⟨o, h, hd, rfl, rfl⟩

theorem AllFrozen.trans {d : VirtualBroker ℚ R} (h : AllFrozen b b') (h' : AllFrozen b' d) :
    AllFrozen b d := by
  intro place o ho hd
  obtain ⟨o', ho', hd', hf, hc⟩ := h place o ho hd
  obtain ⟨o'', ho'', hd'', hf', hc'⟩ := h' place o' ho' hd'
  exact ⟨o'', ho'', hd'', hf'.trans hf, hc'.trans hc⟩

/-- The ids of the stored orders have been generated. -/
def Issued (w : World ℚ R) (b : VirtualBroker ℚ R) : Prop :=
  ∀ orderId o, b.orders.get? orderId = some o → ∃ n < b.issued, orderId = w.uuid n

/-- The quantities that come with the calls are not negative, and add up. -/
def VirtualCall.Sound : VirtualCall ℚ R → Prop
  | .orderPlace _ args => 0 ≤ ((args.get? "quantity").bind (·.asF64)).getD 0
  | .addUser user => ∀ o ∈ user.orders, o.pub.Conserves
  | _ => True

/-- The parts that a status puts in place of those of an order make its quantity. -/
def Replaces (o : PublicOrder ℚ) : Status → Prop
  | .openOrder => o.filledQuantity = 0 ∧ o.canceledQuantity = 0
  | .partialFill | .pending => o.quantity = Amount.toI64 o.quantity
  | .complete | .rejected | .canceled => True

/-- A modification that takes effect leaves the quantity of its order as it is, and a status that is
forced on an order replaces all of its parts. -/
def AllLawful (w : World ℚ R) (b : VirtualBroker ℚ R) : VirtualCall ℚ R → Prop
  | .orderModify _ orderId args => args.get? "response" = none → (b.isFailure w).1 = false →
      ∀ o, b.orders.get? orderId = some o → VOrder.namedQuantity args o.pub.toVOrder = o.pub.quantity
  | .get now orderId status => ∀ o, b.orders.get? orderId = some o → o.isDone = false →
      o.isPastDelayAt now = true → Replaces o.pub status
  | _ => True

instance (o : PublicOrder ℚ) : (status : Status) → Decidable (Replaces o status)
  | .openOrder => inferInstanceAs (Decidable (o.filledQuantity = 0 ∧ o.canceledQuantity = 0))
  | .partialFill | .pending => inferInstanceAs (Decidable (o.quantity = Amount.toI64 o.quantity))
  | .complete | .rejected | .canceled => isTrue trivial

instance (w : World ℚ R) (b : VirtualBroker ℚ R) : (call : VirtualCall ℚ R) →
    Decidable (AllLawful w b call)
  | .orderModify _ orderId args =>
      inferInstanceAs (Decidable (args.get? "response" = none → (b.isFailure w).1 = false →
        ∀ o ∈ b.orders.get? orderId, VOrder.namedQuantity args o.pub.toVOrder = o.pub.quantity))
  | .get now orderId status =>
      inferInstanceAs (Decidable (∀ o ∈ b.orders.get? orderId, o.isDone = false →
        o.isPastDelayAt now = true → Replaces o.pub status))
  | .orderPlace _ _ | .orderCancel _ _ _ | .addUser _ | .setFailureRate _ => isTrue trivial

/-! ## Orders -/

/-- A status keeps an open order that adds up exactly when it replaces all of its parts. -/
theorem modifyOrderByStatus_conserves_iff
    (hw : ∀ rng n, 1 < n → 1 ≤ (w.genRange rng n).1 ∧ (w.genRange rng n).1 < n)
    {o : VirtualOrder ℚ R} (h : o.pub.Conserves) (hd : o.isDone = false) (status : Status) :
    (o.modifyOrderByStatus w status).pub.Conserves ↔ Replaces o.pub status := by
  have hp := open_pending hd
  have hq : 0 < o.pub.quantity := hp.trans_le h.pending.2
  obtain ⟨a, c, rng, hsplit, hsum, hparts⟩ := split_cases w hw o
  have hcast : (a : ℚ) + c = Amount.toI64 o.pub.quantity := by exact_mod_cast hsum
  have hrest : o.pub.quantity = Amount.toI64 o.pub.quantity → (0 : ℚ) ≤ a ∧ (0 : ℚ) ≤ c := by
    intro he
    have hone : 1 ≤ Amount.toI64 o.pub.quantity := by
      rw [he] at hq
      exact_mod_cast hq
    rcases hparts with ⟨ha, hc⟩ | ⟨rfl, -⟩
    · exact ⟨by exact_mod_cast (by omega : 0 ≤ a), by exact_mod_cast (by omega : 0 ≤ c)⟩
    · exact ⟨by norm_num, by exact_mod_cast (by omega : 0 ≤ c)⟩
  cases status with
  | complete =>
      refine iff_of_true (.of_sum hq.le le_rfl le_rfl ?_) trivial
      show o.pub.quantity + 0 + 0 = o.pub.quantity
      linarith
  | rejected =>
      refine iff_of_true (.of_sum le_rfl le_rfl hq.le ?_) trivial
      show 0 + 0 + o.pub.quantity = o.pub.quantity
      linarith
  | canceled =>
      refine iff_of_true (.of_sum le_rfl le_rfl hq.le ?_) trivial
      show 0 + 0 + o.pub.quantity = o.pub.quantity
      linarith
  | openOrder =>
      have hf := h.filled.1
      have hc := h.canceled.1
      have htotal := h.sum
      constructor
      · intro h'
        have hsum' : 0 + o.pub.pendingQuantity + 0 = o.pub.quantity := h'.sum
        exact ⟨by linarith, by linarith⟩
      · rintro ⟨hf0, hc0⟩
        refine .of_sum le_rfl hp.le le_rfl ?_
        show 0 + o.pub.pendingQuantity + 0 = o.pub.quantity
        linarith
  | partialFill =>
      simp only [VirtualOrder.modifyOrderByStatus, hsplit]
      constructor
      · intro h'
        have hsum' : (a : ℚ) + 0 + c = o.pub.quantity := h'.sum
        show o.pub.quantity = Amount.toI64 o.pub.quantity
        linarith
      · intro he
        have he' : o.pub.quantity = Amount.toI64 o.pub.quantity := he
        obtain ⟨ha, hc⟩ := hrest he'
        refine .of_sum ha le_rfl hc ?_
        show (a : ℚ) + 0 + c = o.pub.quantity
        linarith
  | pending =>
      simp only [VirtualOrder.modifyOrderByStatus, hsplit]
      constructor
      · intro h'
        have hsum' : (a : ℚ) + c + 0 = o.pub.quantity := h'.sum
        show o.pub.quantity = Amount.toI64 o.pub.quantity
        linarith
      · intro he
        have he' : o.pub.quantity = Amount.toI64 o.pub.quantity := he
        obtain ⟨ha, hc⟩ := hrest he'
        refine .of_sum ha hc le_rfl ?_
        show (a : ℚ) + c + 0 = o.pub.quantity
        linarith

/-- Canceling what is left of an order. -/
theorem cancelOrder_settles {o : VirtualOrder ℚ R} (h : o.pub.Conserves) :
    VOrder.Settles o.pub.toVOrder (VirtualBroker.cancelOrder o).pub.toVOrder := by
  have hc : (VirtualBroker.cancelOrder o).pub.canceledQuantity =
      o.pub.quantity - o.pub.filledQuantity := rfl
  have hconserves : (VirtualBroker.cancelOrder o).pub.Conserves := by
    refine .of_sum h.filled.1 le_rfl (by rw [hc]; linarith [h.filled.2]) ?_
    show o.pub.filledQuantity + 0 + (o.pub.quantity - o.pub.filledQuantity) = o.pub.quantity
    linarith
  refine ⟨hconserves, fun hd => ⟨hconserves.isDone_iff.mpr rfl, rfl, ?_⟩⟩
  have hp := h.isDone_iff.mp hd
  have hsum := h.sum
  rw [hc]
  linarith

/-! ## Places -/

theorem balanced_of_stored (hb : AllBalanced b) (h : ∀ place, b'.stored place = b.stored place) :
    AllBalanced b' ∧ AllFrozen b b' :=
  ⟨fun place o ho => hb place o (h place ▸ ho), fun place o ho hd => ⟨o, (h place).trans ho, hd, rfl, rfl⟩⟩

/-- An order goes back under its id. -/
theorem stored_insert (b : VirtualBroker ℚ R) (orderId : String) (o : VirtualOrder ℚ R)
    (place : String ⊕ Nat × Nat) :
    ({ b with orders := b.orders.insert orderId o } : VirtualBroker ℚ R).stored place =
      if place = .inl orderId then some o else b.stored place := by
  rcases place with id | ⟨i, j⟩
  · simp only [VirtualBroker.stored, OrdMap.get?_insert, Sum.inl.injEq]
  · simp only [VirtualBroker.stored, reduceCtorEq, if_false]

theorem insert_balanced_iff (hb : AllBalanced b) (orderId : String) (o : VirtualOrder ℚ R) :
    AllBalanced { b with orders := b.orders.insert orderId o } ↔ o.pub.Conserves := by
  constructor
  · exact fun h => h (.inl orderId) o (by rw [stored_insert, if_pos rfl])
  · intro ho place o' h
    rw [stored_insert] at h
    split at h
    · cases h
      exact ho
    · exact hb place o' h

theorem insert_frozen {orderId : String} {o o' : VirtualOrder ℚ R}
    (hg : b.orders.get? orderId = some o) (hs : VOrder.Settles o.pub.toVOrder o'.pub.toVOrder) :
    AllFrozen b { b with orders := b.orders.insert orderId o' } := by
  intro place x hx hd
  rw [stored_insert]
  split
  · rename_i he
    subst he
    obtain rfl : o = x := Option.some.inj (hg.symm.trans hx)
    exact ⟨o', rfl, hs.done hd⟩
  · exact ⟨x, hx, hd, rfl, rfl⟩

theorem insert_settles {orderId : String} {o o' : VirtualOrder ℚ R} (hb : AllBalanced b)
    (hg : b.orders.get? orderId = some o) (hs : VOrder.Settles o.pub.toVOrder o'.pub.toVOrder) :
    AllBalanced { b with orders := b.orders.insert orderId o' } ∧
      AllFrozen b { b with orders := b.orders.insert orderId o' } :=
  ⟨(insert_balanced_iff hb orderId o').mpr hs.conserves, insert_frozen hg hs⟩

/-- A copy that is attached comes after the copies that a user has. -/
theorem attach_places (uid : String) (clone : PublicOrder ℚ) (seed : R) (users : List (VUser ℚ R))
    (i j : Nat) :
    (∀ o, ((users[i]?).bind (·.orders[j]?)) = some o →
      (((attach uid clone seed users)[i]?).bind (·.orders[j]?)) = some o) ∧
    ∀ o, (((attach uid clone seed users)[i]?).bind (·.orders[j]?)) = some o →
      ((users[i]?).bind (·.orders[j]?)) = some o ∨ o.pub = clone := by
  induction users generalizing i with
  | nil => exact ⟨fun o h => h, fun o h => .inl h⟩
  | cons u users ih =>
      unfold attach
      split
      · cases i with
        | zero =>
            simp only [List.getElem?_cons_zero, Option.bind_some]
            constructor
            · intro o ho
              have hlt : j < u.orders.length := (List.getElem?_eq_some_iff.mp ho).1
              rw [List.getElem?_append_left hlt]
              exact ho
            · intro o ho
              rw [List.getElem?_append] at ho
              split at ho
              · exact .inl ho
              · refine .inr ?_
                have := List.mem_of_getElem? ho
                rw [List.mem_singleton.mp this]
        | succ i =>
            simp only [List.getElem?_cons_succ]
            exact ⟨fun o h => h, fun o h => .inl h⟩
      · cases i with
        | zero =>
            simp only [List.getElem?_cons_zero, Option.bind_some]
            exact ⟨fun o h => h, fun o h => .inl h⟩
        | succ i =>
            simp only [List.getElem?_cons_succ]
            exact ih i

/-! ## Placing -/

/-- The quantities of the order of a placement. -/
theorem fromInit_place {init : VOrderInit ℚ} {o : VirtualOrder ℚ R}
    (h : VirtualOrder.fromInit w init = .ok o) (hf : init.filledQuantity = none)
    (hp : init.pendingQuantity = none) (hc : init.canceledQuantity = none) :
    o.pub.quantity = init.quantity ∧ o.pub.toVOrder.Unfilled ∧ Dated o.pub := by
  have hn : normaliseQuantities init.quantity 0 0 0 = (0, init.quantity, 0) := by
    rw [normaliseQuantities_eq]
    simp
  simp only [VirtualOrder.fromInit, hf, hp, hc, Option.getD_none, hn] at h
  cases hs : init.parsedSide with
  | error msg =>
      rw [hs] at h
      cases h
  | ok side =>
      cases ht : init.parsedOrderType with
      | error msg =>
          rw [hs, ht] at h
          cases h
      | ok orderType =>
          rw [hs, ht] at h
          cases h
          refine ⟨rfl, ⟨rfl, rfl, rfl⟩, rfl, ?_⟩
          cases init.averagePrice <;> rfl

/-- Nothing is stored, whether or not an id is generated. -/
structure Unplaced (b b' : VirtualBroker ℚ R) : Prop where
  orders : b'.orders = b.orders
  users : b'.users = b.users
  issued : b.issued ≤ b'.issued

/-- An order is stored under the next id, and its copy goes to a user or to none. -/
structure PlacedUnder (w : World ℚ R) (b b' : VirtualBroker ℚ R) (o : VirtualOrder ℚ R) : Prop where
  orders : b'.orders = b.orders.insert (w.uuid b.issued) o
  users : b'.users = b.users ∨ ∃ uid, b'.users = attach uid (copyOf w o.pub) w.seed b.users
  issued : b'.issued = b.issued + 1

theorem orderPlace_cases (b : VirtualBroker ℚ R) (now : Int) (args : Args ℚ) :
    Unplaced b (b.orderPlace w now args).2 ∨
      ∃ o, PlacedUnder w b (b.orderPlace w now args).2 o ∧ o.pub.toVOrder.Unfilled ∧
        o.pub.quantity = ((args.get? "quantity").bind (·.asF64)).getD 0 ∧ Dated o.pub := by
  unfold VirtualBroker.orderPlace
  cases args.get? "response" with
  | some v => exact .inl ⟨rfl, rfl, le_rfl⟩
  | none =>
      dsimp only
      have hroll : (b.isFailure w).2 = { b with drawn := b.drawn + 1 } := rfl
      generalize b.isFailure w = rolled at hroll ⊢
      obtain ⟨fails, b₁⟩ := rolled
      obtain rfl : b₁ = { b with drawn := b.drawn + 1 } := hroll
      cases fails with
      | true => exact .inl ⟨rfl, rfl, le_rfl⟩
      | false =>
          cases missingFields args with
          | cons fld rest => exact .inl ⟨rfl, rfl, le_rfl⟩
          | nil =>
              simp only [Bool.false_eq_true, if_false]
              cases hinit : VirtualOrder.fromInit w
                  (VirtualBroker.placeInit now (w.uuid b.issued) args) with
              | error msg => exact .inl ⟨rfl, rfl, Nat.le_succ _⟩
              | ok order =>
                  obtain ⟨hq, hu, hd⟩ := fromInit_place hinit rfl rfl rfl
                  simp only [OrdMap.get?_insert_self, Option.bind_some, clonedCloneWeak_eq]
                  generalize ((args.get? "userid").bind fun v : Value ℚ => v.asStr).map
                    (fun s : String => s.map Char.toUpper) = uid
                  refine .inr ⟨{ order with pub := { order.pub with
                    delay := (((args.get? "delay").bind (·.asF64)).map Amount.toI64).getD b.delayUs } },
                    ?_, ⟨hu.filled, hu.pending, hu.canceled⟩, hq, hd⟩
                  cases uid with
                  | none => exact ⟨rfl, .inl rfl, rfl⟩
                  | some uid =>
                      dsimp only
                      split
                      · exact ⟨rfl, .inr ⟨uid, rfl⟩, rfl⟩
                      · exact ⟨rfl, .inl rfl, rfl⟩

theorem copyOf_conserves {o : PublicOrder ℚ} (h : o.Conserves) : (copyOf w o).Conserves := by
  have hright := VOrder.makeRightQuantity_conserves h.nonneg h.filled.1 h.pending.1 h.canceled.1
  have hsame : VOrder.Settles o.makeRightQuantity (copyOf w o).toVOrder :=
    hright.congr rfl rfl rfl rfl
  exact hsame.conserves

theorem Issued.fresh (hu : Function.Injective w.uuid) (hi : Issued w b) :
    b.orders.get? (w.uuid b.issued) = none := by
  cases hg : b.orders.get? (w.uuid b.issued) with
  | none => rfl
  | some o =>
      obtain ⟨n, hn, he⟩ := hi _ o hg
      rw [hu he] at hn
      exact absurd hn (lt_irrefl n)

/-- A placement stores orders that add up, beside the ones that are there. -/
theorem placed_balanced (hu : Function.Injective w.uuid) (hi : Issued w b) (hb : AllBalanced b)
    {o : VirtualOrder ℚ R} (hp : PlacedUnder w b b' o) (ho : o.pub.Conserves) :
    AllBalanced b' ∧ AllFrozen b b' := by
  have hid : ∀ id, b'.stored (.inl id) = if id = w.uuid b.issued then some o else b.stored (.inl id) := by
    intro id
    simp only [VirtualBroker.stored, hp.orders, OrdMap.get?_insert]
  have hcopy : ∀ i j, (∀ x, b.stored (.inr (i, j)) = some x → b'.stored (.inr (i, j)) = some x) ∧
      ∀ x, b'.stored (.inr (i, j)) = some x → b.stored (.inr (i, j)) = some x ∨
        x.pub = copyOf w o.pub := by
    intro i j
    simp only [VirtualBroker.stored]
    rcases hp.users with h | ⟨uid, h⟩
    · rw [h]
      exact ⟨fun _ hx => hx, fun _ hx => .inl hx⟩
    · rw [h]
      exact attach_places uid (copyOf w o.pub) w.seed b.users i j
  constructor
  · rintro (id | ⟨i, j⟩) x hx
    · rw [hid] at hx
      split at hx
      · cases hx
        exact ho
      · exact hb _ x hx
    · rcases (hcopy i j).2 x hx with hx | hx
      · exact hb _ x hx
      · rw [hx]
        exact copyOf_conserves ho
  · rintro (id | ⟨i, j⟩) x hx hd
    · refine ⟨x, ?_, hd, rfl, rfl⟩
      rw [hid, if_neg]
      · exact hx
      · rintro rfl
        have := hi.fresh hu
        rw [show b.stored (.inl (w.uuid b.issued)) = none from this] at hx
        cases hx
    · exact ⟨x, (hcopy i j).1 x hx, hd, rfl, rfl⟩

theorem unplaced_balanced (hb : AllBalanced b) (hp : Unplaced b b') :
    AllBalanced b' ∧ AllFrozen b b' := by
  refine balanced_of_stored hb fun place => ?_
  rcases place with id | ⟨i, j⟩
  · simp only [VirtualBroker.stored, hp.orders]
  · simp only [VirtualBroker.stored, hp.users]

/-! ## Calls -/

/-- What a call on a stored order does, once it has drawn. -/
theorem orderModify_cases (b : VirtualBroker ℚ R) (now : Int) (orderId : String) (args : Args ℚ) :
    (Unplaced b (b.orderModify w now orderId args).2 ∧ AllLawful w b (.orderModify now orderId args)) ∨
      ∃ o, b.orders.get? orderId = some o ∧
        (AllLawful w b (.orderModify now orderId args) ↔
          VOrder.namedQuantity args o.pub.toVOrder = o.pub.quantity) ∧
        ∃ b₁, Unplaced b b₁ ∧ (b.orderModify w now orderId args).2 =
          { b₁ with orders := b₁.orders.insert orderId (VirtualBroker.modifyOrder args o) } := by
  unfold VirtualBroker.orderModify AllLawful
  cases hr : args.get? "response" with
  | some v => exact .inl ⟨⟨rfl, rfl, le_rfl⟩, fun h => by rw [hr] at h; cases h⟩
  | none =>
      dsimp only
      have hroll : (b.isFailure w).2 = { b with drawn := b.drawn + 1 } := rfl
      generalize b.isFailure w = rolled at hroll ⊢
      obtain ⟨fails, b₁⟩ := rolled
      obtain rfl : b₁ = { b with drawn := b.drawn + 1 } := hroll
      cases fails with
      | true => exact .inl ⟨⟨rfl, rfl, le_rfl⟩, by simp⟩
      | false =>
          simp only [Bool.false_eq_true, if_false]
          cases hg : b.orders.get? orderId with
          | none => exact .inl ⟨⟨rfl, rfl, le_rfl⟩, by simp⟩
          | some o =>
              exact .inr ⟨o, rfl, by simp [hr], { b with drawn := b.drawn + 1 },
                ⟨rfl, rfl, le_rfl⟩, rfl⟩

theorem orderCancel_cases (b : VirtualBroker ℚ R) (now : Int) (orderId : String) (args : Args ℚ) :
    Unplaced b (b.orderCancel w now orderId args).2 ∨
      ∃ o, b.orders.get? orderId = some o ∧
        ∃ b₁, Unplaced b b₁ ∧ (b.orderCancel w now orderId args).2 =
          { b₁ with orders := b₁.orders.insert orderId (VirtualBroker.cancelOrder o) } := by
  unfold VirtualBroker.orderCancel
  cases args.get? "response" with
  | some v => exact .inl ⟨rfl, rfl, le_rfl⟩
  | none =>
      dsimp only
      have hroll : (b.isFailure w).2 = { b with drawn := b.drawn + 1 } := rfl
      generalize b.isFailure w = rolled at hroll ⊢
      obtain ⟨fails, b₁⟩ := rolled
      obtain rfl : b₁ = { b with drawn := b.drawn + 1 } := hroll
      cases fails with
      | true => exact .inl ⟨rfl, rfl, le_rfl⟩
      | false =>
          simp only [Bool.false_eq_true, if_false]
          cases hg : b.orders.get? orderId with
          | none => exact .inl ⟨rfl, rfl, le_rfl⟩
          | some o =>
              dsimp only
              split
              · exact .inl ⟨rfl, rfl, le_rfl⟩
              · exact .inr ⟨o, rfl, { b with drawn := b.drawn + 1 }, ⟨rfl, rfl, le_rfl⟩, rfl⟩

theorem get_cases (b : VirtualBroker ℚ R) (now : Int) (orderId : String) (status : Status) :
    ((b.get w now orderId status).2 = b ∧ b.orders.get? orderId = none) ∨
      ∃ o, b.orders.get? orderId = some o ∧ (b.get w now orderId status).2 =
        { b with orders := b.orders.insert orderId (o.modifyByStatus w status now) } := by
  unfold VirtualBroker.get
  cases hg : b.orders.get? orderId with
  | none => exact .inl ⟨rfl, rfl⟩
  | some o => exact .inr ⟨o, rfl, rfl⟩

theorem modifyOrder_conserves_iff {o : VirtualOrder ℚ R} (h : o.pub.Conserves) (args : Args ℚ) :
    (VirtualBroker.modifyOrder args o).pub.Conserves ↔
      VOrder.namedQuantity args o.pub.toVOrder = o.pub.quantity := by
  constructor
  · intro h'
    have hsum : o.pub.filledQuantity + o.pub.pendingQuantity + o.pub.canceledQuantity =
      VOrder.namedQuantity args o.pub.toVOrder := h'.sum
    rw [← hsum, h.sum]
  · intro hq
    have hs : VOrder.Settles o.pub.toVOrder (VirtualBroker.modifyOrder args o).pub.toVOrder :=
      h.congr hq rfl rfl rfl
    exact hs.conserves

/-- A reader's status keeps an order that adds up where it replaces all of its parts. -/
theorem modifyByStatus_conserves_iff
    (hw : ∀ rng n, 1 < n → 1 ≤ (w.genRange rng n).1 ∧ (w.genRange rng n).1 < n)
    {o : VirtualOrder ℚ R} (h : o.pub.Conserves) (status : Status) (now : Int) :
    ((o.modifyByStatus w status now).pub.Conserves ↔
        (o.isDone = false → o.isPastDelayAt now = true → Replaces o.pub status)) ∧
      ((o.modifyByStatus w status now).pub.Conserves →
        VOrder.Settles o.pub.toVOrder (o.modifyByStatus w status now).pub.toVOrder) := by
  unfold VirtualOrder.modifyByStatus
  cases hd : o.isDone with
  | true => exact ⟨iff_of_true h nofun, fun _ => h.settles⟩
  | false =>
      cases hp : o.isPastDelayAt now with
      | false => exact ⟨iff_of_true h fun _ => nofun, fun _ => h.settles⟩
      | true =>
          simp only [Bool.false_eq_true, if_false, if_true, true_implies]
          exact ⟨modifyOrderByStatus_conserves_iff hw h hd status, fun h' => VOrder.settles_open h' hd⟩

/-- A new user comes after the others. -/
theorem addUser_balanced (hb : AllBalanced b) {user : VUser ℚ R}
    (hu : ∀ o ∈ user.orders, o.pub.Conserves) :
    AllBalanced (b.addUser user).2 ∧ AllFrozen b (b.addUser user).2 := by
  unfold VirtualBroker.addUser
  split
  · exact ⟨hb, .refl b⟩
  · constructor
    · rintro (id | ⟨i, j⟩) o ho
      · exact hb (.inl id) o ho
      · obtain ⟨u, hi, hj⟩ := Option.bind_eq_some_iff.mp ho
        dsimp only at hi hj
        rw [List.getElem?_append] at hi
        split at hi
        · exact hb (.inr (i, j)) o (Option.bind_eq_some_iff.mpr ⟨u, hi, hj⟩)
        · rw [List.mem_singleton.mp (List.mem_of_getElem? hi)] at hj
          exact hu o (List.mem_of_getElem? hj)
    · rintro (id | ⟨i, j⟩) o ho hd
      · exact ⟨o, ho, hd, rfl, rfl⟩
      · obtain ⟨u, hi, hj⟩ := Option.bind_eq_some_iff.mp ho
        refine ⟨o, Option.bind_eq_some_iff.mpr ⟨u, ?_, hj⟩, hd, rfl, rfl⟩
        dsimp only at hi ⊢
        rw [List.getElem?_append_left (List.getElem?_eq_some_iff.mp hi).1]
        exact hi

theorem Issued.unplaced (hi : Issued w b) (hp : Unplaced b b') : Issued w b' := by
  intro id o ho
  rw [hp.orders] at ho
  obtain ⟨n, hn, he⟩ := hi id o ho
  exact ⟨n, hn.trans_le hp.issued, he⟩

/-- An order goes back under its id. -/
theorem Issued.insert (hi : Issued w b) {orderId : String} {o o' : VirtualOrder ℚ R}
    (hg : b.orders.get? orderId = some o) :
    Issued w { b with orders := b.orders.insert orderId o' } := by
  intro id x hx
  rw [OrdMap.get?_insert] at hx
  split at hx
  · rename_i he
    subst he
    exact hi id o hg
  · exact hi id x hx

/-- Every call leaves the ids generated. -/
theorem step_issued (hi : Issued w b) (call : VirtualCall ℚ R) :
    Issued w ((virtualBroker w).step b call).2 := by
  cases call with
  | orderPlace now args =>
      simp only [virtualBroker, VirtualBroker.step]
      rcases orderPlace_cases (w := w) b now args with hp | ⟨o, hp, -, -⟩
      · exact hi.unplaced hp
      · intro id x hx
        rw [hp.orders, OrdMap.get?_insert] at hx
        rw [hp.issued]
        split at hx
        · exact ⟨b.issued, Nat.lt_succ_self _, ‹_›⟩
        · obtain ⟨n, hn, he⟩ := hi id x hx
          exact ⟨n, hn.trans (Nat.lt_succ_self _), he⟩
  | orderModify now orderId args =>
      simp only [virtualBroker, VirtualBroker.step]
      rcases orderModify_cases (w := w) b now orderId args with ⟨hp, -⟩ | ⟨o, hg, -, b₁, hp, he⟩
      · exact hi.unplaced hp
      · rw [he]
        exact (hi.unplaced hp).insert (by rw [hp.orders]; exact hg)
  | orderCancel now orderId args =>
      simp only [virtualBroker, VirtualBroker.step]
      rcases orderCancel_cases (w := w) b now orderId args with hp | ⟨o, hg, b₁, hp, he⟩
      · exact hi.unplaced hp
      · rw [he]
        exact (hi.unplaced hp).insert (by rw [hp.orders]; exact hg)
  | get now orderId status =>
      simp only [virtualBroker, VirtualBroker.step]
      rcases get_cases (w := w) b now orderId status with ⟨he, -⟩ | ⟨o, hg, he⟩
      · rw [he]
        exact hi
      · rw [he]
        exact hi.insert hg
  | addUser user =>
      simp only [virtualBroker, VirtualBroker.step, VirtualBroker.addUser]
      split <;> exact hi
  | setFailureRate v =>
      simp only [virtualBroker, VirtualBroker.step, VirtualBroker.setFailureRate]
      split <;> exact hi

/-- A call keeps the balance exactly when it is lawful, and then keeps what is done. -/
theorem step_allBalanced (hu : Function.Injective w.uuid)
    (hw : ∀ rng n, 1 < n → 1 ≤ (w.genRange rng n).1 ∧ (w.genRange rng n).1 < n)
    (hi : Issued w b) (hb : AllBalanced b) (call : VirtualCall ℚ R) (hc : call.Sound) :
    (AllBalanced ((virtualBroker w).step b call).2 ↔ AllLawful w b call) ∧
      (AllLawful w b call → AllFrozen b ((virtualBroker w).step b call).2) := by
  have trivially : ∀ {call : VirtualCall ℚ R} {b' : VirtualBroker ℚ R}, AllLawful w b call →
      AllBalanced b' ∧ AllFrozen b b' →
      (AllBalanced b' ↔ AllLawful w b call) ∧ (AllLawful w b call → AllFrozen b b') :=
    fun hl h => ⟨iff_of_true h.1 hl, fun _ => h.2⟩
  cases call with
  | orderPlace now args =>
      simp only [virtualBroker, VirtualBroker.step]
      refine trivially trivial ?_
      rcases orderPlace_cases (w := w) b now args with hp | ⟨o, hp, hnew, hq, -⟩
      · exact unplaced_balanced hb hp
      · exact placed_balanced hu hi hb hp (hnew.conserves (hq ▸ hc))
  | orderModify now orderId args =>
      simp only [virtualBroker, VirtualBroker.step]
      rcases orderModify_cases (w := w) b now orderId args with ⟨hp, hl⟩ | ⟨o, hg, hl, b₁, hp, he⟩
      · exact trivially hl (unplaced_balanced hb hp)
      · obtain ⟨hb₁, hf₁⟩ := unplaced_balanced hb hp
        have ho := hb (.inl orderId) o hg
        rw [he, hl, insert_balanced_iff hb₁, modifyOrder_conserves_iff ho]
        refine ⟨Iff.rfl, fun hq => hf₁.trans (insert_frozen (by rw [hp.orders]; exact hg) ?_)⟩
        exact ho.congr hq rfl rfl rfl
  | orderCancel now orderId args =>
      simp only [virtualBroker, VirtualBroker.step]
      refine trivially trivial ?_
      rcases orderCancel_cases (w := w) b now orderId args with hp | ⟨o, hg, b₁, hp, he⟩
      · exact unplaced_balanced hb hp
      · obtain ⟨hb₁, hf₁⟩ := unplaced_balanced hb hp
        obtain ⟨hb₂, hf₂⟩ := insert_settles hb₁ (by rw [hp.orders]; exact hg)
          (cancelOrder_settles (hb (.inl orderId) o hg))
        rw [he]
        exact ⟨hb₂, hf₁.trans hf₂⟩
  | get now orderId status =>
      simp only [virtualBroker, VirtualBroker.step]
      rcases get_cases (w := w) b now orderId status with ⟨he, hg⟩ | ⟨o, hg, he⟩
      · rw [he]
        exact trivially (fun o ho => by rw [hg] at ho; cases ho) ⟨hb, .refl b⟩
      · obtain ⟨hkept, hsettles⟩ := modifyByStatus_conserves_iff hw (hb (.inl orderId) o hg) status now
        have hl : AllLawful w b (.get now orderId status) ↔
            (o.isDone = false → o.isPastDelayAt now = true → Replaces o.pub status) := by
          simp only [AllLawful, hg, Option.some.injEq, forall_eq']
        rw [he, hl, insert_balanced_iff hb, ← hkept]
        exact ⟨Iff.rfl, fun h => insert_frozen hg (hsettles h)⟩
  | addUser user =>
      simp only [virtualBroker, VirtualBroker.step]
      exact trivially trivial (addUser_balanced hb hc)
  | setFailureRate v =>
      refine trivially trivial (balanced_of_stored hb fun place => ?_)
      simp only [virtualBroker, VirtualBroker.step, VirtualBroker.setFailureRate]
      split <;> rfl

/-! ## Runs -/

/-- In a run of calls with quantities that are not negative, the quantities of every stored order add up
in every state, and an order that is done stays as it is from then on, exactly when every call is lawful
where it is made. -/
theorem brokers_conserve_iff (w : World ℚ R) (hu : Function.Injective w.uuid)
    (hw : ∀ rng n, 1 < n → 1 ≤ (w.genRange rng n).1 ∧ (w.genRange rng n).1 < n) :
    (∀ calls : List (BrokerCall ℚ), (∀ call ∈ calls, call.Sound) →
      ((∀ pre mid, pre ++ mid <+: calls →
          Balanced ((replicaBroker w.uuid).final .new pre) ∧
          Frozen ((replicaBroker w.uuid).final .new pre)
            ((replicaBroker w.uuid).final .new (pre ++ mid))) ↔
        (replicaBroker w.uuid).Always Lawful .new calls)) ∧
    (∀ calls : List (VirtualCall ℚ R), (∀ call ∈ calls, call.Sound) →
      ((∀ pre mid, pre ++ mid <+: calls →
          AllBalanced ((virtualBroker w).final .new pre) ∧
          AllFrozen ((virtualBroker w).final .new pre) ((virtualBroker w).final .new (pre ++ mid))) ↔
        (virtualBroker w).Always (AllLawful w) .new calls)) := by
  constructor
  · intro calls hcalls
    have hnew : Balanced (.new : ReplicaBroker ℚ) := fun h o ho => by cases ho
    exact (replicaBroker w.uuid).steady_iff_always (I := Balanced) (J := fun _ => True) Frozen.refl
      Frozen.trans (fun _ _ _ _ => trivial)
      (fun b call hc _ hb => step_balanced hb call hc) trivial hnew hcalls
  · intro calls hcalls
    have hnew : AllBalanced (.new : VirtualBroker ℚ R) := by
      rintro (id | ⟨i, j⟩) o ho <;> cases ho
    have hissued : Issued w (.new : VirtualBroker ℚ R) := fun id o ho => by cases ho
    exact (virtualBroker w).steady_iff_always (I := AllBalanced) (J := Issued w) AllFrozen.refl
      AllFrozen.trans (fun b call _ hi => step_issued hi call)
      (fun b call hc hi hb => step_allBalanced hu hw hi hb call hc) hissued hnew hcalls

namespace Sample

theorem calm_injective : Function.Injective calm.uuid := Replica.Sample.ids_injective

def buyTenAt124 : Args ℚ := buyTen.insertAll [("order_type", .int 2), ("price", .int 124)]

/-- An order that the market meets later. -/
def metAtLast : List (BrokerCall ℚ) :=
  [.update [⟨"AAPL", 125⟩], .orderPlace buyTenAt124, .runFill, .update [⟨"AAPL", 123⟩], .runFill]

/-- An order is canceled before its price is met. -/
def canceledEarly : List (BrokerCall ℚ) :=
  [.update [⟨"AAPL", 125⟩], .orderPlace buyTenAt124, .orderCancel (calm.uuid 0)]

end Sample

open Sample in
/-- The order that the market meets later and the one that is partly filled add up in every state. -/
theorem brokers_conserve_calm :
    (∀ pre mid, pre ++ mid <+: metAtLast →
        Balanced ((replicaBroker calm.uuid).final .new pre) ∧
        Frozen ((replicaBroker calm.uuid).final .new pre)
          ((replicaBroker calm.uuid).final .new (pre ++ mid))) ∧
      ∀ pre mid, pre ++ mid <+: partly →
        AllBalanced ((virtualBroker calm).final .new pre) ∧
        AllFrozen ((virtualBroker calm).final .new pre)
          ((virtualBroker calm).final .new (pre ++ mid)) := by
  obtain ⟨hreplica, hvirtual⟩ := brokers_conserve_iff calm calm_injective fun _ _ h => ⟨le_rfl, h⟩
  constructor
  · exact (hreplica metAtLast (by decide +kernel)).mpr (by decide +kernel)
  · refine (hvirtual partly ?_).mpr (by decide +kernel)
    simp only [partly, List.mem_cons, List.not_mem_nil, or_false]
    rintro call (rfl | rfl | rfl)
    · show 0 ≤ ((buyTen.get? "quantity").bind (·.asF64)).getD 0
      decide +kernel
    · trivial
    · trivial

open Sample in
/-- The canceled order has ten canceled and ten pending, and the doubled one ten pending of twenty. -/
theorem canceled_order_counts_twice :
    (¬ ∀ uuid : Nat → String, Function.Injective uuid →
        ∀ calls : List (BrokerCall ℚ), (∀ call ∈ calls, call.Sound) →
          Balanced ((replicaBroker uuid).final .new calls)) ∧
      ¬ ∀ w : World ℚ Unit, Function.Injective w.uuid →
        (∀ rng n, 1 < n → 1 ≤ (w.genRange rng n).1 ∧ (w.genRange rng n).1 < n) →
        ∀ calls : List (VirtualCall ℚ Unit), (∀ call ∈ calls, call.Sound) →
          AllBalanced ((virtualBroker w).final .new calls) := by
  constructor
  · intro h
    have hb := h calm.uuid calm_injective canceledEarly (by
      simp only [canceledEarly, List.mem_cons, List.not_mem_nil, or_false]
      rintro call (rfl | rfl | rfl)
      · trivial
      · show 0 ≤ ((buyTenAt124.get? "quantity").bind (·.asF64)).getD 0
        decide +kernel
      · trivial)
    have hcell : ∃ o, ((replicaBroker calm.uuid).final .new canceledEarly).cell 0 = some o ∧
        o.filledQuantity + o.pendingQuantity + o.canceledQuantity ≠ o.quantity := by
      decide +kernel
    obtain ⟨o, ho, hne⟩ := hcell
    exact hne (hb 0 o ho).sum
  · intro h
    have hb := h calm calm_injective (fun _ _ h => ⟨le_rfl, h⟩) doubled (by
      simp only [doubled, List.mem_cons, List.not_mem_nil, or_false]
      rintro call (rfl | rfl | rfl)
      · show 0 ≤ ((buyTen.get? "quantity").bind (·.asF64)).getD 0
        decide +kernel
      · trivial
      · trivial)
    have hstored : ∃ o, ((virtualBroker calm).final .new doubled).stored (.inl (calm.uuid 0)) = some o ∧
        o.pub.filledQuantity + o.pub.pendingQuantity + o.pub.canceledQuantity ≠ o.pub.quantity := by
      decide +kernel
    obtain ⟨o, ho, hne⟩ := hstored
    exact hne (hb (.inl (calm.uuid 0)) o ho).sum

end Omsrs.Virtual
