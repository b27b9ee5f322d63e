import Omsrs.Virtual.Theorems.Conservation

/-!
# Snapshots of the virtual brokers

The copies that the brokers hand out are their orders as they stand, unless a quantity was modified or a
status was forced on an order whose parts it does not replace.
-/

namespace Omsrs.Virtual
open Omsrs.Lib Omsrs.Replica

variable {R : Type} {w : World ℚ R} {b b' : VirtualBroker ℚ R}

/-! ## Faithful copies -/

/-- Every order can be copied, and its copy has its fields and its status. -/
def Faithful (w : World ℚ R) (b : VirtualBroker ℚ R) : Prop :=
  ∀ orderId o, b.orders.get? orderId = some o → ∃ clone, VirtualOrder.clonedCloneWeak w o.pub = some clone ∧
    clone = o.pub ∧ (⟨clone, w.seed⟩ : VirtualOrder ℚ R).status = o.status

/-- The order that a reply shows. -/
def VirtualReply.shown : VirtualReply ℚ → Option (PublicOrder ℚ)
  | .order (.order r) => r.data
  | .got o => o
  | .order (.passthrough _) | .added _ | .rate _ => none

/-- A reply shows no order but one that is stored like that. -/
def ShowsStored (b : VirtualBroker ℚ R) (reply : VirtualReply ℚ) : Prop :=
  ∀ p, reply.shown = some p → ∃ orderId o, b.orders.get? orderId = some o ∧ o.pub = p

theorem faithful_iff : Faithful w b ↔
    ∀ orderId o, b.orders.get? orderId = some o → Upright o.pub ∧ Dated o.pub := by
  simp only [Faithful, clonedCloneWeak_eq, Option.some.injEq, exists_eq_left', copyOf_eq_iff]
  constructor
  · exact fun h orderId o ho => (h orderId o ho).1
  · intro h orderId o ho
    refine ⟨h orderId o ho, ?_⟩
    rw [(copyOf_eq_iff w o.pub).mpr (h orderId o ho)]
    rfl

/-- The copy of all orders shows every order as it stands. -/
theorem orders_faithful (h : Faithful w b) (orderId : String) :
    ((⟨b⟩ : AsyncVirtualBroker ℚ R).orders w).get? orderId = (b.orders.get? orderId).map (·.pub) := by
  have hcopies : (b.orders.entries.filterMap fun e =>
      (VirtualOrder.clonedCloneWeak w e.2.pub).map fun clone => (e.1, clone)) =
      b.orders.entries.map fun e => (e.1, copyOf w e.2.pub) := by
    simp only [clonedCloneWeak_eq, Option.map_some, List.filterMap_eq_map']
  rw [AsyncVirtualBroker.orders, hcopies,
    OrdMap.get?_insertAll_map b.orders (fun o => copyOf w o.pub)]
  cases ho : b.orders.get? orderId with
  | none => rfl
  | some o => simp only [Option.map_some, (copyOf_eq_iff w o.pub).mpr (faithful_iff.mp h orderId o ho)]

/-! ## Orders with right quantities -/

/-- The parts of an order make its quantity, and nothing is pending of what was canceled. -/
structure Steady (o : PublicOrder ℚ) : Prop where
  conserves : o.Conserves
  dated : Dated o
  apart : 0 < o.canceledQuantity → o.pendingQuantity = 0

theorem Steady.upright {o : PublicOrder ℚ} (h : Steady o) : Upright o := by
  obtain ⟨hf, hp, hc, hsum⟩ := h.conserves
  unfold Upright
  rcases hc.1.lt_or_eq with hc' | hc'
  · have hp0 := h.apart hc'
    exact (normalise_canceled hc').mpr ⟨hc.2, by linarith, hp0⟩
  · rcases hf.1.lt_or_eq with hf' | hf'
    · exact (normalise_filled hc'.ge hf').mpr ⟨hf.2, by linarith⟩
    · rcases hp.1.lt_or_eq with hp' | hp'
      · exact (normalise_pending hc'.ge hf'.ge hp').mpr ⟨hp.2, by linarith⟩
      · exact (normalise_none hc'.ge hf'.ge hp'.ge).mpr (by linarith)

/-- A new quantity leaves the quantities right exactly where it is the old one. -/
theorem Steady.modify_iff {o : VirtualOrder ℚ R} (h : Steady o.pub) (args : Args ℚ) :
    Upright (VirtualBroker.modifyOrder args o).pub ↔
      VOrder.namedQuantity args o.pub.toVOrder = o.pub.quantity := by
  obtain ⟨hf, hp, hc, hsum⟩ := h.conserves
  show normaliseQuantities (VOrder.namedQuantity args o.pub.toVOrder) o.pub.filledQuantity
    o.pub.pendingQuantity o.pub.canceledQuantity = _ ↔ _
  generalize VOrder.namedQuantity args o.pub.toVOrder = q
  show normaliseQuantities q o.pub.filledQuantity o.pub.pendingQuantity o.pub.canceledQuantity =
    (o.pub.filledQuantity, o.pub.pendingQuantity, o.pub.canceledQuantity) ↔ _
  rcases hc.1.lt_or_eq with hc' | hc'
  · have hp0 := h.apart hc'
    rw [normalise_canceled hc']
    constructor
    · rintro ⟨-, he, -⟩
      linarith
    · rintro rfl
      exact ⟨hc.2, by linarith, hp0⟩
  · rcases hf.1.lt_or_eq with hf' | hf'
    · rw [normalise_filled hc'.ge hf']
      constructor
      · rintro ⟨-, he⟩
        linarith
      · rintro rfl
        exact ⟨hf.2, by linarith⟩
    · rcases hp.1.lt_or_eq with hp' | hp'
      · rw [normalise_pending hc'.ge hf'.ge hp']
        constructor
        · rintro ⟨-, he⟩
          linarith
        · rintro rfl
          exact ⟨hp.2, by linarith⟩
      · rw [normalise_none hc'.ge hf'.ge hp'.ge]
        constructor
        · intro he
          linarith
        · rintro rfl
          linarith

theorem Steady.modify {o : VirtualOrder ℚ R} (h : Steady o.pub) {args : Args ℚ}
    (hq : VOrder.namedQuantity args o.pub.toVOrder = o.pub.quantity) :
    Steady (VirtualBroker.modifyOrder args o).pub :=
  ⟨(modifyOrder_conserves_iff h.conserves args).mpr hq, h.dated, h.apart⟩

theorem Steady.cancel {o : VirtualOrder ℚ R} (h : Steady o.pub) :
    Steady (VirtualBroker.cancelOrder o).pub :=
  ⟨(cancelOrder_settles h.conserves).conserves, h.dated, fun _ => rfl⟩

/-- A forced status suits an open order exactly where it replaces all of its parts. -/
theorem Steady.suits_iff {o : PublicOrder ℚ} (h : Steady o) (hp : 0 < o.pendingQuantity)
    (status : Status) : Suits o status ↔ Replaces o status := by
  obtain ⟨hf, hp', hc, hsum⟩ := h.conserves
  have hq : 0 < o.quantity := hp.trans_le hp'.2
  have hone : o.quantity = Amount.toI64 o.quantity → 1 ≤ o.quantity := by
    intro he
    rw [he] at hq ⊢
    have : 0 < Amount.toI64 o.quantity := by exact_mod_cast hq
    exact_mod_cast this
  cases status with
  | complete => exact iff_of_true hq.le trivial
  | rejected => exact iff_of_true hq.le trivial
  | canceled => exact iff_of_true hq.le trivial
  | openOrder =>
      show o.pendingQuantity = o.quantity ↔ o.filledQuantity = 0 ∧ o.canceledQuantity = 0
      constructor
      · intro he
        exact ⟨by linarith [hf.1, hc.1], by linarith [hf.1, hc.1]⟩
      · rintro ⟨h₁, h₂⟩
        linarith
  | partialFill => exact ⟨fun h => h.2, fun he => ⟨hone he, he⟩⟩
  | pending => exact ⟨fun h => h.2, fun he => ⟨hone he, he⟩⟩

/-- What a reader's status makes of an order. -/
theorem Steady.modifyByStatus
    (hw : ∀ rng n, 1 < n → 1 ≤ (w.genRange rng n).1 ∧ (w.genRange rng n).1 < n)
    {o : VirtualOrder ℚ R} (h : Steady o.pub) (status : Status) (now : Int) :
    (Upright (o.modifyByStatus w status now).pub ∧ Dated (o.modifyByStatus w status now).pub ↔
        (o.isDone = false → o.isPastDelayAt now = true → Replaces o.pub status)) ∧
      ((o.isDone = false → o.isPastDelayAt now = true → Replaces o.pub status) →
        Steady (o.modifyByStatus w status now).pub) := by
  unfold VirtualOrder.modifyByStatus
  cases hd : o.isDone with
  | true => exact ⟨iff_of_true ⟨h.upright, h.dated⟩ nofun, fun _ => h⟩
  | false =>
      cases hp : o.isPastDelayAt now with
      | false => exact ⟨iff_of_true ⟨h.upright, h.dated⟩ fun _ => nofun, fun _ => h⟩
      | true =>
          simp only [Bool.false_eq_true, if_false, if_true, true_implies,
            upright_iff_suits w hw hd, modifyOrderByStatus_dated, h.suits_iff (open_pending hd)]
          refine ⟨and_iff_left h.dated, fun hr => ?_⟩
          refine ⟨(modifyOrderByStatus_conserves_iff hw h.conserves hd status).mpr hr,
            (modifyOrderByStatus_dated w status o).mpr h.dated, ?_⟩
          cases status with
          | openOrder => exact fun hc => absurd hc (lt_irrefl 0)
          | pending => exact fun hc => absurd hc (lt_irrefl 0)
          | _ => exact fun _ => rfl

/-! ## Calls -/

def AllSteady (b : VirtualBroker ℚ R) : Prop := ∀ orderId o, b.orders.get? orderId = some o → Steady o.pub

/-- The quantity of a placement is not negative. -/
def VirtualCall.NonNegative : VirtualCall ℚ R → Prop
  | .orderPlace _ args => 0 ≤ ((args.get? "quantity").bind (·.asF64)).getD 0
  | _ => True

theorem AllSteady.faithful (h : AllSteady b) : Faithful w b :=
  faithful_iff.mpr fun orderId o ho => ⟨(h orderId o ho).upright, (h orderId o ho).dated⟩

theorem AllSteady.of_orders (h : AllSteady b) (he : b'.orders = b.orders) : AllSteady b' := by
  intro orderId o ho
  rw [he] at ho
  exact h orderId o ho

theorem AllSteady.insert_iff (h : AllSteady b) {orderId : String} {o : VirtualOrder ℚ R}
    (he : b'.orders = b.orders.insert orderId o) : Faithful w b' ↔ Upright o.pub ∧ Dated o.pub := by
  rw [faithful_iff, he]
  constructor
  · exact fun hall => hall orderId o (OrdMap.get?_insert_self ..)
  · intro ho id x hx
    rw [OrdMap.get?_insert] at hx
    split at hx
    · cases hx
      exact ho
    · exact ⟨(h id x hx).upright, (h id x hx).dated⟩

theorem AllSteady.insert (h : AllSteady b) {orderId : String} {o : VirtualOrder ℚ R}
    (he : b'.orders = b.orders.insert orderId o) (ho : Steady o.pub) : AllSteady b' := by
  intro id x hx
  rw [he, OrdMap.get?_insert] at hx
  split at hx
  · cases hx
    exact ho
  · exact h id x hx

/-- A call leaves every copy faithful exactly when it is lawful. -/
theorem step_faithful (hw : ∀ rng n, 1 < n → 1 ≤ (w.genRange rng n).1 ∧ (w.genRange rng n).1 < n)
    (h : AllSteady b) (call : VirtualCall ℚ R) (hc : call.NonNegative) :
    (Faithful w ((virtualBroker w).step b call).2 ↔ AllLawful w b call) ∧
      (AllLawful w b call → AllSteady ((virtualBroker w).step b call).2) := by
  have kept : ∀ {call : VirtualCall ℚ R} {b' : VirtualBroker ℚ R}, AllLawful w b call → AllSteady b' →
      (Faithful w b' ↔ AllLawful w b call) ∧ (AllLawful w b call → AllSteady b') :=
    fun hl hb => ⟨iff_of_true hb.faithful hl, fun _ => hb⟩
  cases call with
  | orderPlace now args =>
      simp only [virtualBroker, VirtualBroker.step]
      refine kept trivial ?_
      rcases orderPlace_cases (w := w) b now args with hp | ⟨o, hp, hnew, hq, hd⟩
      · exact h.of_orders hp.orders
      · refine h.insert hp.orders ⟨hnew.conserves (hq ▸ hc), hd, fun hpos => ?_⟩
        rw [hnew.canceled] at hpos
        exact absurd hpos (lt_irrefl 0)
  | orderModify now orderId args =>
      simp only [virtualBroker, VirtualBroker.step]
      rcases orderModify_cases (w := w) b now orderId args with ⟨hp, hl⟩ | ⟨o, hg, hl, b₁, hp, he⟩
      · exact kept hl (h.of_orders hp.orders)
      · have ho := h orderId o hg
        rw [he, hl, (h.of_orders hp.orders).insert_iff rfl, ho.modify_iff]
        exact ⟨and_iff_left ho.dated, fun hq => (h.of_orders hp.orders).insert rfl (ho.modify hq)⟩
  | orderCancel now orderId args =>
      simp only [virtualBroker, VirtualBroker.step]
      refine kept trivial ?_
      rcases orderCancel_cases (w := w) b now orderId args with hp | ⟨o, hg, b₁, hp, he⟩
      · exact h.of_orders hp.orders
      · rw [he]
        exact (h.of_orders hp.orders).insert rfl (h orderId o hg).cancel
  | get now orderId status =>
      simp only [virtualBroker, VirtualBroker.step]
      rcases get_cases (w := w) b now orderId status with ⟨he, hg⟩ | ⟨o, hg, he⟩
      · rw [he]
        exact kept (fun o ho => by rw [hg] at ho; cases ho) h
      · obtain ⟨hiff, hsteady⟩ := (h orderId o hg).modifyByStatus hw status now
        have hl : AllLawful w b (.get now orderId status) ↔
            (o.isDone = false → o.isPastDelayAt now = true → Replaces o.pub status) := by
          simp only [AllLawful, hg, Option.some.injEq, forall_eq']
        rw [he, hl, h.insert_iff rfl, hiff]
        exact ⟨Iff.rfl, fun hr => h.insert rfl (hsteady hr)⟩
  | addUser user =>
      refine kept trivial (h.of_orders ?_)
      simp only [virtualBroker, VirtualBroker.step, VirtualBroker.addUser]
      split <;> rfl
  | setFailureRate v =>
      refine kept trivial (h.of_orders ?_)
      simp only [virtualBroker, VirtualBroker.step, VirtualBroker.setFailureRate]
      split <;> rfl

/-! ## Replies -/

/-- An order of the store as it stands, or its copy. -/
def StoredOrCopied (w : World ℚ R) (b : VirtualBroker ℚ R) (p : PublicOrder ℚ) : Prop :=
  ∃ orderId o, b.orders.get? orderId = some o ∧ (p = o.pub ∨ p = copyOf w o.pub)

theorem place_shown {now : Int} {args : Args ℚ} {p : PublicOrder ℚ}
    (h : (VirtualReply.order (b.orderPlace w now args).1).shown = some p) :
    StoredOrCopied w (b.orderPlace w now args).2 p := by
  unfold VirtualBroker.orderPlace at h ⊢
  cases hr : args.get? "response" with
  | some v =>
      rw [hr] at h
      cases h
  | none =>
      rw [hr] at h
      dsimp only at h ⊢
      generalize b.isFailure w = rolled at h ⊢
      obtain ⟨fails, b₁⟩ := rolled
      cases fails with
      | true => cases h
      | false =>
          simp only [Bool.false_eq_true, if_false] at h ⊢
          cases hm : missingFields args with
          | cons fld rest =>
              rw [hm] at h
              cases h
          | nil =>
              rw [hm] at h
              dsimp only at h ⊢
              cases hi : VirtualOrder.fromInit w
                  (VirtualBroker.placeInit now (w.uuid b₁.issued) args) with
              | error msg =>
                  rw [hi] at h
                  cases h
              | ok order =>
                  rw [hi] at h
                  simp only [OrdMap.get?_insert_self, Option.bind_some, clonedCloneWeak_eq] at h ⊢
                  cases h
                  refine ⟨w.uuid b₁.issued, { order with pub := { order.pub with
                    delay := (((args.get? "delay").bind (·.asF64)).map Amount.toI64).getD b₁.delayUs } },
                    ?_, .inr rfl⟩
                  generalize ((args.get? "userid").bind fun v : Value ℚ => v.asStr).map
                    (fun s : String => s.map Char.toUpper) = uid
                  cases uid with
                  | none => exact OrdMap.get?_insert_self ..
                  | some uid =>
                      dsimp only
                      split <;> exact OrdMap.get?_insert_self ..

theorem modify_shown {now : Int} {orderId : String} {args : Args ℚ} {p : PublicOrder ℚ}
    (h : (VirtualReply.order (b.orderModify w now orderId args).1).shown = some p) :
    StoredOrCopied w (b.orderModify w now orderId args).2 p := by
  unfold VirtualBroker.orderModify at h ⊢
  cases hr : args.get? "response" with
  | some v =>
      rw [hr] at h
      cases h
  | none =>
      rw [hr] at h
      dsimp only at h ⊢
      generalize b.isFailure w = rolled at h ⊢
      obtain ⟨fails, b₁⟩ := rolled
      cases fails with
      | true => cases h
      | false =>
          simp only [Bool.false_eq_true, if_false] at h ⊢
          cases hg : b₁.orders.get? orderId with
          | none =>
              rw [hg] at h
              cases h
          | some o =>
              simp only [hg, clonedCloneWeak_eq] at h
              cases h
              exact ⟨orderId, _, OrdMap.get?_insert_self .., .inr rfl⟩

theorem cancel_shown {now : Int} {orderId : String} {args : Args ℚ} {p : PublicOrder ℚ}
    (h : (VirtualReply.order (b.orderCancel w now orderId args).1).shown = some p) :
    StoredOrCopied w (b.orderCancel w now orderId args).2 p := by
  unfold VirtualBroker.orderCancel at h ⊢
  cases hr : args.get? "response" with
  | some v =>
      rw [hr] at h
      cases h
  | none =>
      rw [hr] at h
      dsimp only at h ⊢
      generalize b.isFailure w = rolled at h ⊢
      obtain ⟨fails, b₁⟩ := rolled
      cases fails with
      | true => cases h
      | false =>
          simp only [Bool.false_eq_true, if_false] at h ⊢
          cases hg : b₁.orders.get? orderId with
          | none =>
              rw [hg] at h
              cases h
          | some o =>
              rw [hg] at h
              dsimp only at h ⊢
              split at h
              · cases h
              · rename_i hne
                rw [if_neg hne]
                simp only [clonedCloneWeak_eq] at h
                cases h
                exact ⟨orderId, _, OrdMap.get?_insert_self .., .inr rfl⟩

theorem get_shown {now : Int} {orderId : String} {status : Status} {p : PublicOrder ℚ}
    (h : (b.get w now orderId status).1 = some p) :
    ∃ o, (b.get w now orderId status).2.orders.get? orderId = some o ∧ p = o.pub := by
  unfold VirtualBroker.get at h ⊢
  cases hg : b.orders.get? orderId with
  | none =>
      rw [hg] at h
      cases h
  | some o =>
      rw [hg] at h
      cases h
      exact ⟨_, OrdMap.get?_insert_self .., rfl⟩

theorem step_shown {call : VirtualCall ℚ R} {p : PublicOrder ℚ}
    (h : ((virtualBroker w).step b call).1.shown = some p) :
    StoredOrCopied w ((virtualBroker w).step b call).2 p := by
  cases call with
  | orderPlace now args => exact place_shown h
  | orderModify now orderId args => exact modify_shown h
  | orderCancel now orderId args => exact cancel_shown h
  | get now orderId status =>
      obtain ⟨o, ho, hp⟩ := get_shown h
      exact ⟨orderId, o, ho, .inl hp⟩
  | addUser user => cases h
  | setFailureRate v => cases h

/-- Where the copies are faithful an order and its copy are one. -/
theorem Faithful.shows (h : Faithful w b) {reply : VirtualReply ℚ}
    (hs : ∀ p, reply.shown = some p → StoredOrCopied w b p) : ShowsStored b reply := by
  intro p hp
  obtain ⟨orderId, o, ho, hpub⟩ := hs p hp
  refine ⟨orderId, o, ho, ?_⟩
  rcases hpub with rfl | rfl
  · rfl
  · exact ((copyOf_eq_iff w o.pub).mpr (faithful_iff.mp h orderId o ho)).symm

/-! ## The async broker -/

/-- The call of the virtual broker that a call of the async broker makes, if any. -/
def AsyncVirtualCall.sync : AsyncVirtualCall ℚ R → Option (VirtualCall ℚ R)
  | .place now args => some (.orderPlace now args)
  | .modify now args =>
      ((args.get? "order_id").bind (·.asStr)).map fun orderId => .orderModify now orderId args
  | .cancel now args =>
      ((args.get? "order_id").bind (·.asStr)).map fun orderId => .orderCancel now orderId args
  | .get now orderId status => some (.get now orderId status)
  | .addUser user => some (.addUser user)
  | .setFailureRate v => some (.setFailureRate v)

/-- The arguments that name an order already. -/
theorem named_order {args : Args ℚ} {orderId : String}
    (h : (args.get? "order_id").bind (·.asStr) = some orderId) :
    args.insert "order_id" (.str orderId) = args := by
  obtain ⟨v, hv, hs⟩ := Option.bind_eq_some_iff.mp h
  cases v with
  | str s =>
      cases hs
      exact OrdMap.insert_get? hv
  | _ => cases hs

/-- A call of the async broker makes its call of the virtual broker, or leaves the orders as they are. -/
theorem async_step (s : AsyncVirtualBroker ℚ R) (call : AsyncVirtualCall ℚ R) :
    (call.sync = none ∧ ((asyncVirtualBroker w).step s call).2 = s ∧
        ((asyncVirtualBroker w).step s call).1.shown = none) ∨
      ∃ c : VirtualCall ℚ R, call.sync = some c ∧ call = c.async := by
  cases call with
  | place now args => exact .inr ⟨_, rfl, rfl⟩
  | modify now args =>
      cases ho : (args.get? "order_id").bind (·.asStr) with
      | none =>
          refine .inl ⟨by simp only [AsyncVirtualCall.sync, ho, Option.map_none], ?_⟩
          simp only [asyncVirtualBroker, AsyncVirtualBroker.step, AsyncVirtualBroker.modify, ho]
          cases args.get? "response" <;> exact ⟨rfl, rfl⟩
      | some orderId =>
          refine .inr ⟨.orderModify now orderId args, by simp only [AsyncVirtualCall.sync, ho,
            Option.map_some], ?_⟩
          rw [VirtualCall.async, named_order ho]
  | cancel now args =>
      cases ho : (args.get? "order_id").bind (·.asStr) with
      | none =>
          refine .inl ⟨by simp only [AsyncVirtualCall.sync, ho, Option.map_none], ?_⟩
          simp only [asyncVirtualBroker, AsyncVirtualBroker.step, AsyncVirtualBroker.cancel, ho]
          cases args.get? "response" <;> exact ⟨rfl, rfl⟩
      | some orderId =>
          refine .inr ⟨.orderCancel now orderId args, by simp only [AsyncVirtualCall.sync, ho,
            Option.map_some], ?_⟩
          rw [VirtualCall.async, named_order ho]
  | get now orderId status => exact .inr ⟨_, rfl, rfl⟩
  | addUser user => exact .inr ⟨_, rfl, rfl⟩
  | setFailureRate v => exact .inr ⟨_, rfl, rfl⟩

theorem async_shown {c : VirtualCall ℚ R} {p : PublicOrder ℚ}
    (h : ((asyncVirtualBroker w).step ⟨b⟩ c.async).1.shown = some p) :
    StoredOrCopied w ((virtualBroker w).step b c).2 p := by
  have hsame : TrueCopy w b c →
      ((asyncVirtualBroker w).step ⟨b⟩ c.async).1 = ((virtualBroker w).step b c).1 :=
    (step_mirrors w b c).2.mpr
  cases c with
  | get now orderId status =>
      simp only [asyncVirtualBroker, VirtualCall.async, AsyncVirtualBroker.step, get_mirrors,
        VirtualReply.shown, Option.map_eq_some_iff] at h
      obtain ⟨q, hq, rfl⟩ := h
      obtain ⟨o, ho, rfl⟩ := get_shown (w := w) (b := b) ((get_gotten w b now orderId status).trans hq)
      exact ⟨orderId, o, ho, .inr rfl⟩
  | _ =>
      rw [hsame trivial] at h
      exact step_shown h

/-- The quantity of a placement is not negative. -/
def AsyncVirtualCall.NonNegative : AsyncVirtualCall ℚ R → Prop
  | .place _ args => 0 ≤ ((args.get? "quantity").bind (·.asF64)).getD 0
  | _ => True

/-- What a call does under the lock is lawful. -/
def AsyncLawful (w : World ℚ R) (s : AsyncVirtualBroker ℚ R) (call : AsyncVirtualCall ℚ R) : Prop :=
  ∀ c, call.sync = some c → AllLawful w s.inner c

instance (w : World ℚ R) (s : AsyncVirtualBroker ℚ R) (call : AsyncVirtualCall ℚ R) :
    Decidable (AsyncLawful w s call) :=
  inferInstanceAs (Decidable (∀ c ∈ call.sync, AllLawful w s.inner c))

theorem async_nonNegative {c : VirtualCall ℚ R} (h : c.async.NonNegative) : c.NonNegative := by
  cases c <;> exact h

theorem async_step_faithful
    (hw : ∀ rng n, 1 < n → 1 ≤ (w.genRange rng n).1 ∧ (w.genRange rng n).1 < n)
    {s : AsyncVirtualBroker ℚ R} (h : AllSteady s.inner) (call : AsyncVirtualCall ℚ R)
    (hc : call.NonNegative) :
    (Faithful w ((asyncVirtualBroker w).step s call).2.inner ↔ AsyncLawful w s call) ∧
      (AsyncLawful w s call → AllSteady ((asyncVirtualBroker w).step s call).2.inner) := by
  rcases async_step (w := w) s call with ⟨hnone, hsame, -⟩ | ⟨c, hsome, hasync⟩
  · rw [hsame]
    refine ⟨iff_of_true h.faithful fun c hsync => ?_, fun _ => h⟩
    rw [hnone] at hsync
    cases hsync
  · have hl : AsyncLawful w s call ↔ AllLawful w s.inner c := by
      simp only [AsyncLawful, hsome, Option.some.injEq, forall_eq']
    have hstate : ((asyncVirtualBroker w).step s call).2.inner = ((virtualBroker w).step s.inner c).2 := by
      rw [hasync]
      exact congrArg AsyncVirtualBroker.inner (step_mirrors w s.inner c).1
    rw [hl, hstate]
    exact step_faithful hw h c (async_nonNegative (hasync ▸ hc))

theorem async_step_shown {s : AsyncVirtualBroker ℚ R} {call : AsyncVirtualCall ℚ R} {p : PublicOrder ℚ}
    (h : ((asyncVirtualBroker w).step s call).1.shown = some p) :
    StoredOrCopied w ((asyncVirtualBroker w).step s call).2.inner p := by
  rcases async_step (w := w) s call with ⟨-, -, hnone⟩ | ⟨c, -, rfl⟩
  · rw [hnone] at h
    cases h
  · have hstate := congrArg AsyncVirtualBroker.inner (step_mirrors w s.inner c).1
    rw [show s = ⟨s.inner⟩ from rfl, hstate]
    exact async_shown h

/-! ## Runs -/

/-- In a run of calls with quantities that are not negative, every order has a faithful copy in every
state and the replies show orders as they are stored, exactly when every call is lawful where it is
made. The same of the async broker, whose `orders` shows every order then. -/
theorem snapshots_faithful_iff (w : World ℚ R)
    (hw : ∀ rng n, 1 < n → 1 ≤ (w.genRange rng n).1 ∧ (w.genRange rng n).1 < n) :
    (∀ calls : List (VirtualCall ℚ R), (∀ call ∈ calls, call.NonNegative) →
      ((∀ pre, pre <+: calls → Faithful w ((virtualBroker w).final .new pre)) ∧
          (∀ pre call, pre ++ [call] <+: calls →
            ShowsStored ((virtualBroker w).final .new (pre ++ [call]))
              ((virtualBroker w).step ((virtualBroker w).final .new pre) call).1) ↔
        (virtualBroker w).Always (AllLawful w) .new calls)) ∧
    (∀ calls : List (AsyncVirtualCall ℚ R), (∀ call ∈ calls, call.NonNegative) →
      ((∀ pre, pre <+: calls → Faithful w ((asyncVirtualBroker w).final .new pre).inner ∧
            ∀ orderId, (((asyncVirtualBroker w).final .new pre).orders w).get? orderId =
              (((asyncVirtualBroker w).final .new pre).inner.orders.get? orderId).map (·.pub)) ∧
          (∀ pre call, pre ++ [call] <+: calls →
            ShowsStored ((asyncVirtualBroker w).final .new (pre ++ [call])).inner
              ((asyncVirtualBroker w).step ((asyncVirtualBroker w).final .new pre) call).1) ↔
        (asyncVirtualBroker w).Always (AsyncLawful w) .new calls)) := by
  have hnew : AllSteady (.new : VirtualBroker ℚ R) := fun id o ho => by cases ho
  constructor
  · intro calls hcalls
    have hiff := (virtualBroker w).holds_iff_always (P := Faithful w) (fun _ h => h.faithful)
      (fun b call hc h => step_faithful hw h call hc) hnew hcalls
    refine ⟨fun h => hiff.mp h.1, fun h => ⟨hiff.mpr h, fun pre call hp => ?_⟩⟩
    have hafter := hiff.mpr h _ hp
    rw [Machine.final_append, Machine.final_cons, Machine.final_nil] at hafter ⊢
    exact hafter.shows fun p => step_shown
  · intro calls hcalls
    have hiff := (asyncVirtualBroker w).holds_iff_always (I := fun s => AllSteady s.inner)
      (P := fun s => Faithful w s.inner) (fun _ h => h.faithful)
      (fun s call hc h => async_step_faithful hw h call hc) (s := .new) hnew hcalls
    constructor
    · exact fun h => hiff.mp fun pre hp => (h.1 pre hp).1
    · refine fun h => ⟨fun pre hp => ⟨hiff.mpr h pre hp, orders_faithful (hiff.mpr h pre hp)⟩,
        fun pre call hp => ?_⟩
      have hafter := hiff.mpr h _ hp
      rw [Machine.final_append, Machine.final_cons, Machine.final_nil] at hafter ⊢
      exact hafter.shows fun p => async_step_shown

open Sample in
/-- The partly filled order has a faithful copy in every state of either broker. -/
theorem snapshots_faithful_calm :
    ((∀ pre, pre <+: partly → Faithful calm ((virtualBroker calm).final .new pre)) ∧
        ∀ pre call, pre ++ [call] <+: partly →
          ShowsStored ((virtualBroker calm).final .new (pre ++ [call]))
            ((virtualBroker calm).step ((virtualBroker calm).final .new pre) call).1) ∧
      (∀ pre, pre <+: partly.map VirtualCall.async →
          Faithful calm ((asyncVirtualBroker calm).final .new pre).inner ∧
          ∀ orderId, (((asyncVirtualBroker calm).final .new pre).orders calm).get? orderId =
            (((asyncVirtualBroker calm).final .new pre).inner.orders.get? orderId).map (·.pub)) ∧
        ∀ pre call, pre ++ [call] <+: partly.map VirtualCall.async →
          ShowsStored ((asyncVirtualBroker calm).final .new (pre ++ [call])).inner
            ((asyncVirtualBroker calm).step ((asyncVirtualBroker calm).final .new pre) call).1 := by
  obtain ⟨hsync, hasync⟩ := snapshots_faithful_iff calm fun _ _ h => ⟨le_rfl, h⟩
  have hten : 0 ≤ ((buyTen.get? "quantity").bind (·.asF64)).getD 0 := by decide +kernel
  constructor
  · refine (hsync partly ?_).mpr (by decide +kernel)
    simp only [partly, List.mem_cons, List.not_mem_nil, or_false]
    rintro call (rfl | rfl | rfl)
    · exact hten
    · trivial
    · trivial
  · refine (hasync (partly.map VirtualCall.async) ?_).mpr (by decide +kernel)
    simp only [partly, List.map_cons, List.map_nil, List.mem_cons, List.not_mem_nil, or_false]
    rintro call (rfl | rfl | rfl)
    · exact hten
    · trivial
    · trivial

/-- The quantities that come with the calls are whole and not negative. -/
def VirtualCall.Whole : VirtualCall ℚ R → Prop
  | .orderPlace _ args | .orderModify _ _ args =>
      ∀ q, (args.get? "quantity").bind (·.asF64) = some q → ∃ n : Nat, q = n
  | _ => True

open Sample in
/-- The doubled order has nothing filled; its copy shows ten filled. -/
theorem doubled_order_copied_filled :
    ¬ ∀ w : World ℚ Unit, (∀ rng n, 1 < n → 1 ≤ (w.genRange rng n).1 ∧ (w.genRange rng n).1 < n) →
      ∀ calls : List (VirtualCall ℚ Unit), (∀ call ∈ calls, call.Whole) →
        Faithful w ((virtualBroker w).final .new calls) := by
  intro h
  have hcopies := h calm (fun _ _ h => ⟨le_rfl, h⟩) doubled (by
    have hten : (buyTen.get? "quantity").bind (·.asF64) = some 10 := by decide +kernel
    have htwenty : ((OrdMap.empty.insert "quantity" (.int 20) : Args ℚ).get? "quantity").bind (·.asF64) =
        some 20 := by decide +kernel
    simp only [doubled, List.mem_cons, List.not_mem_nil, or_false]
    rintro call (rfl | rfl | rfl)
    · intro q hq
      exact ⟨10, by simpa using (Option.some.inj (hten.symm.trans hq)).symm⟩
    · intro q hq
      exact ⟨20, by simpa using (Option.some.inj (htwenty.symm.trans hq)).symm⟩
    · trivial)
  have hstored : ∃ o, ((virtualBroker calm).final .new doubled).orders.get? (calm.uuid 0) = some o ∧
      VirtualOrder.clonedCloneWeak calm o.pub ≠ some o.pub := by
    decide +kernel
  obtain ⟨o, ho, hne⟩ := hstored
  obtain ⟨clone, hclone, rfl, -⟩ := hcopies _ o ho
  exact hne hclone

end Omsrs.Virtual
