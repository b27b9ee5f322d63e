import Omsrs.Basket.Compound

/-!
# The index of a basket

Every order of a basket is reached by one index, and an order that is found under an index or a key is
found there for good, unless orders are added in bulk to a basket that has some, or the greatest index is
taken.
-/

namespace Omsrs.Basket
open Omsrs.Lib

variable {b b' : CompoundOrder} {idx : Int} {key : Option String} {o : Order}

/-! ## Positions -/

/-- Index and keys hold positions of orders, each position under one index and at most one key. -/
structure CompoundOrder.Bijective (b : CompoundOrder) : Prop where
  reached : ∀ p, p < b.orders.length → ∃! idx, b.index.get? idx = some p
  valid : ∀ idx p, b.index.get? idx = some p → p < b.orders.length
  keyValid : ∀ key p, b.keys.get? key = some p → p < b.orders.length
  keyInjective : ∀ key key' p, b.keys.get? key = some p → b.keys.get? key' = some p → key = key'

/-- There is a next index, and it is free. -/
def CompoundOrder.HasNext (b : CompoundOrder) : Prop :=
  ∃ idx, b.getNextIndex = .ok idx ∧ b.index.get? idx = none

/-- What is found under an index or a key is still found there. -/
structure CompoundOrder.Keeps (b b' : CompoundOrder) : Prop where
  index : ∀ idx o, b.getByIndex idx = some o → b'.getByIndex idx = some o
  key : ∀ key o, b.getByKey key = some o → b'.getByKey key = some o

/-- The indices are numbers of the source. -/
def CompoundOrder.Ranged (b : CompoundOrder) : Prop := ∀ idx p, b.index.get? idx = some p → InI64 idx

theorem CompoundOrder.Keeps.refl (b : CompoundOrder) : b.Keeps b :=
  ⟨fun _ _ h => h, fun _ _ h => h⟩

theorem CompoundOrder.Keeps.trans {b'' : CompoundOrder} (h : b.Keeps b') (h' : b'.Keeps b'') : b.Keeps b'' :=
  ⟨fun idx o ho => h'.index idx o (h.index idx o ho), fun key o ho => h'.key key o (h.key key o ho)⟩

/-- There is a next index exactly where the greatest index is not taken. -/
theorem hasNext_iff (hr : b.Ranged) :
    b.HasNext ↔ ∀ idx p, b.index.get? idx = some p → idx < 2 ^ 63 - 1 := by
  unfold CompoundOrder.HasNext CompoundOrder.getNextIndex
  cases hmax : b.index.keys.max? with
  | none =>
      have hempty : b.index.keys = [] := List.max?_eq_none_iff.mp hmax
      have hfree : ∀ idx, b.index.get? idx = none := by
        intro idx
        cases hget : b.index.get? idx with
        | none => rfl
        | some p =>
            have hmem := OrdMap.mem_keys.mpr ⟨p, hget⟩
            rw [hempty] at hmem
            cases hmem
      refine iff_of_true ⟨0, rfl, hfree 0⟩ fun idx p hget => ?_
      rw [hfree idx] at hget
      cases hget
  | some m =>
      obtain ⟨hmem, hle⟩ := List.max?_eq_some_iff.mp hmax
      obtain ⟨p, hget⟩ := OrdMap.mem_keys.mp hmem
      have hm : InI64 m := hr m p hget
      unfold InI64 at hm
      by_cases hlt : m < 2 ^ 63 - 1
      · have hnext : checkedI64 (m + 1) = .ok (m + 1) := if_pos ⟨by omega, by omega⟩
        refine iff_of_true ⟨m + 1, hnext, ?_⟩ fun idx q hq => ?_
        · cases hfound : b.index.get? (m + 1) with
          | none => rfl
          | some q =>
              have := hle (m + 1) (OrdMap.mem_keys.mpr ⟨q, hfound⟩)
              omega
        · exact lt_of_le_of_lt (hle idx (OrdMap.mem_keys.mpr ⟨q, hq⟩)) hlt
      · have hnext : checkedI64 (m + 1) = .error .overflow :=
          if_neg fun h => hlt (by unfold InI64 at h; omega)
        refine iff_of_false ?_ fun h => hlt (h m p hget)
        rintro ⟨idx, hok, -⟩
        dsimp only at hok
        rw [hnext] at hok
        cases hok

/-! ## One more order -/

theorem push_index (b : CompoundOrder) (o : Order) (idx : Int) (key : Option String) (j : Int) :
    (b.push o idx key).index.get? j = if j = idx then some b.orders.length else b.index.get? j :=
  OrdMap.get?_insert ..

theorem push_key (b : CompoundOrder) (o : Order) (idx : Int) (key : Option String) (k : String) :
    (b.push o idx key).keys.get? k = if key = some k then some b.orders.length else b.keys.get? k := by
  cases key with
  | none => rfl
  | some k' =>
      refine (OrdMap.get?_insert ..).trans ?_
      simp only [Option.some.injEq, eq_comm (a := k)]

theorem push_orders (b : CompoundOrder) (o : Order) (idx : Int) (key : Option String) :
    (b.push o idx key).orders = b.orders ++ [o] := rfl

/-- Index and key are free. -/
def CompoundOrder.Free (b : CompoundOrder) (idx : Int) (key : Option String) : Prop :=
  b.index.get? idx = none ∧ ∀ k, key = some k → b.keys.get? k = none

theorem refusal_eq_none : b.refusal idx key = none ↔ b.Free idx key := by
  unfold CompoundOrder.refusal CompoundOrder.Free
  cases hidx : b.index.get? idx with
  | some p => simp [OrdMap.contains, hidx]
  | none =>
      cases key with
      | none => simp [OrdMap.contains, hidx]
      | some k =>
          cases hkey : b.keys.get? k <;> simp [OrdMap.contains, hidx, hkey]

theorem push_bijective (h : b.Bijective) (hf : b.Free idx key) : (b.push o idx key).Bijective := by
  have hlen : (b.push o idx key).orders.length = b.orders.length + 1 := by simp [push_orders]
  refine ⟨fun p hp => ?_, fun j p hget => ?_, fun k p hget => ?_, fun k k' p hget hget' => ?_⟩
  · rw [hlen] at hp
    by_cases hlast : p = b.orders.length
    · refine ⟨idx, by simp [push_index, hlast], fun j hj => ?_⟩
      dsimp only at hj
      rw [push_index] at hj
      split at hj
      · assumption
      · exact absurd (h.valid j p hj) (by omega)
    · obtain ⟨j, hj, huniq⟩ := h.reached p (by omega)
      refine ⟨j, ?_, fun i hi => ?_⟩
      · dsimp only
        rw [push_index, if_neg ?_]
        · exact hj
        · rintro rfl
          rw [hf.1] at hj
          cases hj
      · dsimp only at hi
        rw [push_index] at hi
        split at hi
        · exact absurd (Option.some.inj hi).symm hlast
        · exact huniq i hi
  · rw [hlen]
    rw [push_index] at hget
    split at hget
    · cases hget
      omega
    · exact Nat.lt_succ_of_lt (h.valid j p hget)
  · rw [hlen]
    rw [push_key] at hget
    split at hget
    · cases hget
      omega
    · exact Nat.lt_succ_of_lt (h.keyValid k p hget)
  · rw [push_key] at hget hget'
    split at hget <;> split at hget'
    · rename_i hk hk'
      exact Option.some.inj (hk.symm.trans hk')
    · cases hget
      exact absurd (h.keyValid k' _ hget') (lt_irrefl _)
    · cases hget'
      exact absurd (h.keyValid k _ hget) (lt_irrefl _)
    · exact h.keyInjective k k' p hget hget'

theorem getElem?_append_of_some {l : List Order} {p : Nat} (h : l[p]? = some o) (r : List Order) :
    (l ++ r)[p]? = some o := by
  obtain ⟨hp, -⟩ := List.getElem?_eq_some_iff.mp h
  rw [List.getElem?_append_left hp]
  exact h

theorem push_keeps (hf : b.Free idx key) : b.Keeps (b.push o idx key) := by
  refine ⟨fun j o' ho => ?_, fun k o' ho => ?_⟩
  · obtain ⟨p, hp, hget⟩ := Option.bind_eq_some_iff.mp ho
    have hne : j ≠ idx := by
      rintro rfl
      rw [hf.1] at hp
      cases hp
    refine Option.bind_eq_some_iff.mpr ⟨p, ?_, getElem?_append_of_some hget [o]⟩
    rw [push_index, if_neg hne]
    exact hp
  · obtain ⟨p, hp, hget⟩ := Option.bind_eq_some_iff.mp ho
    have hne : key ≠ some k := by
      intro hk
      rw [hf.2 k hk] at hp
      cases hp
    refine Option.bind_eq_some_iff.mpr ⟨p, ?_, getElem?_append_of_some hget [o]⟩
    rw [push_key, if_neg hne]
    exact hp

/-- The order is found under its index and its key. -/
theorem push_found (b : CompoundOrder) (o : Order) (idx : Int) (key : Option String) :
    (b.push o idx key).getByIndex idx = some o ∧
      ∀ k, key = some k → (b.push o idx key).getByKey k = some o := by
  have hlast : (b.orders ++ [o])[b.orders.length]? = some o := by simp
  refine ⟨Option.bind_eq_some_iff.mpr ⟨b.orders.length, by simp [push_index], hlast⟩, fun k hk => ?_⟩
  exact Option.bind_eq_some_iff.mpr ⟨b.orders.length, by simp [push_key, hk], hlast⟩

theorem push_ranged (hr : b.Ranged) (hidx : InI64 idx) : (b.push o idx key).Ranged := by
  intro j p hget
  rw [push_index] at hget
  split at hget
  · rename_i heq
    exact heq ▸ hidx
  · exact hr j p hget

/-! ## Orders in bulk -/

theorem withOrders_index (b : CompoundOrder) (orders : List Order) (idx : Int) :
    (b.withOrders orders).index.get? idx =
      if 0 ≤ idx ∧ idx < orders.length then some idx.toNat else b.index.get? idx := by
  show (b.index.insertAll _).get? idx = _
  induction orders using List.reverseRecOn with
  | nil =>
      have hno : ¬ (0 ≤ idx ∧ idx < (([] : List Order).length : Int)) := by
        simp only [List.length_nil, Nat.cast_zero]
        omega
      rw [if_neg hno]
      rfl
  | append_singleton orders o ih =>
      simp only [List.zipIdx_append, List.map_append, OrdMap.insertAll_append, List.zipIdx_cons,
        List.zipIdx_nil, List.map_cons, List.map_nil, OrdMap.insertAll_cons, OrdMap.insertAll_nil,
        OrdMap.get?_insert, ih, List.length_append, List.length_cons, List.length_nil, Nat.cast_add,
        Nat.cast_one, zero_add]
      by_cases hlast : idx = orders.length
      · rw [if_pos hlast, if_pos (by omega), hlast]
        rfl
      · rw [if_neg hlast]
        by_cases hin : 0 ≤ idx ∧ idx < orders.length
        · rw [if_pos hin, if_pos (by omega)]
        · rw [if_neg hin, if_neg (by omega)]

theorem withOrders_nil (b : CompoundOrder) : b.withOrders [] = b := by
  simp [CompoundOrder.withOrders]

/-- A basket that has no orders has no index and no key. -/
theorem blank_of_nil (h : b.Bijective) (hb : b.orders = []) :
    (∀ idx, b.index.get? idx = none) ∧ ∀ k, b.keys.get? k = none := by
  constructor
  · intro idx
    cases hget : b.index.get? idx with
    | none => rfl
    | some p =>
        have := h.valid idx p hget
        simp [hb] at this
  · intro k
    cases hget : b.keys.get? k with
    | none => rfl
    | some p =>
        have := h.keyValid k p hget
        simp [hb] at this

/-- Orders in bulk on a basket without orders. -/
theorem withOrders_bijective (h : b.Bijective) (hb : b.orders = []) (orders : List Order) :
    (b.withOrders orders).Bijective ∧
      ∀ (p : Nat) o, orders[p]? = some o → (b.withOrders orders).getByIndex p = some o := by
  obtain ⟨hidx, hkey⟩ := blank_of_nil h hb
  have hget : ∀ idx : Int, (b.withOrders orders).index.get? idx =
      if 0 ≤ idx ∧ idx < orders.length then some idx.toNat else none := by
    intro idx
    rw [withOrders_index, hidx]
  have horders : (b.withOrders orders).orders = orders := by simp [CompoundOrder.withOrders, hb]
  refine ⟨⟨fun p hp => ⟨p, ?_, fun j hj => ?_⟩, fun j p hj => ?_, fun k p hk => ?_, fun k k' p hk => ?_⟩,
    fun p o ho => ?_⟩
  · rw [horders] at hp
    dsimp only
    rw [hget, if_pos (by omega)]
    rfl
  · dsimp only at hj
    rw [hget] at hj
    split at hj
    · cases hj
      omega
    · cases hj
  · rw [horders]
    rw [hget] at hj
    split at hj
    · cases hj
      omega
    · cases hj
  · exact absurd ((hkey k).symm.trans hk) nofun
  · exact absurd ((hkey k).symm.trans hk) nofun
  · obtain ⟨hp, -⟩ := List.getElem?_eq_some_iff.mp ho
    refine Option.bind_eq_some_iff.mpr ⟨p, ?_, ?_⟩
    · rw [hget, if_pos (by omega)]
      rfl
    · rw [horders]
      exact ho

/-- Orders in bulk on a basket with orders leave the last of them without an index. -/
theorem withOrders_lost (h : b.Bijective) {orders : List Order} (hb : b.orders ≠ []) (ho : orders ≠ []) :
    ¬ (b.withOrders orders).Bijective := by
  intro h'
  have hlen : 0 < b.orders.length := List.length_pos_iff.mpr hb
  have hlen' : 0 < orders.length := List.length_pos_iff.mpr ho
  obtain ⟨idx, hget, -⟩ := h'.reached (b.orders.length + orders.length - 1) (by
    simp only [CompoundOrder.withOrders, List.length_append]
    omega)
  rw [withOrders_index] at hget
  split at hget
  · have := Option.some.inj hget
    omega
  · have := h.valid idx _ hget
    omega

/-! ## One call -/

/-- The numbers and lists of a call are those of the source. -/
def BasketCall.Ranged : BasketCall → Prop
  | .withOrders orders => orders.length < 2 ^ 63
  | .addOrder init index _ _ _ =>
      (∀ idx, index = some idx → InI64 idx) ∧ ∀ e, init.expiresIn = some e → InI64 e
  | .add _ _ _ _ => True

/-- An order is found under the index it was given, or the next one, and under its key. -/
structure Filed (b b' : CompoundOrder) (index : Option Int) (key : Option String) (o : Order) : Prop where
  index : ∃ idx, b.indexOrNext index = .ok idx ∧ b'.getByIndex idx = some o
  key : ∀ k, key = some k → b'.getByKey k = some o

/-- A call that fails leaves the basket, and one that does not files what it adds. -/
structure StepFiled (b : CompoundOrder) (call : BasketCall) : Prop where
  failed : ∀ e, (basketMachine.step b call).1 = .failed e → (basketMachine.step b call).2 = b
  bulk : ∀ orders, call = .withOrders orders →
    ∀ (p : Nat) o, orders[p]? = some o → (basketMachine.step b call).2.getByIndex p = some o
  built : ∀ init index key now freshId id, call = .addOrder init index key now freshId →
    (basketMachine.step b call).1 = .added id → ∃ o, Order.fromInit { init with
        parentId := some b.id
        connection := init.connection.or b.connection } now freshId = .ok o ∧
      Filed b (basketMachine.step b call).2 index key o
  given : ∀ order index key freshId id, call = .add order index key freshId →
    (basketMachine.step b call).1 = .added id → Filed b (basketMachine.step b call).2
      (index.map FloatIndex.truncated) key { order with
        parentId := some b.id
        connection := order.connection.or b.connection
        id := some (order.id.getD freshId) }

/-- The index that is given, or comes next, is not the greatest. -/
def CompoundOrder.Below (b : CompoundOrder) : Option Int → Prop
  | some idx => idx < 2 ^ 63 - 1
  | none => ∀ idx p, b.index.get? idx = some p → idx < 2 ^ 63 - 2

/-- Orders in bulk come to a basket without orders, and no order goes under the greatest index. -/
def CompoundOrder.Fits (b : CompoundOrder) : BasketCall → Prop
  | .withOrders orders => orders = [] ∨ b.orders = []
  | .addOrder init index key _ _ => b.Below index ∨ (∃ k, key = some k ∧ b.keys.contains k = true) ∨
      init.quantity < 0 ∨ init.expiresIn = some (-2 ^ 63)
  | .add _ index key _ => b.Below (index.map FloatIndex.truncated) ∨
      ∃ k, key = some k ∧ b.keys.contains k = true

theorem truncated_range (f : FloatIndex) : InI64 f.truncated := by
  unfold InI64
  cases f with
  | nan => simp [FloatIndex.truncated]
  | infinite negative => cases negative <;> simp [FloatIndex.truncated]
  | finite x =>
      simp only [FloatIndex.truncated, i64OfFloat]
      omega

theorem truncated_all (index : Option FloatIndex) (idx : Int)
    (h : index.map FloatIndex.truncated = some idx) : InI64 idx := by
  obtain ⟨f, -, rfl⟩ := Option.map_eq_some_iff.mp h
  exact truncated_range f

/-- The index under which a call adds an order. -/
theorem slot_cases (h : b.HasNext) (index : Option Int)
    (hi : ∀ idx, index = some idx → InI64 idx) :
    ∃ idx, b.indexOrNext index = .ok idx ∧ InI64 idx ∧ (b.Below index ↔ idx < 2 ^ 63 - 1) := by
  cases index with
  | some idx => exact ⟨idx, rfl, hi idx rfl, Iff.rfl⟩
  | none =>
      obtain ⟨idx, hnext, -⟩ := h
      refine ⟨idx, hnext, ?_⟩
      unfold CompoundOrder.getNextIndex at hnext
      cases hmax : b.index.keys.max? with
      | none =>
          have hempty : b.index.keys = [] := List.max?_eq_none_iff.mp hmax
          rw [hmax] at hnext
          cases hnext
          refine ⟨by decide, iff_of_true (fun idx p hget => ?_) (by decide)⟩
          have hmem := OrdMap.mem_keys.mpr ⟨p, hget⟩
          rw [hempty] at hmem
          cases hmem
      | some m =>
          obtain ⟨hmem, hle⟩ := List.max?_eq_some_iff.mp hmax
          obtain ⟨p, hget⟩ := OrdMap.mem_keys.mp hmem
          rw [hmax] at hnext
          dsimp only at hnext
          unfold checkedI64 at hnext
          split at hnext
          · rename_i hrange
            cases hnext
            refine ⟨hrange, fun hb => ?_, fun hlt j q hj => ?_⟩
            · have : m < 2 ^ 63 - 2 := hb m p hget
              omega
            · have := hle j (OrdMap.mem_keys.mpr ⟨q, hj⟩)
              omega
          · cases hnext

/-- An order that is pushed leaves a next index exactly where its own is not the greatest. -/
theorem push_hasNext_iff (hr : b.Ranged) (h : b.HasNext) (hidx : InI64 idx) :
    (b.push o idx key).HasNext ↔ idx < 2 ^ 63 - 1 := by
  rw [hasNext_iff (push_ranged hr hidx)]
  constructor
  · intro hall
    exact hall idx b.orders.length (by rw [push_index, if_pos rfl])
  · intro hlt j p hget
    rw [push_index] at hget
    split at hget
    · rename_i heq
      exact heq ▸ hlt
    · exact (hasNext_iff hr).mp h j p hget

/-- What is refused is under an index or a key that is in use. -/
theorem refused_in_use (hr : b.Ranged) (h : b.HasNext) (hf : b.refusal idx key ≠ none) :
    idx < 2 ^ 63 - 1 ∨ ∃ k, key = some k ∧ b.keys.contains k = true := by
  unfold CompoundOrder.refusal at hf
  split at hf
  · rename_i hidx
    obtain ⟨p, hget⟩ := OrdMap.contains_iff.mp hidx
    exact .inl ((hasNext_iff hr).mp h idx p hget)
  · split at hf
    · rename_i k
      split at hf
      · rename_i hk
        exact .inr ⟨k, rfl, hk⟩
      · exact absurd rfl hf
    · exact absurd rfl hf

theorem not_in_use (hf : b.Free idx key) : ¬ ∃ k, key = some k ∧ b.keys.contains k = true := by
  rintro ⟨k, hk, hc⟩
  obtain ⟨p, hp⟩ := OrdMap.contains_iff.mp hc
  rw [hf.2 k hk] at hp
  cases hp

/-- What stands in a basket after a call that leaves it. -/
theorem kept_same (h : b.Bijective ∧ b.HasNext) {P : Prop} (hb : b' = b) (hp : P) :
    (b'.Bijective ∧ b'.HasNext ↔ P) ∧ b.Keeps b' := by
  subst hb
  exact ⟨iff_of_true h hp, .refl _⟩

/-- Only the least number of seconds has no absolute value. -/
theorem absI64_error_iff {e : Int} (he : InI64 e) : (∃ p, absI64 e = .error p) ↔ e = -2 ^ 63 := by
  unfold InI64 at he
  unfold absI64 checkedI64
  by_cases hmin : e = -2 ^ 63
  · subst hmin
    exact iff_of_true ⟨.overflow, if_neg (by decide)⟩ rfl
  · have habs : InI64 |e| := by
      unfold InI64
      rcases le_or_gt 0 e with hpos | hneg
      · rw [abs_of_nonneg hpos]
        omega
      · rw [abs_of_neg hneg]
        omega
    rw [if_pos habs]
    exact iff_of_false (by rintro ⟨p, hp⟩; cases hp) hmin

theorem expiry_error_iff {init : OrderInit} {now : Int} (hr : ∀ e, init.expiresIn = some e → InI64 e) :
    (∃ p, init.expiry now = .error p) ↔ init.expiresIn = some (-2 ^ 63) := by
  unfold OrderInit.expiry
  split
  · rename_i he
    rw [he]
    exact iff_of_false (by rintro ⟨p, hp⟩; cases hp) nofun
  · rename_i he
    rw [he]
    exact iff_of_false (by rintro ⟨p, hp⟩; cases hp) (by decide)
  · rename_i e _ he
    rw [absI64_error_iff (hr e he), he, Option.some.injEq]

theorem fromInit_error_iff {init : OrderInit} {now : Int} {freshId : String}
    (hr : ∀ e, init.expiresIn = some e → InI64 e) :
    (∃ p, Order.fromInit init now freshId = .error p) ↔
      init.quantity < 0 ∨ init.expiresIn = some (-2 ^ 63) := by
  rw [← expiry_error_iff hr]
  unfold Order.fromInit
  by_cases hq : init.quantity < 0
  · rw [if_pos hq]
    exact iff_of_true ⟨_, rfl⟩ (.inl hq)
  · rw [if_neg hq]
    simp only [hq, false_or]
    cases init.expiry now with
    | error p => exact iff_of_true ⟨p, rfl⟩ ⟨p, rfl⟩
    | ok e => exact iff_of_false (by rintro ⟨p, hp⟩; cases hp) (by rintro ⟨p, hp⟩; cases hp)

/-- A pushed order stands as asked exactly where its index is not the greatest, and is found. -/
theorem pushed (hr : b.Ranged) (h : b.Bijective ∧ b.HasNext) (hf : b.Free idx key) (hidx : InI64 idx)
    {index : Option Int} (hslot : b.indexOrNext index = .ok idx) (o : Order) :
    ((b.push o idx key).Bijective ∧ (b.push o idx key).HasNext ↔ idx < 2 ^ 63 - 1) ∧
      b.Keeps (b.push o idx key) ∧ Filed b (b.push o idx key) index key o := by
  obtain ⟨hindex, hkey⟩ := push_found b o idx key
  refine ⟨?_, push_keeps hf, ⟨idx, hslot, hindex⟩, hkey⟩
  rw [push_hasNext_iff hr h.2 hidx]
  exact ⟨And.right, fun hlt => ⟨push_bijective h.1 hf, hlt⟩⟩

theorem addOrder_eq {init : OrderInit} {index : Option Int} {now : Int} {freshId : String}
    (hslot : b.indexOrNext index = .ok idx) :
    b.addOrder init index key now freshId = match b.refusal idx key with
      | some e => .ok (.error e, b)
      | none => (Order.fromInit { init with
          parentId := some b.id
          connection := init.connection.or b.connection } now freshId).map fun order =>
            (.ok (order.id.getD freshId), b.push order idx key) := by
  unfold CompoundOrder.addOrder
  rw [hslot]
  show (match b.refusal idx key with
    | some e => _
    | none => _) = _
  cases b.refusal idx key with
  | some e => rfl
  | none => rfl

theorem add_eq {order : Order} {index : Option FloatIndex} {freshId : String}
    (hslot : b.indexOrNext (index.map FloatIndex.truncated) = .ok idx) :
    b.add order index key freshId = match b.refusal idx key with
      | some e => .ok (.error e, b)
      | none => .ok (.ok (order.id.getD freshId), b.push { order with
          parentId := some b.id
          connection := order.connection.or b.connection
          id := some (order.id.getD freshId) } idx key) := by
  unfold CompoundOrder.add
  rw [hslot]
  show (match b.refusal idx key with
    | some e => _
    | none => _) = _
  cases b.refusal idx key with
  | some e => rfl
  | none => rfl

/-! ### Orders in bulk -/

theorem bulk_filed {orders : List Order} (h : ∀ (p : Nat) o, orders[p]? = some o →
    (b.withOrders orders).getByIndex p = some o) : StepFiled b (.withOrders orders) where
  failed e he := by cases he
  bulk orders' heq := by
    cases heq
    exact h
  built _ _ _ _ _ _ heq := by cases heq
  given _ _ _ _ _ heq := by cases heq

/-- Orders in bulk on a basket without orders go under the indices of the list. -/
theorem withOrders_hasNext (h : b.Bijective) (hb : b.orders = []) {orders : List Order}
    (hlen : orders.length < 2 ^ 63) : (b.withOrders orders).HasNext := by
  obtain ⟨hidx, -⟩ := blank_of_nil h hb
  have hget : ∀ j p, (b.withOrders orders).index.get? j = some p → 0 ≤ j ∧ j < orders.length := by
    intro j p hj
    rw [withOrders_index, hidx] at hj
    split at hj
    · assumption
    · cases hj
  have hranged : (b.withOrders orders).Ranged := by
    intro j p hj
    have := hget j p hj
    unfold InI64
    omega
  rw [hasNext_iff hranged]
  intro j p hj
  have := hget j p hj
  omega

theorem withOrders_iff (h : b.Bijective ∧ b.HasNext) {orders : List Order}
    (hlen : orders.length < 2 ^ 63) :
    ((b.withOrders orders).Bijective ∧ (b.withOrders orders).HasNext ↔ orders = [] ∨ b.orders = []) ∧
      (orders = [] ∨ b.orders = [] →
        b.Keeps (b.withOrders orders) ∧ StepFiled b (.withOrders orders)) := by
  by_cases ho : orders = []
  · subst ho
    rw [withOrders_nil]
    exact ⟨iff_of_true h (.inl rfl), fun _ => ⟨.refl b, bulk_filed (by simp)⟩⟩
  · by_cases hb : b.orders = []
    · obtain ⟨hbij, hfound⟩ := withOrders_bijective h.1 hb orders
      obtain ⟨hidx, hkey⟩ := blank_of_nil h.1 hb
      refine ⟨iff_of_true ⟨hbij, withOrders_hasNext h.1 hb hlen⟩ (.inr hb), fun _ =>
        ⟨⟨fun j o hj => ?_, fun k o hk => ?_⟩, bulk_filed hfound⟩⟩
      · rw [CompoundOrder.getByIndex, hidx] at hj
        cases hj
      · rw [CompoundOrder.getByKey, hkey] at hk
        cases hk
    · exact ⟨iff_of_false (fun hb' => withOrders_lost h.1 hb ho hb'.1)
        fun hfits => hfits.elim ho hb, fun hfits => (hfits.elim ho hb).elim⟩

/-! ### An order that is built -/

theorem built_filed {init : OrderInit} {index : Option Int} {now : Int} {freshId : String}
    {reply : BasketReply}
    (hs : basketMachine.step b (.addOrder init index key now freshId) = (reply, b'))
    (hfailed : ∀ e, reply = .failed e → b' = b)
    (hadded : ∀ id, reply = .added id → ∃ o, Order.fromInit { init with
        parentId := some b.id
        connection := init.connection.or b.connection } now freshId = .ok o ∧ Filed b b' index key o) :
    StepFiled b (.addOrder init index key now freshId) where
  failed e he := by
    rw [hs] at he ⊢
    exact hfailed e he
  bulk _ heq := by cases heq
  built _ _ _ _ _ id heq hreply := by
    cases heq
    rw [hs] at hreply ⊢
    exact hadded id hreply
  given _ _ _ _ _ heq := by cases heq

theorem addOrder_iff (hr : b.Ranged) (h : b.Bijective ∧ b.HasNext) {init : OrderInit}
    {index : Option Int} {now : Int} {freshId : String}
    (hv : (BasketCall.addOrder init index key now freshId).Ranged) :
    ((basketMachine.step b (.addOrder init index key now freshId)).2.Bijective ∧
          (basketMachine.step b (.addOrder init index key now freshId)).2.HasNext ↔
        b.Fits (.addOrder init index key now freshId)) ∧
      (b.Fits (.addOrder init index key now freshId) →
        b.Keeps (basketMachine.step b (.addOrder init index key now freshId)).2 ∧
          StepFiled b (.addOrder init index key now freshId)) := by
  obtain ⟨idx, hslot, hidx, hbelow⟩ := slot_cases h.2 index hv.1
  have hstep : basketMachine.step b (.addOrder init index key now freshId) =
      BasketReply.ofResult b (b.addOrder init index key now freshId) := rfl
  have hfits : b.Fits (.addOrder init index key now freshId) ↔
      idx < 2 ^ 63 - 1 ∨ (∃ k, key = some k ∧ b.keys.contains k = true) ∨
        init.quantity < 0 ∨ init.expiresIn = some (-2 ^ 63) := by
    rw [← hbelow]
    rfl
  rw [addOrder_eq hslot] at hstep
  rw [hfits]
  cases href : b.refusal idx key with
  | some e =>
      rw [href] at hstep
      have huse := refused_in_use hr h.2 (by rw [href]; simp)
      have hsame := congrArg Prod.snd hstep
      obtain ⟨hiff, hkeeps⟩ := kept_same h hsame (huse.imp_right Or.inl)
      exact ⟨hiff, fun _ => ⟨hkeeps, built_filed hstep (fun _ _ => rfl) fun id hid => by cases hid⟩⟩
  | none =>
      rw [href] at hstep
      have hfree := refusal_eq_none.mp href
      have hpanics : (∃ p, Order.fromInit { init with
          parentId := some b.id
          connection := init.connection.or b.connection } now freshId = .error p) ↔
          init.quantity < 0 ∨ init.expiresIn = some (-2 ^ 63) := fromInit_error_iff hv.2
      cases hbuilt : Order.fromInit { init with
          parentId := some b.id
          connection := init.connection.or b.connection } now freshId with
      | error p =>
          rw [hbuilt] at hstep
          have hsame := congrArg Prod.snd hstep
          obtain ⟨hiff, hkeeps⟩ := kept_same h hsame (Or.inr (Or.inr (hpanics.mp ⟨p, hbuilt⟩)))
          exact ⟨hiff, fun _ => ⟨hkeeps, built_filed hstep (fun _ _ => rfl) fun id hid => by cases hid⟩⟩
      | ok order =>
          rw [hbuilt] at hstep
          obtain ⟨hiff, hkeeps, hfiled⟩ := pushed hr h hfree hidx hslot order
          have hquiet : ¬ (init.quantity < 0 ∨ init.expiresIn = some (-2 ^ 63)) := by
            rw [← hpanics]
            rintro ⟨p, hp⟩
            rw [hbuilt] at hp
            cases hp
          have hstate : (basketMachine.step b (.addOrder init index key now freshId)).2 =
              b.push order idx key := congrArg Prod.snd hstep
          rw [hstate, hiff]
          refine ⟨⟨.inl, fun hor => ?_⟩, fun _ => ⟨hkeeps, built_filed hstep (fun e he => by cases he)
            fun id hid => ⟨order, hbuilt, hfiled⟩⟩⟩
          exact hor.resolve_right fun hor' => hor'.elim (not_in_use hfree) hquiet

/-! ### An order that is given -/

theorem given_filed {order : Order} {index : Option FloatIndex} {freshId : String} {reply : BasketReply}
    (hs : basketMachine.step b (.add order index key freshId) = (reply, b'))
    (hfailed : ∀ e, reply = .failed e → b' = b)
    (hadded : ∀ id, reply = .added id → Filed b b' (index.map FloatIndex.truncated) key { order with
      parentId := some b.id
      connection := order.connection.or b.connection
      id := some (order.id.getD freshId) }) : StepFiled b (.add order index key freshId) where
  failed e he := by
    rw [hs] at he ⊢
    exact hfailed e he
  bulk _ heq := by cases heq
  built _ _ _ _ _ _ heq := by cases heq
  given _ _ _ _ id heq hreply := by
    cases heq
    rw [hs] at hreply ⊢
    exact hadded id hreply

theorem add_iff (hr : b.Ranged) (h : b.Bijective ∧ b.HasNext) {order : Order}
    {index : Option FloatIndex} {freshId : String} :
    ((basketMachine.step b (.add order index key freshId)).2.Bijective ∧
          (basketMachine.step b (.add order index key freshId)).2.HasNext ↔
        b.Fits (.add order index key freshId)) ∧
      (b.Fits (.add order index key freshId) →
        b.Keeps (basketMachine.step b (.add order index key freshId)).2 ∧
          StepFiled b (.add order index key freshId)) := by
  obtain ⟨idx, hslot, hidx, hbelow⟩ := slot_cases h.2 _ (truncated_all index)
  have hstep : basketMachine.step b (.add order index key freshId) =
      BasketReply.ofResult b (b.add order index key freshId) := rfl
  have hfits : b.Fits (.add order index key freshId) ↔
      idx < 2 ^ 63 - 1 ∨ ∃ k, key = some k ∧ b.keys.contains k = true := by
    rw [← hbelow]
    rfl
  rw [add_eq hslot] at hstep
  rw [hfits]
  cases href : b.refusal idx key with
  | some e =>
      rw [href] at hstep
      have huse := refused_in_use hr h.2 (by rw [href]; simp)
      obtain ⟨hiff, hkeeps⟩ := kept_same h (congrArg Prod.snd hstep) huse
      exact ⟨hiff, fun _ => ⟨hkeeps, given_filed hstep (fun _ _ => rfl) fun id hid => by cases hid⟩⟩
  | none =>
      rw [href] at hstep
      have hfree := refusal_eq_none.mp href
      obtain ⟨hiff, hkeeps, hfiled⟩ := pushed hr h hfree hidx hslot { order with
        parentId := some b.id
        connection := order.connection.or b.connection
        id := some (order.id.getD freshId) }
      have hstate : (basketMachine.step b (.add order index key freshId)).2 = b.push { order with
        parentId := some b.id
        connection := order.connection.or b.connection
        id := some (order.id.getD freshId) } idx key := congrArg Prod.snd hstep
      rw [hstate, hiff]
      exact ⟨⟨.inl, fun hor => hor.resolve_right (not_in_use hfree)⟩, fun _ => ⟨hkeeps,
        given_filed hstep (fun e he => by cases he) fun id hid => hfiled⟩⟩

/-- A call leaves a basket as asked exactly where it fits, and files what it adds. -/
theorem basketStep_iff (hr : b.Ranged) (h : b.Bijective ∧ b.HasNext) (call : BasketCall)
    (hv : call.Ranged) :
    ((basketMachine.step b call).2.Bijective ∧ (basketMachine.step b call).2.HasNext ↔ b.Fits call) ∧
      (b.Fits call → b.Keeps (basketMachine.step b call).2 ∧ StepFiled b call) := by
  cases call with
  | withOrders orders => exact withOrders_iff h hv
  | addOrder init index key now freshId => exact addOrder_iff hr h hv
  | add order index key freshId => exact add_iff hr h

/-- The indices stay numbers of the source. -/
theorem basketStep_ranged (hr : b.Ranged) (call : BasketCall) (hv : call.Ranged) :
    (basketMachine.step b call).2.Ranged := by
  have next_range : ∀ {index : Option Int} {idx : Int}, (∀ idx, index = some idx → InI64 idx) →
      b.indexOrNext index = .ok idx → InI64 idx := by
    intro index idx hindex hslot
    cases index with
    | some i => exact Except.ok.inj hslot ▸ hindex i rfl
    | none =>
        have hnext : b.getNextIndex = .ok idx := hslot
        unfold CompoundOrder.getNextIndex at hnext
        split at hnext
        · cases hnext
          decide
        · unfold checkedI64 at hnext
          split at hnext
          · cases hnext
            assumption
          · cases hnext
  cases call with
  | withOrders orders =>
      have hlen : orders.length < 2 ^ 63 := hv
      intro idx p hget
      have hget' : (b.withOrders orders).index.get? idx = some p := hget
      rw [withOrders_index] at hget'
      split at hget'
      · unfold InI64
        omega
      · exact hr idx p hget'
  | addOrder init index key now freshId =>
      show (BasketReply.ofResult b (b.addOrder init index key now freshId)).2.Ranged
      cases hslot : b.indexOrNext index with
      | error p =>
          have he : b.addOrder init index key now freshId = .error p := by
            unfold CompoundOrder.addOrder
            simp only [hslot, bind, Except.bind]
          rw [he]
          exact hr
      | ok idx =>
          rw [addOrder_eq hslot]
          cases b.refusal idx key with
          | some e => exact hr
          | none =>
              dsimp only
              cases Order.fromInit _ now freshId with
              | error p => exact hr
              | ok order => exact push_ranged hr (next_range hv.1 hslot)
  | add order index key freshId =>
      show (BasketReply.ofResult b (b.add order index key freshId)).2.Ranged
      cases hslot : b.indexOrNext (index.map FloatIndex.truncated) with
      | error p =>
          have he : b.add order index key freshId = .error p := by
            unfold CompoundOrder.add
            simp only [hslot, bind, Except.bind]
          rw [he]
          exact hr
      | ok idx =>
          rw [add_eq hslot]
          cases b.refusal idx key with
          | some e => exact hr
          | none => exact push_ranged hr (next_range (truncated_all index) hslot)

/-! ## Runs -/

/-- A basket to which nothing was added yet. -/
def CompoundOrder.Blank (b : CompoundOrder) : Prop := b.orders = [] ∧ b.index = .empty ∧ b.keys = .empty

theorem blank_start (h : b.Blank) : b.Ranged ∧ b.Bijective ∧ b.HasNext := by
  obtain ⟨horders, hindex, hkeys⟩ := h
  have hidx : ∀ idx p, b.index.get? idx ≠ some p := by
    intro idx p hget
    rw [hindex] at hget
    cases hget
  have hkey : ∀ k p, b.keys.get? k ≠ some p := by
    intro k p hget
    rw [hkeys] at hget
    cases hget
  have hranged : b.Ranged := fun idx p hget => absurd hget (hidx idx p)
  refine ⟨hranged, ⟨fun p hp => ?_, fun idx p hget => absurd hget (hidx idx p),
    fun k p hget => absurd hget (hkey k p), fun k _ p hget => absurd hget (hkey k p)⟩, ?_⟩
  · rw [horders] at hp
    exact absurd hp (Nat.not_lt_zero p)
  · exact (hasNext_iff hranged).mpr fun idx p hget => absurd hget (hidx idx p)

/-- In a run of bulk and single additions to a new basket, every order is reached by exactly one index and
one key at most, there is a free next index, what is found under an index or key is found there for good,
what fails changes nothing and what does not is filed, exactly when every call fits the basket it
meets. -/
theorem index_bijective_iff (b : CompoundOrder) (hb : b.Blank) (calls : List BasketCall)
    (hv : ∀ call ∈ calls, call.Ranged) :
    ((∀ pre mid, pre ++ mid <+: calls →
          ((basketMachine.final b pre).Bijective ∧ (basketMachine.final b pre).HasNext) ∧
            (basketMachine.final b pre).Keeps (basketMachine.final b (pre ++ mid))) ∧
        ∀ pre call, pre ++ [call] <+: calls → StepFiled (basketMachine.final b pre) call) ↔
      basketMachine.Always CompoundOrder.Fits b calls := by
  obtain ⟨hr, hgood⟩ := blank_start hb
  have hsteady := basketMachine.steady_iff_always
    (I := fun b => b.Bijective ∧ b.HasNext) (J := CompoundOrder.Ranged) (R := CompoundOrder.Keeps)
    (V := BasketCall.Ranged) CompoundOrder.Keeps.refl (fun h h' => h.trans h')
    (fun _ call hcall hr => basketStep_ranged hr call hcall)
    (fun s call hcall hr hs => ⟨(basketStep_iff hr hs call hcall).1,
      fun hfits => ((basketStep_iff hr hs call hcall).2 hfits).1⟩) hr hgood hv
  rw [hsteady]
  refine ⟨And.left, fun hall => ⟨hall, fun pre call hp => ?_⟩⟩
  have hpre : pre <+: calls := (List.prefix_append pre [call]).trans hp
  have hstep : ∀ (s : CompoundOrder) (c : BasketCall), c.Ranged →
      s.Ranged ∧ s.Bijective ∧ s.HasNext → s.Fits c →
        (basketMachine.step s c).2.Ranged ∧ (basketMachine.step s c).2.Bijective ∧
          (basketMachine.step s c).2.HasNext :=
    fun s c hc hs hfits =>
      ⟨basketStep_ranged hs.1 c hc, (basketStep_iff hs.1 hs.2 c hc).1.mpr hfits⟩
  obtain ⟨hr', hgood'⟩ := Machine.Always.within _ hstep ⟨hr, hgood⟩ hv hall hpre
  obtain ⟨rest, rfl⟩ := hp
  have hfits := ((Machine.Always.append _).mp ((Machine.Always.append _).mp hall).1).2.1
  exact ((basketStep_iff hr' hgood' call (hv call (by simp))).2 hfits).2

namespace Sample

/-- An order of five. -/
def five : Order := OrderInit.build { symbol := "aapl", side := "buy", quantity := 5 } 0 "a" 60

/-- Two orders in bulk, one under an index and a key, one under the next index. -/
def filled : List BasketCall :=
  [.withOrders [five, five], .add five (some (.finite (7 / 2))) (some "x") "b",
    .addOrder { symbol := "goog", side := "sell", quantity := 1 } none none 0 "c"]

/-- One order under an index, then one in bulk. -/
def mixed : List BasketCall := [.add five (some (.finite 5)) none "b", .withOrders [five]]

theorem filled_ranged : ∀ call ∈ filled, call.Ranged := by
  simp [filled, BasketCall.Ranged]

theorem filled_fits : basketMachine.Always CompoundOrder.Fits (.new "b") filled := by
  have hthird : (FloatIndex.finite (7 / 2)).truncated < 2 ^ 63 - 1 := by decide +kernel
  refine ⟨.inr rfl, .inl hthird, .inl fun idx p hget => ?_, trivial⟩
  have hentries : (basketMachine.final (.new "b") (filled.take 2)).index =
      OrdMap.empty.insertAll [(0, 0), (1, 1), (3, 2)] := by decide +kernel
  have hmem := OrdMap.mem_of_get?_insertAll (hentries ▸ hget)
  simp only [List.mem_cons, Prod.mk.injEq, List.not_mem_nil, or_false] at hmem
  omega

theorem mixed_ranged : ∀ call ∈ mixed, call.Ranged := by
  simp [mixed, BasketCall.Ranged]

end Sample

open Sample in
/-- The four orders stay where they are filed. -/
theorem index_bijective_filled :
    (∀ pre mid, pre ++ mid <+: filled →
        ((basketMachine.final (.new "b") pre).Bijective ∧ (basketMachine.final (.new "b") pre).HasNext) ∧
          (basketMachine.final (.new "b") pre).Keeps (basketMachine.final (.new "b") (pre ++ mid))) ∧
      ∀ pre call, pre ++ [call] <+: filled → StepFiled (basketMachine.final (.new "b") pre) call :=
  (index_bijective_iff (.new "b") ⟨rfl, rfl, rfl⟩ filled filled_ranged).mpr filled_fits

open Sample in
/-- The second order has no index. -/
theorem mixed_basket_loses_order :
    ¬ ∀ (b : CompoundOrder), b.Blank → ∀ calls : List BasketCall, (∀ call ∈ calls, call.Ranged) →
      ∀ pre, pre <+: calls → (basketMachine.final b pre).Bijective := by
  intro h
  have hbij := h (.new "b") ⟨rfl, rfl, rfl⟩ mixed mixed_ranged mixed (List.prefix_refl _)
  obtain ⟨idx, hget, -⟩ := hbij.reached 1 (by decide)
  have hentries : (basketMachine.final (.new "b") mixed).index = OrdMap.empty.insertAll [(5, 0), (0, 0)] :=
    rfl
  rw [hentries] at hget
  have hmem := OrdMap.mem_of_get?_insertAll hget
  simp at hmem

end Omsrs.Basket
