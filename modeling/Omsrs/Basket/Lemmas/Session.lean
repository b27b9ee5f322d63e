import Omsrs.Basket.Session
import Omsrs.Basket.Theorems.Index
import Omsrs.Basket.Theorems.Modify
import Omsrs.Lib.Trail

/-!
# What a session does to an order

Whatever is called on a basket, each order of it goes through own writes, placements, modifications,
cancellations and saves, one after the other, and what is told about it is told by these.
-/

namespace Omsrs.Basket
open Omsrs.Lib

variable {L : Formats} {own : Prop} {o o' : Order}

/-! ## Moves of an order -/

/-- Own writes: the order stays the one it is to its broker and its database. -/
structure Order.Still (o o' : Order) : Prop where
  id : o'.id = o.id
  connection : o'.connection = o.connection
  orderId : o'.orderId = o.orderId
  numModifications : o'.numModifications = o.numModifications
  maxModifications : o'.maxModifications = o.maxModifications
  lock : o'.lock = o.lock

theorem Order.Still.refl (o : Order) : o.Still o := ⟨rfl, rfl, rfl, rfl, rfl, rfl⟩

theorem Order.Still.trans {o'' : Order} (h : o.Still o') (h' : o'.Still o'') : o.Still o'' :=
  ⟨h'.id.trans h.id, h'.connection.trans h.connection, h'.orderId.trans h.orderId,
    h'.numModifications.trans h.numModifications, h'.maxModifications.trans h.maxModifications,
    h'.lock.trans h.lock⟩

/-- One thing that is done to an order. With `own`, no modification names another order id. -/
inductive Moved (L : Formats) (own : Prop) : Order → List Message → Order → Prop
  | written {o o' : Order} (h : o.Still o') : Moved L own o [] o'
  | relocked {o : Order} (l : OrderLock) : Moved L own o [] { o with lock := l }
  | placed {o : Order} (args : OrdMap String Value) (answer : Option String) (hid : o.orderId = none) :
      Moved L own o (.place args answer :: Order.saveToDb L { o with orderId := answer })
        { o with orderId := answer }
  | modified {o : Order} {oid : String} (args : OrdMap String Value) (hid : o.orderId = some oid)
      (hlt : o.numModifications < o.maxModifications)
      (hown : own → args.get? "order_id" = some (.string oid)) :
      Moved L own o
        (.modify args :: Order.saveToDb L { o with numModifications := o.numModifications + 1 })
        { o with numModifications := o.numModifications + 1 }
  | cancelled {o : Order} {oid : String} (args : OrdMap String Value) (hid : o.orderId = some oid)
      (hargs : args.get? "order_id" = some (.string oid)) : Moved L own o [.cancel args] o
  | saved (o : Order) : Moved L own o (o.saveToDb L) o

/-- A course of such moves. -/
abbrev Course (L : Formats) (own : Prop) : Order → List Message → Order → Prop := Trail (Moved L own)

theorem Order.Still.course (h : o.Still o') : Course L own o [] o' := .single (.written h)

/-- A turn is a course, whether it panics or not. -/
def Turn.Courses {α : Type} (L : Formats) (own : Prop) (o : Order) (t : Turn α) : Prop :=
  Course L own o t.told t.order

theorem Turn.Courses.idle {α : Type} (a : α) : (Turn.idle o a).Courses L own o := .nil o

theorem Turn.Courses.map {α β : Type} {t : Turn α} (h : t.Courses L own o) (f : α → β) :
    (t.map f).Courses L own o := h

/-! ## Own writes -/

theorem setFilled_still {n : Int} (h : o.setFilled n = .ok o') : o.Still o' := by
  unfold Order.setFilled at h
  cases hc : clampI64 n o.filledQuantity o.quantity with
  | error p =>
      rw [hc] at h
      cases h
  | ok clamped =>
      rw [hc] at h
      simp only [Except.map, Except.ok.injEq] at h
      split at h
      · subst h
        exact ⟨rfl, rfl, rfl, rfl, rfl, rfl⟩
      · subst h
        exact .refl o

/-- A field that is written where its value reads. -/
theorem written_still {α : Type} {x : Option α} {f : α → Order}
    (h : (Except.ok ((x.map f).getD o) : Except Panic Order) = .ok o') (hf : ∀ a, o.Still (f a)) :
    o.Still o' := by
  cases h
  cases x with
  | none => exact .refl o
  | some a => exact hf a

theorem setLocalField_still {key : String} {v : Value} (h : o.setLocalField L key v = .ok o') :
    o.Still o' := by
  unfold Order.setLocalField at h
  split at h
  case h_2 =>
    cases h
    exact ⟨rfl, rfl, rfl, rfl, rfl, rfl⟩
  case h_11 =>
    split at h
    · exact setFilled_still h
    · cases h
      exact .refl o
  case h_16 =>
    cases h
    exact .refl o
  all_goals exact written_still h fun _ => ⟨rfl, rfl, rfl, rfl, rfl, rfl⟩

theorem setFromValue_still {key : String} {v : Value} (h : o.setFromValue L key v = .ok o') :
    o.Still o' := by
  unfold Order.setFromValue at h
  split at h
  case h_4 =>
    split at h
    · exact setFilled_still h
    · cases h
      exact .refl o
  case h_8 =>
    cases h
    exact .refl o
  all_goals exact written_still h fun _ => ⟨rfl, rfl, rfl, rfl, rfl, rfl⟩

theorem updateAttr_still {data : Fields} {key : String} (h : Order.updateAttr L data o key = .ok o') :
    o.Still o' := by
  unfold Order.updateAttr at h
  split at h
  · split at h
    · cases h
      exact .refl o
    · exact setFromValue_still h
  · cases h
    exact .refl o

theorem update_still (o : Order) (now : Int) (data : Fields) : o.Still (o.update L now data).2 :=
  update_relates Order.Still.refl (fun h h' => h.trans h') updateAttr_still
    (fun _ _ _ => ⟨rfl, rfl, rfl, rfl, rfl, rfl⟩) o now data

theorem walk_still (o : Order) (acc l : List (String × Value)) :
    o.Still (Order.writeLocal L o acc l).2.1 :=
  walk_relates (R := Order.Still) Order.Still.refl (fun h h' => h.trans h')
    (fun _ hset => setLocalField_still hset) o acc

/-! ## The turns -/

theorem updating_courses (o : Order) (now : Int) (data : Fields) :
    (o.updating L now data).Courses L own o := by
  have hu := update_still (L := L) o now data
  unfold Order.updating
  rcases hr : o.update L now data with ⟨_ | _ | _, o'⟩
  all_goals rw [hr] at hu
  · exact hu.course
  · exact hu.course
  · exact hu.course.append (.single (.saved _))

theorem placing_courses (o : Order) (brokerAttrs attribsToCopy : Option (List String)) (kwargs : Fields)
    (answer : Option String) : (o.placing L brokerAttrs attribsToCopy kwargs answer).Courses L own o := by
  unfold Order.placing Order.execute
  cases hc : o.isComplete with
  | error p => exact .nil o
  | ok complete =>
      cases hid : o.orderId with
      | some oid =>
          simp only [bind, Except.bind, Option.isSome_some, Bool.or_true, if_true, pure, Except.pure]
          exact .nil o
      | none =>
          cases complete with
          | true =>
              simp only [bind, Except.bind, Bool.true_or, if_true, pure, Except.pure]
              exact .nil o
          | false =>
              simp only [bind, Except.bind, Option.isSome_none, Bool.or_false, Bool.false_eq_true,
                if_false, pure, Except.pure]
              exact .single (.placed _ answer hid)

/-- The order id is copied as it is, if at all. -/
theorem copied_or {brokerAttrs attribsToCopy : Option (List String)} {oid : String}
    (hid : o.orderId = some oid) :
    (none : Option Value).or (((o.getOtherArgsFromAttribs L brokerAttrs attribsToCopy).get? "order_id").or
      ((some oid).map Value.string)) = some (.string oid) := by
  cases hc : (o.getOtherArgsFromAttribs L brokerAttrs attribsToCopy).get? "order_id" with
  | none => rfl
  | some v =>
      have hattr : o.getAttr L "order_id" = some v := otherArgs_get hc
      have : o.getAttr L "order_id" = some (.string oid) := by simp [Order.getAttr, hid]
      exact hattr.symm.trans this

/-- How a modification ends. One that is sent found the lock open and, where it does not name the order
id, tells the broker the one that the order has. -/
theorem modify_cases (o : Order) (now : Int) (brokerAttrs attribsToCopy : Option (List String))
    (kwargs : Fields) :
    (∃ o₁, o.Still o₁ ∧ (o.modify L now brokerAttrs attribsToCopy kwargs = (.locked, o₁) ∨
      o.modify L now brokerAttrs attribsToCopy kwargs = (.unsent, o₁) ∨
      ∃ p, o.modify L now brokerAttrs attribsToCopy kwargs = (.panicked p, o₁))) ∨
    ∃ o₁ args oid, o.Still o₁ ∧ o₁.orderId = some oid ∧ o₁.numModifications < o₁.maxModifications ∧
      o.lock.canModify now = true ∧
      (kwargs.get? "order_id" = none → args.get? "order_id" = some (.string oid)) ∧
      o.modify L now brokerAttrs attribsToCopy kwargs =
        (.sent args, { o₁ with numModifications := o₁.numModifications + 1 }) := by
  have hwalk := walk_still (L := L) o [] kwargs.entries
  have hadded : ∀ key ∈ (Order.writeLocal L o [] kwargs.entries).2.2.map Prod.fst,
      key ∈ kwargs.entries.map Prod.fst := by
    intro key hkey
    rcases writeLocal_added o [] kwargs.entries hkey with hnil | hkey
    · cases hnil
    · exact hkey
  unfold Order.modify
  split
  · exact .inl ⟨o, .refl o, .inl rfl⟩
  · rename_i hopen
    rcases hw : Order.writeLocal L o [] kwargs.entries with ⟨_ | p, o₁, added⟩
    · rw [hw] at hwalk hadded
      by_cases hbudget : o₁.numModifications < o₁.maxModifications
      · cases hid : o₁.orderId with
        | none => exact .inl ⟨o₁, hwalk, .inr (.inl (by simp [hbudget, hid]))⟩
        | some oid =>
            refine .inr ⟨o₁, o.layered L o₁ brokerAttrs attribsToCopy added kwargs, oid, hwalk, hid,
              hbudget, by simpa using hopen, fun hk => ?_, by simp [hbudget, hid, Order.layered]⟩
            rw [layered_get hadded (by decide), hk, (modifyArgs_get L o₁).1, hid]
            exact copied_or (hwalk.orderId.symm.trans hid)
      · exact .inl ⟨o₁, hwalk, .inr (.inl (by simp [hbudget]))⟩
    · rw [hw] at hwalk
      exact .inl ⟨o₁, hwalk, .inr (.inr ⟨p, rfl⟩)⟩

theorem modifying_courses (o : Order) (now : Int) (brokerAttrs attribsToCopy : Option (List String))
    (kwargs : Fields) (hk : own → kwargs.get? "order_id" = none) :
    (o.modifying L now brokerAttrs attribsToCopy kwargs).Courses L own o := by
  unfold Turn.Courses Order.modifying
  rcases modify_cases (L := L) o now brokerAttrs attribsToCopy kwargs with
    ⟨o₁, hs, h | h | ⟨p, h⟩⟩ | ⟨o₁, args, oid, hs, hid, hlt, -, hargs, h⟩
  · rw [h]
    exact hs.course
  · rw [h]
    exact hs.course
  · rw [h]
    exact hs.course
  · rw [h]
    exact hs.course.append (.single (.modified args hid hlt fun ho => hargs (hk ho)))

theorem cancel_courses (o : Order) (now : Int) (brokerAttrs attribsToCopy : Option (List String)) :
    (o.cancel L now brokerAttrs attribsToCopy).Courses L own o := by
  unfold Order.cancel
  split
  · exact .nil o
  · cases hid : o.orderId with
    | none => exact .nil o
    | some oid =>
        refine .single (.cancelled _ hid ?_)
        rw [OrdMap.get?_insertAll, OrdMap.insertAll_entries, OrdMap.get?_insert_self]
        simpa using (copied_or hid : (none : Option Value).or
          (((o.getOtherArgsFromAttribs L brokerAttrs attribsToCopy).get? "order_id").or _) = _)

theorem checkFlag_courses (o : Order) (tick : Order.Tick) (brokerModify brokerCancel : Option (List String)) :
    (o.checkFlag L tick brokerModify brokerCancel).Courses L own o := by
  unfold Order.checkFlag
  split
  · exact .nil o
  · exact .nil o
  · split
    · have hwritten : o.Still { o with orderType := "MARKET", price := none, triggerPrice := 0 } :=
        ⟨rfl, rfl, rfl, rfl, rfl, rfl⟩
      exact hwritten.course.append (modifying_courses _ _ _ _ _ fun _ => rfl)
    · split
      · exact cancel_courses o _ _ _
      · exact .nil o

/-- A modification in this call does not name an order id. -/
def PositionCall.spares : PositionCall → Prop
  | .modify _ _ _ kwargs => kwargs.get? "order_id" = none
  | _ => True

theorem answer_courses (o : Order) (c : PositionCall) (hc : own → c.spares) :
    (o.answer L c).Courses L own o := by
  cases c with
  | update now data => exact updating_courses o now data
  | execute brokerAttrs attribsToCopy kwargs answer =>
      exact placing_courses o brokerAttrs attribsToCopy kwargs answer
  | modify now brokerAttrs attribsToCopy kwargs => exact modifying_courses o now _ _ kwargs hc
  | cancel now brokerAttrs attribsToCopy => exact cancel_courses o now _ _
  | addLock now code seconds =>
      obtain ⟨l, h⟩ := addLock_lock o now code seconds
      have hmove : Course L own o [] (o.addLock now code seconds) := by
        rw [h]
        exact .single (.relocked l)
      exact hmove
  | saveToDb => exact .single (.saved o)

/-! ## The session -/

/-- What is told about one position. -/
def toldOf (i : Nat) (log : List (Nat × Message)) : List Message :=
  log.filterMap fun e => if e.1 = i then some e.2 else none

@[simp] theorem toldOf_nil (i : Nat) : toldOf i [] = [] := rfl

@[simp] theorem toldOf_append (i : Nat) (log log' : List (Nat × Message)) :
    toldOf i (log ++ log') = toldOf i log ++ toldOf i log' := by simp [toldOf]

theorem toldOf_map (i n : Nat) (told : List Message) :
    toldOf i (told.map (Prod.mk n)) = if n = i then told else [] := by
  by_cases h : n = i
  · simp [toldOf, h]
  · simp [toldOf, h]

theorem toldOf_eq_nil {i : Nat} {log : List (Nat × Message)} (h : ∀ e ∈ log, e.1 ≠ i) :
    toldOf i log = [] := by
  simpa [toldOf] using h

theorem mem_toldOf {i : Nat} {m : Message} {log : List (Nat × Message)} :
    m ∈ toldOf i log ↔ (i, m) ∈ log := by
  simp only [toldOf, List.mem_filterMap]
  constructor
  · rintro ⟨⟨j, m'⟩, he, hm⟩
    by_cases hj : j = i
    · subst hj
      simp only [if_true, Option.some.injEq] at hm
      exact hm ▸ he
    · simp [hj] at hm
  · intro h
    exact ⟨(i, m), h, by simp⟩

section Carries

variable {P : Nat → Order → List Message → Order → Prop} {os : List Order}

/-- From the orders of a basket to those after a call: what is told of every order has to do with this
order alone, also where it is new, and nothing is told about orders that are not there. -/
structure Carries (P : Nat → Order → List Message → Order → Prop) (os : List Order)
    (told : List (Nat × Message)) (os' : List Order) : Prop where
  old : ∀ i o, os[i]? = some o → ∃ o', os'[i]? = some o' ∧ P i o (toldOf i told) o'
  new : ∀ i o', os[i]? = none → os'[i]? = some o' → P i o' (toldOf i told) o'
  within : ∀ e ∈ told, e.1 < os'.length

theorem Carries.refl (hidle : ∀ i o, P i o [] o) (os : List Order) : Carries P os [] os where
  old i o h := ⟨o, h, hidle i o⟩
  new i o' h h' := by
    rw [h] at h'
    cases h'
  within := by simp

/-- A sweep over the orders from the place `n`: each order has its turn, or none after a panic. -/
theorem sweep_turns {α : Type} {f : Nat → Order → Turn α}
    (hidle : ∀ n o, P n o [] o) (hf : ∀ n o, P n o (f n o).told (f n o).order) (n : Nat)
    (os : List Order) :
    (sweep f n os).2.1.length = os.length ∧
      (∀ e ∈ (sweep f n os).1, n ≤ e.1 ∧ e.1 < n + os.length) ∧
      ∀ i o, os[i]? = some o → ∃ o', (sweep f n os).2.1[i]? = some o' ∧
        P (n + i) o (toldOf (n + i) (sweep f n os).1) o' := by
  induction os generalizing n with
  | nil => simp [sweep]
  | cons o os ih =>
      have hhead := hf n o
      cases hv : (f n o).value with
      | error p =>
          simp only [sweep, hv]
          refine ⟨by simp, fun e he => ?_, fun i o' hi => ?_⟩
          · obtain ⟨t, -, rfl⟩ := List.mem_map.mp he
            exact ⟨le_rfl, by simp⟩
          · rw [toldOf_map]
            cases i with
            | zero =>
                cases hi
                exact ⟨(f n o).order, rfl, by simpa using hhead⟩
            | succ i =>
                rw [if_neg (by omega)]
                exact ⟨o', hi, hidle _ o'⟩
      | ok a =>
          obtain ⟨hlen, hwithin, hold⟩ := ih (n + 1)
          simp only [sweep, hv]
          refine ⟨by simp [hlen], fun e he => ?_, fun i o' hi => ?_⟩
          · rcases List.mem_append.mp he with he | he
            · obtain ⟨t, -, rfl⟩ := List.mem_map.mp he
              exact ⟨le_rfl, by simp⟩
            · have := hwithin e he
              simp only [List.length_cons]
              omega
          · simp only [toldOf_append, toldOf_map]
            cases i with
            | zero =>
                cases hi
                have hrest : toldOf (n + 0) (sweep f (n + 1) os).1 = [] :=
                  toldOf_eq_nil fun e he => by have := hwithin e he; omega
                refine ⟨(f n o).order, rfl, ?_⟩
                rw [hrest, List.append_nil]
                simpa using hhead
            | succ i =>
                rw [if_neg (by omega), List.nil_append, show n + (i + 1) = n + 1 + i by omega]
                exact hold i o' hi

theorem Carries.swept {α : Type} {f : Nat → Order → Turn α} (hidle : ∀ n o, P n o [] o)
    (hf : ∀ n o, P n o (f n o).told (f n o).order) (os : List Order) :
    Carries P os (sweep f 0 os).1 (sweep f 0 os).2.1 := by
  obtain ⟨hlen, hwithin, hold⟩ := sweep_turns hidle hf 0 os
  refine ⟨fun i o h => by simpa using hold i o h, fun i o' h h' => ?_, fun e he => ?_⟩
  · have hi := List.getElem?_eq_none_iff.mp h
    rw [List.getElem?_eq_none (by omega)] at h'
    cases h'
  · have := hwithin e he
    omega

/-- One order has a turn. -/
theorem Carries.single {n : Nat} (hidle : ∀ i o, P i o [] o) (hn : os[n]? = some o) {t : Turn Unit}
    (ht : P n o t.told t.order) : Carries P os (t.told.map (Prod.mk n)) (os.set n t.order) := by
  obtain ⟨hlt, -⟩ := List.getElem?_eq_some_iff.mp hn
  refine ⟨fun i o' h => ?_, fun i o' h h' => ?_, fun e he => ?_⟩
  · rw [toldOf_map]
    by_cases hi : n = i
    · subst hi
      rw [hn] at h
      cases h
      exact ⟨t.order, by simp [hlt], by simpa using ht⟩
    · exact ⟨o', by rw [List.getElem?_set_ne hi]; exact h, by simpa [hi] using hidle i o'⟩
  · have hi := List.getElem?_eq_none_iff.mp h
    rw [List.getElem?_eq_none (by simpa using hi)] at h'
    cases h'
  · obtain ⟨t', -, rfl⟩ := List.mem_map.mp he
    simpa using hlt

/-- Orders come in at the end, each with what is saved of it. -/
theorem Carries.appended (hidle : ∀ i o, P i o [] o) (os more : List Order) {told : List (Nat × Message)}
    (hold : ∀ e ∈ told, os.length ≤ e.1 ∧ e.1 < os.length + more.length)
    (hnew : ∀ i o, more[i]? = some o → P (os.length + i) o (toldOf (os.length + i) told) o) :
    Carries P os told (os ++ more) := by
  refine ⟨fun i o h => ⟨o, ?_, ?_⟩, fun i o h h' => ?_, fun e he => ?_⟩
  · obtain ⟨hi, -⟩ := List.getElem?_eq_some_iff.mp h
    rwa [List.getElem?_append_left hi]
  · obtain ⟨hi, -⟩ := List.getElem?_eq_some_iff.mp h
    rw [toldOf_eq_nil fun e he => by have := (hold e he).1; omega]
    exact hidle i o
  · have hi := List.getElem?_eq_none_iff.mp h
    rw [List.getElem?_append_right hi] at h'
    have := hnew (i - os.length) o h'
    rwa [show os.length + (i - os.length) = i by omega] at this
  · have := (hold e he).2
    rwa [List.length_append]

end Carries

/-! ## One call -/

/-- A call on the basket alone: orders at the end, nothing, or one order. -/
theorem basketStep_cases (b : CompoundOrder) (c : BasketCall) :
    (∃ more, b.step c = (.made, b.withOrders more)) ∨
    ((b.step c).2 = b ∧ ∀ id, (b.step c).1 ≠ .added id) ∨
    ∃ id o idx key, b.step c = (.added id, b.push o idx key) := by
  cases c with
  | withOrders orders => exact .inl ⟨orders, rfl⟩
  | addOrder init index key now freshId =>
      simp only [CompoundOrder.step]
      cases hslot : b.indexOrNext index with
      | error p =>
          have h : b.addOrder init index key now freshId = .error p := by
            unfold CompoundOrder.addOrder
            rw [hslot]
            rfl
          rw [h]
          exact .inr (.inl ⟨rfl, by simp [BasketReply.ofResult]⟩)
      | ok idx =>
          rw [addOrder_eq hslot]
          cases b.refusal idx key with
          | some e => exact .inr (.inl ⟨rfl, by simp [BasketReply.ofResult]⟩)
          | none =>
              cases Order.fromInit { init with
                  parentId := some b.id
                  connection := init.connection.or b.connection } now freshId with
              | error p => exact .inr (.inl ⟨rfl, by simp [BasketReply.ofResult, Except.map]⟩)
              | ok o => exact .inr (.inr ⟨_, o, idx, key, rfl⟩)
  | add order index key freshId =>
      simp only [CompoundOrder.step]
      cases hslot : b.indexOrNext (index.map FloatIndex.truncated) with
      | error p =>
          have h : b.add order index key freshId = .error p := by
            unfold CompoundOrder.add
            rw [hslot]
            rfl
          rw [h]
          exact .inr (.inl ⟨rfl, by simp [BasketReply.ofResult]⟩)
      | ok idx =>
          rw [add_eq hslot]
          cases b.refusal idx key with
          | some e => exact .inr (.inl ⟨rfl, by simp [BasketReply.ofResult]⟩)
          | none => exact .inr (.inr ⟨_, _, idx, key, rfl⟩)

/-- The calls that name no other order id. -/
def SessionCall.spares : SessionCall → Prop
  | .position _ c => c.spares
  | _ => True

theorem saveToDb_tagged (i n : Nat) (o : Order) :
    toldOf i ((o.saveToDb L).map (Prod.mk n)) = if n = i then o.saveToDb L else [] :=
  toldOf_map i n _

/-- Every order is saved once. -/
theorem toldOf_save (i n : Nat) (os : List Order) :
    toldOf i ((os.zipIdx n).flatMap fun e => (e.1.saveToDb L).map (Prod.mk e.2)) =
      match if n ≤ i then os[i - n]? else none with
      | some o => o.saveToDb L
      | none => [] := by
  induction os generalizing n with
  | nil => simp
  | cons o os ih =>
      rw [List.zipIdx_cons, List.flatMap_cons, toldOf_append, saveToDb_tagged, ih]
      rcases lt_trichotomy n i with h | rfl | h
      · have hs : i - n = (i - (n + 1)) + 1 := by omega
        rw [if_neg h.ne, if_pos (by omega : n + 1 ≤ i), if_pos h.le, hs]
        simp
      · simp
      · rw [if_neg h.ne', if_neg (by omega), if_neg (by omega)]
        rfl

/-- A relation that every turn of a call meets. -/
structure Rules (L : Formats) (P : Nat → Order → List Message → Order → Prop) (c : SessionCall) :
    Prop where
  idle : ∀ i o, P i o [] o
  saved : ∀ i o, P i o (o.saveToDb L) o
  answered : ∀ n pc, c = .position n pc → ∀ o, P n o (o.answer L pc).told (o.answer L pc).order
  updated : ∀ i o now data, P i o (o.updating L now data).told (o.updating L now data).order
  placed : ∀ i o brokerAttrs kwargs answer, P i o (o.placing L brokerAttrs none kwargs answer).told
    (o.placing L brokerAttrs none kwargs answer).order
  flagged : ∀ view clock, c = .checkFlags view clock → ∀ i o brokerModify brokerCancel,
    P i o (o.checkFlag L (clock i) brokerModify brokerCancel).told
      (o.checkFlag L (clock i) brokerModify brokerCancel).order
  reset : c = .setClock → ∀ i o, P i o [] o.setClock

section Calls

variable {P : Nat → Order → List Message → Order → Prop} {c : SessionCall}

theorem Rules.save (h : Rules L P c) (b : CompoundOrder) : Carries P b.orders (b.save L) b.orders := by
  refine ⟨fun i o hi => ⟨o, hi, ?_⟩, fun i o hi h' => ?_, fun e he => ?_⟩
  · rw [CompoundOrder.save, toldOf_save]
    simp only [Nat.zero_le, if_true, Nat.sub_zero, hi]
    exact h.saved i o
  · rw [hi] at h'
    cases h'
  · obtain ⟨e', he', hm⟩ := List.mem_flatMap.mp he
    obtain ⟨t, -, rfl⟩ := List.mem_map.mp hm
    have := List.snd_lt_of_mem_zipIdx he'
    simpa using this

theorem Rules.setClock (h : Rules L P c) (hc : c = .setClock) (os : List Order) :
    Carries P os [] (os.map Order.setClock) := by
  refine ⟨fun i o hi => ⟨o.setClock, by simp [hi], h.reset hc i o⟩, fun i o hi h' => ?_, by simp⟩
  rw [List.getElem?_map, hi] at h'
  cases h'

/-- What every turn of a call meets, the call makes of the basket. -/
theorem Rules.step (h : Rules L P c) (s : Session) :
    Carries P s.basket.orders ((sessionMachine L).step s c).1.told
      ((sessionMachine L).step s c).2.basket.orders := by
  simp only [sessionMachine]
  cases c with
  | basket c =>
      rcases basketStep_cases s.basket c with ⟨more, hb⟩ | ⟨hb, hr⟩ | ⟨id, o, idx, key, hb⟩
      · simp only [Session.step, hb, Session.savedOnAdd]
        exact .appended h.idle _ more (by simp) fun i o _ => h.idle _ o
      · have hnone : Session.savedOnAdd L (s.basket.step c).2 (s.basket.step c).1 = [] := by
          unfold Session.savedOnAdd
          split
          · rename_i id hid
            exact absurd hid (hr id)
          · rfl
        simp only [Session.step, hnone]
        rw [hb]
        exact .refl h.idle _
      · simp only [Session.step, hb, Session.savedOnAdd, push_orders]
        rw [List.getLast?_append]
        simp only [List.getLast?_singleton, Option.some_or, List.length_append, List.length_singleton,
          Nat.add_sub_cancel]
        refine .appended h.idle _ [o] (fun e he => ?_) fun i o' hi => ?_
        · obtain ⟨t, -, rfl⟩ := List.mem_map.mp he
          simp
        · cases i with
          | zero =>
              cases hi
              rw [saveToDb_tagged]
              simpa using h.saved (s.basket.orders.length + 0) o
          | succ i => cases hi
  | position n c =>
      simp only [Session.step]
      cases hn : s.basket.orders[n]? with
      | none => exact .refl h.idle _
      | some o => exact .single h.idle hn (h.answered n c rfl o)
  | updateOrders clock data =>
      simp only [Session.step, CompoundOrder.updateOrders]
      split
      · exact .refl h.idle _
      · refine .swept h.idle (fun n o => ?_) _
        split
        · split
          · exact h.idle n o
          · split
            · exact h.idle n o
            · exact h.updated n o _ _
        · exact h.idle n o
  | executeAll view kwargs =>
      simp only [Session.step]
      split
      · exact .swept h.idle (fun n o => h.placed n o _ _ _) _
      · exact .refl h.idle _
  | checkFlags view clock =>
      simp only [Session.step]
      split
      · exact .swept h.idle (fun n o => h.flagged view clock rfl n o _ _) _
      · exact .refl h.idle _
  | updateLtp lastPrice => exact .refl h.idle _
  | setClock => exact h.setClock rfl _
  | save => exact h.save _

end Calls

theorem courses_rules (c : SessionCall) (hc : own → c.spares) :
    Rules L (fun _ o told o' => Course L own o told o') c where
  idle _ o := .nil o
  saved _ o := .single (.saved o)
  answered n pc h o := by
    subst h
    exact answer_courses o pc hc
  updated _ o now data := updating_courses o now data
  placed _ o brokerAttrs kwargs answer := placing_courses o brokerAttrs none kwargs answer
  flagged view clock _ i o brokerModify brokerCancel := checkFlag_courses o (clock i) brokerModify brokerCancel
  reset _ i o := .single (.relocked .unlocked)

/-- In a call every order goes a course of its own. -/
theorem step_carries (s : Session) (c : SessionCall) (hc : own → c.spares) :
    Carries (fun _ o told o' => Course L own o told o') s.basket.orders
      ((sessionMachine L).step s c).1.told ((sessionMachine L).step s c).2.basket.orders :=
  (courses_rules c hc).step s

/-! ## A run -/

/-- What a run of calls told, about which order. -/
def sessionLog (L : Formats) (s : Session) (es : List SessionCall) : List (Nat × Message) :=
  ((sessionMachine L).outputs s es).flatMap (·.told)

theorem sessionLog_concat (s : Session) (es : List SessionCall) (c : SessionCall) :
    sessionLog L s (es ++ [c]) =
      sessionLog L s es ++ ((sessionMachine L).step ((sessionMachine L).final s es) c).1.told := by
  simp [sessionLog, Machine.outputs_append]

theorem final_concat (s : Session) (es : List SessionCall) (c : SessionCall) :
    (sessionMachine L).final s (es ++ [c]) =
      ((sessionMachine L).step ((sessionMachine L).final s es) c).2 := by
  rw [Machine.final_append]
  rfl

/-- The order that came into the basket at this place, during these calls or before them. -/
def CameIn (L : Formats) (s : Session) (es : List SessionCall) (i : Nat) (o : Order) : Prop :=
  ∃ pre, pre <+: es ∧ ((sessionMachine L).final s pre).basket.orders[i]? = some o ∧
    ∀ before, before <+: pre → before ≠ pre →
      ((sessionMachine L).final s before).basket.orders[i]? = none

theorem CameIn.later {s : Session} {es : List SessionCall} {i : Nat} (h : CameIn L s es i o)
    (c : SessionCall) : CameIn L s (es ++ [c]) i o := by
  obtain ⟨pre, hpre, hin⟩ := h
  exact ⟨pre, hpre.trans (List.prefix_append es [c]), hin⟩

/-- No order leaves a basket. -/
theorem run_keeps (s : Session) (es : List SessionCall) {i : Nat} (h : s.basket.orders[i]? = some o) :
    ∃ o', ((sessionMachine L).final s es).basket.orders[i]? = some o' := by
  induction es generalizing s o with
  | nil => exact ⟨o, h⟩
  | cons c es ih =>
      obtain ⟨o₁, h₁, -⟩ :=
        (step_carries (L := L) s c fun (hf : False) => hf.elim).old i o h
      exact ih _ h₁

theorem CameIn.now {s : Session} {es : List SessionCall} {c : SessionCall} {i : Nat}
    (hnone : ((sessionMachine L).final s es).basket.orders[i]? = none)
    (h : ((sessionMachine L).final s (es ++ [c])).basket.orders[i]? = some o) :
    CameIn L s (es ++ [c]) i o := by
  refine ⟨es ++ [c], List.prefix_rfl, h, fun before hbefore hne => ?_⟩
  rcases List.prefix_concat_iff.mp hbefore with rfl | hbefore
  · exact absurd rfl hne
  · obtain ⟨rest, rfl⟩ := hbefore
    cases hb : ((sessionMachine L).final s before).basket.orders[i]? with
    | none => rfl
    | some o₁ =>
        obtain ⟨o', h'⟩ := run_keeps (L := L) _ rest hb
        rw [Machine.final_append, h'] at hnone
        cases hnone

/-- Every order of a basket went a course from where it came in, whatever was called, and no other was
told of. -/
theorem run_carried (s : Session) {es : List SessionCall} (hes : ∀ c ∈ es, own → c.spares) :
    (∀ e ∈ sessionLog L s es, e.1 < ((sessionMachine L).final s es).basket.orders.length) ∧
      ∀ (i : Nat) o', ((sessionMachine L).final s es).basket.orders[i]? = some o' →
        ∃ o, CameIn L s es i o ∧ Course L own o (toldOf i (sessionLog L s es)) o' := by
  induction es using List.reverseRecOn with
  | nil =>
      refine ⟨by simp [sessionLog], fun i o' h => ⟨o', ⟨[], List.prefix_rfl, h, ?_⟩, .nil o'⟩⟩
      intro before hbefore hne
      exact absurd (List.prefix_nil.mp hbefore) hne
  | append_singleton es c ih =>
      obtain ⟨hin, hold⟩ := ih fun c' hc' => hes c' (by simp [hc'])
      have hc := step_carries (L := L) ((sessionMachine L).final s es) c (hes c (by simp))
      rw [sessionLog_concat, final_concat]
      constructor
      · intro e he
        rcases List.mem_append.mp he with he | he
        · obtain ⟨o', h', -⟩ := hc.old e.1 _ (List.getElem?_eq_getElem (hin e he))
          exact (List.getElem?_eq_some_iff.mp h').1
        · exact hc.within e he
      · intro i o' ho'
        rw [toldOf_append]
        cases h₁ : ((sessionMachine L).final s es).basket.orders[i]? with
        | some o₁ =>
            obtain ⟨o, hcame, hcourse⟩ := hold i o₁ h₁
            obtain ⟨o₂, h₂, hnext⟩ := hc.old i o₁ h₁
            rw [h₂] at ho'
            cases ho'
            exact ⟨o, hcame.later c, hcourse.append hnext⟩
        | none =>
            have hlen := List.getElem?_eq_none_iff.mp h₁
            refine ⟨o', .now h₁ (by rw [final_concat]; exact ho'), ?_⟩
            rw [toldOf_eq_nil fun e he => by have := hin e he; omega]
            exact hc.new i o' h₁ ho'

end Omsrs.Basket
