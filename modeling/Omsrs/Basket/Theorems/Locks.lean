import Omsrs.Basket.Lemmas.Session

/-!
# Locks that hold

A lock on the modification or the cancellation of an order holds whatever is called on its basket: until
it ends, the broker hears no such message of this order.
-/

namespace Omsrs.Basket
open Omsrs.Lib

variable {L : Formats} {o o' : Order} {kind : LockKind} {time : Option Int}

/-! ## The two locks -/

/-- The locks of an order. -/
inductive LockKind
  | modification
  | cancellation
deriving DecidableEq

namespace LockKind

/-- The number that `add_lock` has for it. -/
def code : LockKind → Int
  | .modification => 1
  | .cancellation => 2

def till : LockKind → OrderLock → Int
  | .modification, l => l.modificationLockTill
  | .cancellation, l => l.cancellationLockTill

/-- The longest time that it may be added for, in seconds. -/
def cap : LockKind → OrderLock → ℚ
  | .modification, l => l.maxOrderModificationLockTime
  | .cancellation, l => l.maxOrderCancellationLockTime

def guards : LockKind → Message → Bool
  | .modification, .modify _ => true
  | .cancellation, .cancel _ => true
  | _, _ => false

end LockKind

/-- The reading of the clock that a call lets a message through at. -/
def PositionCall.clock : PositionCall → Option Int
  | .modify now .. | .cancel now .. => some now
  | _ => none

def SessionCall.clock (i : Nat) : SessionCall → Option Int
  | .position n c => if n = i then c.clock else none
  | .checkFlags _ clock => some (clock i).lock
  | _ => none

/-- The calls that set the lock of an order anew. -/
def PositionCall.relocks (kind : LockKind) : PositionCall → Bool
  | .addLock _ code _ => decide (code = kind.code)
  | _ => false

def SessionCall.relocks (kind : LockKind) (i : Nat) : SessionCall → Bool
  | .position n c => decide (n = i) && c.relocks kind
  | .setClock => true
  | _ => false

/-! ## A turn heeds the lock -/

/-- The lock stays, and what it guards is told only after its end. -/
structure Heeds (kind : LockKind) (time : Option Int) (o : Order) (told : List Message) (o' : Order) :
    Prop where
  stays : kind.till o'.lock = kind.till o.lock
  late : ∀ m ∈ told, kind.guards m = true → ∃ now, time = some now ∧ kind.till o.lock < now

theorem Heeds.idle (o : Order) : Heeds kind time o [] o := ⟨rfl, by simp⟩

theorem Order.Still.heeds (h : o.Still o') : Heeds kind time o [] o' := ⟨by rw [h.lock], by simp⟩

theorem saveToDb_unguarded (o : Order) {m : Message} (hm : m ∈ o.saveToDb L) : kind.guards m = false := by
  unfold Order.saveToDb at hm
  split at hm
  · rw [List.mem_singleton.mp hm]
    cases kind <;> rfl
  · cases hm

/-- A row follows what is told. -/
theorem Heeds.stored {told : List Message} {p : Order} (h : Heeds kind time o told p) (q : Order)
    (hq : q.lock = p.lock) : Heeds kind time o (told ++ q.saveToDb L) q where
  stays := by rw [hq, h.stays]
  late m hm hg := by
    rcases List.mem_append.mp hm with hm | hm
    · exact h.late m hm hg
    · rw [saveToDb_unguarded q hm] at hg
      cases hg

theorem updating_heeds (o : Order) (now : Int) (data : Fields) :
    Heeds kind time o (o.updating L now data).told (o.updating L now data).order := by
  have hu := update_still (L := L) o now data
  unfold Order.updating
  rcases hr : o.update L now data with ⟨_ | _ | _, o'⟩
  all_goals rw [hr] at hu
  · exact hu.heeds
  · exact hu.heeds
  · exact hu.heeds.stored _ rfl

theorem placing_heeds (o : Order) (brokerAttrs attribsToCopy : Option (List String)) (kwargs : Fields)
    (answer : Option String) :
    Heeds kind time o (o.placing L brokerAttrs attribsToCopy kwargs answer).told
      (o.placing L brokerAttrs attribsToCopy kwargs answer).order := by
  unfold Order.placing Order.execute
  cases o.isComplete with
  | error p => exact .idle o
  | ok complete =>
      by_cases hdone : complete = true ∨ o.orderId.isSome = true
      · simp only [bind, Except.bind, pure, Except.pure, Bool.or_eq_true, hdone, if_true]
        exact .idle o
      · simp only [bind, Except.bind, pure, Except.pure, Bool.or_eq_true, hdone, if_false]
        refine ⟨rfl, fun m hm hg => ?_⟩
        rcases List.mem_cons.mp hm with rfl | hm
        · cases kind <;> cases hg
        · rw [saveToDb_unguarded _ hm] at hg
          cases hg

theorem modifying_heeds (o : Order) (now : Int) (brokerAttrs attribsToCopy : Option (List String))
    (kwargs : Fields) :
    Heeds kind (some now) o (o.modifying L now brokerAttrs attribsToCopy kwargs).told
      (o.modifying L now brokerAttrs attribsToCopy kwargs).order := by
  unfold Order.modifying
  rcases modify_cases (L := L) o now brokerAttrs attribsToCopy kwargs with
    ⟨o₁, hs, h | h | ⟨p, h⟩⟩ | ⟨o₁, args, oid, hs, -, -, hopen, -, h⟩
  · rw [h]
    exact hs.heeds
  · rw [h]
    exact hs.heeds
  · rw [h]
    exact hs.heeds
  · rw [h]
    have hsent : Heeds kind (some now) o [.modify args] o₁ := by
      refine ⟨by rw [hs.lock], fun m hm hg => ⟨now, rfl, ?_⟩⟩
      obtain rfl := List.mem_singleton.mp hm
      cases kind with
      | modification => simpa [OrderLock.canModify, LockKind.till] using hopen
      | cancellation => cases hg
    exact hsent.stored _ rfl

theorem cancel_heeds (o : Order) (now : Int) (brokerAttrs attribsToCopy : Option (List String)) :
    Heeds kind (some now) o (o.cancel L now brokerAttrs attribsToCopy).told
      (o.cancel L now brokerAttrs attribsToCopy).order := by
  unfold Order.cancel
  split
  · exact .idle o
  · rename_i hopen
    cases o.orderId with
    | none => exact .idle o
    | some oid =>
        refine ⟨rfl, fun m hm hg => ⟨now, rfl, ?_⟩⟩
        obtain rfl := List.mem_singleton.mp hm
        cases kind with
        | modification => cases hg
        | cancellation => simpa [OrderLock.canCancel, LockKind.till] using hopen

theorem checkFlag_heeds (o : Order) (tick : Order.Tick) (brokerModify brokerCancel : Option (List String)) :
    Heeds kind (some tick.lock) o (o.checkFlag L tick brokerModify brokerCancel).told
      (o.checkFlag L tick brokerModify brokerCancel).order := by
  unfold Order.checkFlag
  split
  · exact .idle o
  · exact .idle o
  · split
    · have h : Heeds kind (some tick.lock) { o with orderType := "MARKET", price := none, triggerPrice := 0 }
          _ _ := modifying_heeds (L := L) _ tick.lock brokerModify none .empty
      exact ⟨h.stays, h.late⟩
    · split
      · exact cancel_heeds o tick.lock brokerCancel none
      · exact .idle o

theorem addLock_heeds (o : Order) (now : Int) {code : Int} (hcode : code ≠ kind.code) (seconds : ℚ) :
    Heeds kind time o [] (o.addLock now code seconds) := by
  refine ⟨?_, by simp⟩
  unfold Order.addLock
  cases kind with
  | modification =>
      have hone : ¬ code = 1 := hcode
      rw [if_neg hone]
      split <;> rfl
  | cancellation =>
      have htwo : ¬ code = 2 := hcode
      rw [if_neg htwo]
      split <;> rfl

theorem answer_heeds (o : Order) (c : PositionCall) (hc : c.relocks kind = false) :
    Heeds kind c.clock o (o.answer L c).told (o.answer L c).order := by
  cases c with
  | update now data => exact updating_heeds o now data
  | execute brokerAttrs attribsToCopy kwargs answer =>
      exact placing_heeds o brokerAttrs attribsToCopy kwargs answer
  | modify now brokerAttrs attribsToCopy kwargs => exact modifying_heeds o now _ _ kwargs
  | cancel now brokerAttrs attribsToCopy => exact cancel_heeds o now _ _
  | addLock now code seconds => exact addLock_heeds o now (by simpa [PositionCall.relocks] using hc) seconds
  | saveToDb => exact (Heeds.idle o).stored o rfl

/-! ## A call, and a run of calls -/

/-- What a call tells of the order at a place, where the call leaves its lock. -/
theorem heeds_rules (c : SessionCall) (i : Nat) (hc : c.relocks kind i = false) :
    Rules L (fun n o told o' => n = i → Heeds kind (c.clock i) o told o') c where
  idle _ o _ := .idle o
  saved _ o _ := (Heeds.idle o).stored o rfl
  answered n pc h o hn := by
    subst h hn
    simp only [SessionCall.relocks, decide_true, Bool.true_and] at hc
    simpa [SessionCall.clock] using answer_heeds o pc hc
  updated _ o now data _ := updating_heeds o now data
  placed _ o brokerAttrs kwargs answer _ := placing_heeds o brokerAttrs none kwargs answer
  flagged view clock h n o brokerModify brokerCancel hn := by
    subst h hn
    exact checkFlag_heeds o (clock n) brokerModify brokerCancel
  reset h := by
    subst h
    cases hc

theorem step_heeds (s : Session) {c : SessionCall} {i : Nat} (hc : c.relocks kind i = false)
    (hi : s.basket.orders[i]? = some o) :
    ∃ o', ((sessionMachine L).step s c).2.basket.orders[i]? = some o' ∧
      Heeds kind (c.clock i) o (toldOf i ((sessionMachine L).step s c).1.told) o' := by
  obtain ⟨o', ho', h⟩ := ((heeds_rules c i hc).step s).old i o hi
  exact ⟨o', ho', h rfl⟩

theorem run_stays (s : Session) {es : List SessionCall} {i : Nat} (hes : ∀ c ∈ es, c.relocks kind i = false)
    (hi : s.basket.orders[i]? = some o) :
    ∃ o', ((sessionMachine L).final s es).basket.orders[i]? = some o' ∧
      kind.till o'.lock = kind.till o.lock := by
  induction es generalizing s o with
  | nil => exact ⟨o, hi, rfl⟩
  | cons c es ih =>
      obtain ⟨o₁, h₁, hheeds⟩ := step_heeds (L := L) s (hes c (by simp)) hi
      obtain ⟨o', h', hstays⟩ := ih _ (fun c' hc' => hes c' (by simp [hc'])) h₁
      exact ⟨o', h', hstays.trans hheeds.stays⟩

theorem addLock_till (kind : LockKind) (o : Order) (now : Int) (seconds : ℚ) :
    kind.till (o.addLock now kind.code seconds).lock =
      now + OrderLock.secsDelta seconds (kind.cap o.lock) := by
  cases kind <;> rfl

/-- Once a lock was added to an order of a basket, and until one of this kind is added again or the
clock is changed, the broker hears what the lock guards only after its end, in any run of calls. -/
theorem lock_holds (L : Formats) (kind : LockKind) (s : Session) {i : Nat}
    (hi : s.basket.orders[i]? = some o) (t : Int) (seconds : ℚ) (es : List SessionCall)
    (hes : ∀ c ∈ es, c.relocks kind i = false) :
    let locked := ((sessionMachine L).step s (.position i (.addLock t kind.code seconds))).2
    ∀ pre c, pre ++ [c] <+: es →
      ∀ m, (i, m) ∈ ((sessionMachine L).step ((sessionMachine L).final locked pre) c).1.told →
        kind.guards m = true →
        ∃ now, c.clock i = some now ∧ t + OrderLock.secsDelta seconds (kind.cap o.lock) < now := by
  intro locked pre c hpre m hm hg
  have hlocked : locked.basket.orders[i]? = some (o.addLock t kind.code seconds) := by
    have hlt := (List.getElem?_eq_some_iff.mp hi).1
    simp only [locked, sessionMachine, Session.step, hi, Order.answer, Turn.idle]
    exact List.getElem?_set_self hlt
  have hmem : ∀ c' ∈ pre ++ [c], c'.relocks kind i = false := fun c' hc' => hes c' (hpre.subset hc')
  obtain ⟨o₁, h₁, hstays⟩ :=
    run_stays (L := L) locked (fun c' hc' => hmem c' (List.mem_append_left _ hc')) hlocked
  obtain ⟨o₂, -, hheeds⟩ := step_heeds (L := L) _ (hmem c (by simp)) h₁
  obtain ⟨now, hclock, hlate⟩ := hheeds.late m (mem_toldOf.mpr hm) hg
  refine ⟨now, hclock, ?_⟩
  rw [← addLock_till kind o t seconds, ← hstays]
  exact hlate

/-! ## A sample -/

namespace Sample

/-- An order of a basket with a broker, known to it as `7`. -/
def knownOrder : Order :=
  ({ symbol := "x", side := "buy", quantity := 5, id := some "a", orderId := some "7",
     expiresIn := some 60 } : OrderInit).build 0 "f" 60

def knownSession : Session := ⟨{ CompoundOrder.new "b" with orders := [knownOrder] }, true, .empty⟩

/-- Two cancellations, two and a half and seven seconds after the lock was added. -/
def cancelledTwice : List SessionCall :=
  [.position 0 (.cancel 2500000000 none none), .position 0 (.cancel 7000000000 none none)]

end Sample

open Sample in
/-- A lock of four and a half seconds lets the second one through. -/
theorem lock_holds_once :
    let locked := ((sessionMachine plain).step knownSession (.position 0 (.addLock 0 2 (9 / 2)))).2
    (∀ pre c, pre ++ [c] <+: cancelledTwice →
      ∀ m, (0, m) ∈ ((sessionMachine plain).step ((sessionMachine plain).final locked pre) c).1.told →
        LockKind.cancellation.guards m = true →
        ∃ now, c.clock 0 = some now ∧
          0 + OrderLock.secsDelta (9 / 2) (LockKind.cancellation.cap knownOrder.lock) < now) ∧
      0 + OrderLock.secsDelta (9 / 2) (LockKind.cancellation.cap knownOrder.lock) = 4000000000 := by
  refine ⟨lock_holds plain .cancellation knownSession (o := knownOrder) rfl 0 (9 / 2) cancelledTwice ?_,
    by decide +kernel⟩
  simp [cancelledTwice, SessionCall.relocks, PositionCall.relocks]

end Omsrs.Basket
