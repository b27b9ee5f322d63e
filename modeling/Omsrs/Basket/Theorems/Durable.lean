import Omsrs.Basket.Lemmas.Session
import Omsrs.Basket.Theorems.Persist

/-!
# Orders that outlive a session

An order that the broker took is in the database from then on, with the id that the broker gave it. What
is loaded from there is not placed again.
-/

namespace Omsrs.Basket
open Omsrs.Lib

variable {L : Formats} {own : Prop} {o o' : Order} {handle : Nat} {k oid : String}

/-! ## Tables -/

/-- What a message makes of a database. -/
def receive (L : Formats) (handle : Nat) (db : Table) (e : Nat × Message) : Table :=
  match e.2 with
  | .save n row => if n = handle then upsert L db row else db
  | _ => db

/-- What all messages make of it. -/
def database (L : Formats) (handle : Nat) (db : Table) (log : List (Nat × Message)) : Table :=
  log.foldl (receive L handle) db

/-- The id under which a row is stored. -/
def storedId (L : Formats) (row : OrdMap String Value) : Option String :=
  Row.text ((loadRow (storedRow L row)).get? "id")

theorem storedId_toRow (o : Order) : storedId L (o.toRow L) = o.id := text_column rfl rfl

/-- A row takes the place of those with its id, and leaves the others. -/
theorem rowsOf_receive (db : Table) (row : OrdMap String Value) :
    rowsOf (some k) (queryAll (upsert L db row)) =
      if storedId L row = some k then [loadRow (storedRow L row)]
      else rowsOf (some k) (queryAll db) := by
  unfold rowsOf queryAll upsert
  rw [List.map_append, List.filter_append]
  split
  · rename_i hid
    have hstored : (storedRow L row).get? "id" = some (.text k) := loadRow_text hid
    rw [List.filter_eq_nil_iff.mpr, List.nil_append]
    · exact List.filter_cons_of_pos (decide_eq_true hid)
    · intro r' hr'
      obtain ⟨r, hr, rfl⟩ := List.mem_map.mp hr'
      intro htext
      have hkey := (List.mem_filter.mp hr).2
      unfold sameKey at hkey
      rw [loadRow_text (of_decide_eq_true htext), hstored] at hkey
      simp at hkey
  · rename_i hid
    have hnew : List.filter (fun r : OrdMap String Value => decide (Row.text (r.get? "id") = some k))
        [loadRow (storedRow L row)] = [] :=
      List.filter_cons_of_neg (by simpa [storedId] using hid)
    rw [List.map_singleton, hnew, List.append_nil, List.filter_map, List.filter_map, List.filter_filter]
    refine congrArg _ (List.filter_congr fun r _ => ?_)
    simp only [Function.comp_apply]
    cases hr : decide (Row.text ((loadRow r).get? "id") = some k) with
    | false => rfl
    | true =>
        have hget := loadRow_text (of_decide_eq_true hr)
        have hne : ¬ (storedRow L row).get? "id" = some (.text k) := by
          intro hsame
          apply hid
          unfold storedId loadRow
          rw [OrdMap.get?_insertAll_map, hsame]
          rfl
        unfold sameKey
        rw [hget]
        cases hs : (storedRow L row).get? "id" with
        | none => rfl
        | some v =>
            have : SqlValue.text k ≠ v := fun h => hne (h ▸ hs)
            simp [this]

/-- Messages that store nothing under an id leave the rows of this id. -/
theorem rowsOf_database {log : List (Nat × Message)} (db : Table)
    (h : ∀ j row, (j, Message.save handle row) ∈ log → storedId L row ≠ some k) :
    rowsOf (some k) (queryAll (database L handle db log)) = rowsOf (some k) (queryAll db) := by
  induction log generalizing db with
  | nil => rfl
  | cons e log ih =>
      obtain ⟨j, m⟩ := e
      refine (ih _ fun j row hm => h j row (List.mem_cons_of_mem _ hm)).trans ?_
      cases m with
      | save n row =>
          unfold receive
          by_cases ht : n = handle
          · subst ht
            dsimp only
            rw [if_pos rfl, rowsOf_receive, if_neg (h j row (by simp))]
          · simp [ht]
      | _ => rfl

/-! ## The last save of an order -/

def Message.isSave : Message → Bool
  | .save .. => true
  | _ => false

/-- The last row saved of an order is one of it, with the id that the broker gave. -/
def LastSaved (L : Formats) (handle : Nat) (o : Order) (oid : String) (told : List Message) : Prop :=
  ∃ (p : Order) (pre post : List Message), told = pre ++ .save handle (p.toRow L) :: post ∧
    (∀ m ∈ post, m.isSave = false) ∧ p.id = o.id ∧ p.orderId = some oid

theorem LastSaved.append {told fx : List Message} (h : LastSaved L handle o oid told)
    (hfx : ∀ m ∈ fx, m.isSave = false) : LastSaved L handle o oid (told ++ fx) := by
  obtain ⟨p, pre, post, rfl, hpost, hp⟩ := h
  refine ⟨p, pre, post ++ fx, by simp, fun m hm => ?_, hp⟩
  rcases List.mem_append.mp hm with hm | hm
  · exact hpost m hm
  · exact hfx m hm

theorem LastSaved.here {told : List Message} {p : Order} (hc : p.connection = some handle)
    (hid : p.id = o.id) (hoid : p.orderId = some oid) (ms : List Message) :
    LastSaved L handle o oid (told ++ (ms ++ p.saveToDb L)) := by
  refine ⟨p, told ++ ms, [], ?_, by simp, hid, hoid⟩
  simp [Order.saveToDb, hc]

/-- How a course stands with the database: the rows are of this order, and if the broker took it, the
last one says so. -/
structure Recorded (L : Formats) (handle : Nat) (o : Order) (oid : String) (told : List Message)
    (o' : Order) : Prop where
  id : o'.id = o.id
  connection : o'.connection = o.connection
  rows : ∀ n row, .save n row ∈ told → o.connection = some n ∧ storedId L row = o.id
  taken : (∃ args, .place args (some oid) ∈ told) → o.connection = some handle →
    o'.orderId = some oid ∧ LastSaved L handle o oid told

theorem saveToDb_rows {p : Order} (hid : p.id = o.id) (hc : p.connection = o.connection) {n : Nat}
    {row : OrdMap String Value} (h : Message.save n row ∈ p.saveToDb L) :
    o.connection = some n ∧ storedId L row = o.id := by
  unfold Order.saveToDb at h
  split at h
  · rename_i handle hp
    cases List.mem_singleton.mp h
    exact ⟨hc ▸ hp, (storedId_toRow p).trans hid⟩
  · cases h

theorem saveToDb_place {p : Order} {args : OrdMap String Value} {answer : Option String} :
    Message.place args answer ∉ p.saveToDb L := by
  unfold Order.saveToDb
  split <;> simp

/-- One message that is no placement, and the row of the order after it. -/
theorem Recorded.sent {told ms : List Message} {p q : Order} (h : Recorded L handle o oid told p)
    (hid : q.id = p.id) (hc : q.connection = p.connection) (hoid : q.orderId = p.orderId)
    (hms : ∀ m ∈ ms, m.isSave = false ∧ ∀ args, m ≠ .place args (some oid)) :
    Recorded L handle o oid (told ++ (ms ++ q.saveToDb L)) q := by
  refine ⟨hid.trans h.id, hc.trans h.connection, fun n row hm => ?_, fun ht hto => ?_⟩
  · rcases List.mem_append.mp hm with hm | hm
    · exact h.rows n row hm
    · rcases List.mem_append.mp hm with hm | hm
      · have := (hms _ hm).1
        cases this
      · exact saveToDb_rows (hid.trans h.id) (hc.trans h.connection) hm
  · obtain ⟨args, hm⟩ := ht
    have hold : Message.place args (some oid) ∈ told := by
      rcases List.mem_append.mp hm with hm | hm
      · exact hm
      · rcases List.mem_append.mp hm with hm | hm
        · exact absurd rfl ((hms _ hm).2 args)
        · exact absurd hm saveToDb_place
    have hp := (h.taken ⟨args, hold⟩ hto).1
    exact ⟨hoid.trans hp, .here ((hc.trans h.connection).trans hto) (hid.trans h.id) (hoid.trans hp) ms⟩

theorem Moved.recorded {told fx : List Message} {p : Order} (h : Recorded L handle o oid told p)
    (hm : Moved L own p fx o') : Recorded L handle o oid (told ++ fx) o' := by
  cases hm with
  | written hs =>
      rw [List.append_nil]
      exact ⟨hs.id.trans h.id, hs.connection.trans h.connection, h.rows, fun ht hto =>
        ⟨hs.orderId.trans (h.taken ht hto).1, (h.taken ht hto).2⟩⟩
  | relocked l =>
      rw [List.append_nil]
      exact ⟨h.id, h.connection, h.rows, h.taken⟩
  | placed args answer hid =>
      refine ⟨h.id, h.connection, fun n row hm => ?_, fun ht hto => ?_⟩
      · rcases List.mem_append.mp hm with hm | hm
        · exact h.rows n row hm
        · rcases List.mem_cons.mp hm with hm | hm
          · cases hm
          · exact saveToDb_rows (p := { p with orderId := answer }) h.id h.connection hm
      · obtain ⟨args', hm⟩ := ht
        rcases List.mem_append.mp hm with hm | hm
        · have := (h.taken ⟨args', hm⟩ hto).1
          rw [hid] at this
          cases this
        · rcases List.mem_cons.mp hm with hm | hm
          · cases hm
            exact ⟨rfl, .here (p := { p with orderId := some oid }) (h.connection.trans hto) h.id rfl
              [.place args (some oid)]⟩
          · exact absurd hm saveToDb_place
  | modified args hid hlt hown =>
      have hone : ∀ m ∈ [Message.modify args], m.isSave = false ∧ ∀ args, m ≠ .place args (some oid) := by
        simp [Message.isSave]
      exact h.sent (q := { p with numModifications := p.numModifications + 1 }) rfl rfl rfl hone
  | cancelled args hid hargs =>
      refine ⟨h.id, h.connection, fun n row hm => h.rows n row (by simpa using hm), fun ht hto => ?_⟩
      have hkept := h.taken (by simpa using ht) hto
      exact ⟨hkept.1, hkept.2.append (by simp [Message.isSave])⟩
  | saved =>
      have hnone : ∀ m ∈ ([] : List Message), m.isSave = false ∧ ∀ args, m ≠ .place args (some oid) := by
        simp
      exact h.sent rfl rfl rfl hnone

theorem Course.recorded {told : List Message} (handle : Nat) (oid : String) (h : Course L own o told o') :
    Recorded L handle o oid told o' := by
  have := Trail.preserves (I := Recorded L handle o oid) (l := []) (fun h hm => hm.recorded h) h
    ⟨rfl, rfl, by simp, by simp⟩
  simpa using this

/-- A message about a position has its place in the whole log. -/
theorem toldOf_split {i : Nat} {log : List (Nat × Message)} {pre post : List Message} {m : Message}
    (h : toldOf i log = pre ++ m :: post) :
    ∃ before after, log = before ++ (i, m) :: after ∧ toldOf i after = post := by
  obtain ⟨before, rest, rfl, -, hrest⟩ := List.filterMap_eq_append_iff.mp h
  obtain ⟨skip, ⟨j, m'⟩, after, rfl, -, hm, hafter⟩ := List.filterMap_eq_cons_iff.mp hrest
  by_cases hj : j = i
  · subst hj
    simp only [if_true, Option.some.injEq] at hm
    subst hm
    exact ⟨before ++ skip, after, by simp, hafter⟩
  · simp [hj] at hm

/-! ## The theorem -/

/-- A row with a broker's id gives an order that is not placed again. -/
theorem reloaded_stays {row : OrdMap String Value} (hid : Row.text (row.get? "id") = some k)
    (hoid : Row.text (row.get? "order_id") = some oid) {now : Int} {freshId : String} {q : Order}
    (h : Order.fromRow L row now freshId = .ok q) :
    q.id = some k ∧ q.orderId = some oid ∧ ∀ brokerAttrs attribsToCopy kwargs answer,
      (q.placing L brokerAttrs attribsToCopy kwargs answer).told = [] := by
  unfold Order.fromRow Order.fromInit at h
  have hbuilt : ∃ e, q = (OrderInit.fromRow L row).build now freshId e := by
    by_cases hq : (OrderInit.fromRow L row).quantity < 0
    · simp only [hq, if_true] at h
      cases h
    · simp only [hq, if_false] at h
      cases he : (OrderInit.fromRow L row).expiry now with
      | error p =>
          rw [he] at h
          cases h
      | ok e =>
          rw [he] at h
          cases h
          exact ⟨e, rfl⟩
  obtain ⟨e, rfl⟩ := hbuilt
  have hq : ((OrderInit.fromRow L row).build now freshId e).orderId = some oid := hoid
  refine ⟨?_, hq, fun brokerAttrs attribsToCopy kwargs answer => ?_⟩
  · simp [OrderInit.build, OrderInit.fromRow, hid]
  · unfold Order.placing Order.execute
    cases ((OrderInit.fromRow L row).build now freshId e).isComplete with
    | error p => rfl
    | ok complete =>
        simp only [bind, Except.bind, hq, Option.isSome_some, Bool.or_true, if_true, pure, Except.pure]
        rfl

/-- Over every run of calls on a basket: an order with an id of its own in a database, which takes what it
is sent, is there in one row once the broker took it, whatever was there before, and the order that this
row gives back has its ids and is not placed again. -/
theorem accepted_order_is_stored (L : Formats) (s : Session) (es : List SessionCall) (db : Table)
    {i : Nat} (hi : ((sessionMachine L).final s es).basket.orders[i]? = some o)
    (hc : o.connection = some handle) (hid : o.id = some k)
    (halone : ∀ (j : Nat) p, ((sessionMachine L).final s es).basket.orders[j]? = some p →
      p.connection = some handle → p.id = some k → j = i)
    (htaken : ∃ args, .place args (some oid) ∈ toldOf i (sessionLog L s es)) :
    ∃ row, rowsOf (some k) (queryAll (database L handle db (sessionLog L s es))) = [row] ∧
      ∀ now freshId q, Order.fromRow L row now freshId = .ok q →
        q.id = some k ∧ q.orderId = some oid ∧ ∀ brokerAttrs attribsToCopy kwargs answer,
          (q.placing L brokerAttrs attribsToCopy kwargs answer).told = [] := by
  obtain ⟨hwithin, htravelled⟩ := run_carried (L := L) s (fun (c : SessionCall) _ (h : False) => h.elim)
  have hrecorded : ∀ {j : Nat} {p : Order},
      ((sessionMachine L).final s es).basket.orders[j]? = some p →
      ∃ p₀, Recorded L handle p₀ oid (toldOf j (sessionLog L s es)) p := by
    intro j p hp
    obtain ⟨p₀, -, hcourse⟩ := htravelled j p hp
    exact ⟨p₀, hcourse.recorded handle oid⟩
  obtain ⟨o₀, h⟩ := hrecorded hi
  obtain ⟨p, pre, post, htold, hpost, hpid, hpoid⟩ := (h.taken htaken (h.connection ▸ hc)).2
  obtain ⟨before, after, hlog, hafter⟩ := toldOf_split htold
  refine ⟨p.savedRow L, ?_, fun now freshId q hq => ?_⟩
  · rw [hlog, database, List.foldl_append, List.foldl_cons]
    refine (rowsOf_database _ fun j row hm hrow => ?_).trans ?_
    · -- a later save under this id would be one of this order
      have hmem : (j, Message.save handle row) ∈ sessionLog L s es := by
        rw [hlog]
        simp [hm]
      have hj := List.getElem?_eq_getElem (hwithin _ hmem)
      obtain ⟨p₀, h₁⟩ := hrecorded hj
      obtain ⟨hconn, hrow₁⟩ := h₁.rows handle row (mem_toldOf.mpr hmem)
      obtain rfl : j = i := halone j _ hj (h₁.connection.trans hconn)
        (h₁.id.trans (hrow₁.symm.trans hrow))
      have := hpost _ (hafter ▸ mem_toldOf.mpr hm)
      cases this
    · unfold receive
      simp only [if_true]
      rw [rowsOf_receive, if_pos ((storedId_toRow p).trans (hpid.trans (h.id.symm.trans hid)))]
      rfl
  · refine reloaded_stays ((text_column rfl rfl).trans ?_) ((text_column rfl rfl).trans hpoid) hq
    exact hpid.trans (h.id.symm.trans hid)

/-! ## A sample -/

namespace Sample

/-- A basket with a database, before any order. -/
def deskSession : Session := ⟨{ CompoundOrder.new "b" with connection := some 0 }, true, .empty⟩

/-- A broker that gives every placement one id. -/
def givingView (oid : String) : BrokerView := ⟨fun _ => none, fun _ => none, fun _ => none, fun _ => some oid⟩

/-- An order comes in, and all orders are placed, twice. -/
def placedOnce : List SessionCall :=
  [.basket (.addOrder { symbol := "x", side := "buy", quantity := 5, id := some "a", expiresIn := some 60 }
      none none 0 "f"), .executeAll (givingView "7") .empty, .executeAll (givingView "8") .empty]

end Sample

open Sample in
theorem accepted_order_is_stored_once :
    ∃ row, rowsOf (some "a") (queryAll (database plain 0 [] (sessionLog plain deskSession placedOnce))) =
        [row] ∧
      ∀ now freshId q, Order.fromRow plain row now freshId = .ok q →
        q.id = some "a" ∧ q.orderId = some "7" ∧ ∀ brokerAttrs attribsToCopy kwargs answer,
          (q.placing plain brokerAttrs attribsToCopy kwargs answer).told = [] := by
  refine accepted_order_is_stored plain deskSession placedOnce [] (i := 0) rfl rfl rfl ?_ ?_
  · intro j p hj _ _
    have hlen : ((sessionMachine plain).final deskSession placedOnce).basket.orders.length = 1 := rfl
    have := (List.getElem?_eq_some_iff.mp hj).1
    omega
  · exact ⟨_, List.mem_of_getElem? (i := 1) rfl⟩

end Omsrs.Basket
