import Omsrs.Basket.Lemmas.Formats
import Omsrs.Basket.Persist
import Omsrs.Basket.Theorems.Modify
import Omsrs.Basket.Theorems.Quantities

/-!
# A saved order loads back

What of an order comes through its row, the types of its columns and the loader, and when that is all
of it.
-/

namespace Omsrs.Basket
open Omsrs.Lib

variable {L : Formats} {o o' : Order}

/-! ## Numbers of orders -/

/-- The numbers of an order are numbers of the source, and it has an id and a time. -/
structure Order.Sized (o : Order) : Prop where
  quantity : InI64 o.quantity
  filledQuantity : InI64 o.filledQuantity
  cancelledQuantity : InI64 o.cancelledQuantity
  disclosedQuantity : InI64 o.disclosedQuantity
  expiresIn : InI64 o.expiresIn
  retries : InI64 o.retries
  maxModifications : InI64 o.maxModifications
  id : o.id.isSome
  timestamp : o.timestamp.isSome

/-- The numbers of a new order are numbers of the source. -/
structure OrderInit.Sized (init : OrderInit) : Prop where
  quantity : InI64 init.quantity
  filledQuantity : InI64 (init.filledQuantity.getD 0)
  cancelledQuantity : InI64 (init.cancelledQuantity.getD 0)
  disclosedQuantity : InI64 (init.disclosedQuantity.getD 0)
  retries : InI64 (init.retries.getD 0)
  maxModifications : InI64 (init.maxModifications.getD 10)

theorem checkedI64_range {n m : Int} (h : checkedI64 n = .ok m) : InI64 m := by
  unfold checkedI64 at h
  split at h
  · cases h
    assumption
  · cases h

theorem checkedI64_eq {n m : Int} (h : checkedI64 n = .ok m) : n = m := by
  unfold checkedI64 at h
  split at h
  · exact Except.ok.inj h
  · cases h

theorem secondsToEndOfDay_range (now : Int) : InI64 (secondsToEndOfDay now) := by
  unfold secondsToEndOfDay InI64
  dsimp only
  generalize hx : now / (86400 * 10 ^ 9) * (86400 * 10 ^ 9) + 86399 * 10 ^ 9 - now = x
  have hle : x ≤ 86399 * 10 ^ 9 := by omega
  by_cases h0 : 0 ≤ x
  · rw [Int.tdiv_eq_ediv_of_nonneg h0]
    omega
  · have hneg : 0 ≤ (-x).tdiv (10 ^ 9) := Int.tdiv_nonneg (by omega) (by omega)
    rw [Int.neg_tdiv] at hneg
    omega

theorem expiry_range {init : OrderInit} {now e : Int} (h : init.expiry now = .ok e) : InI64 e := by
  unfold OrderInit.expiry at h
  split at h
  · cases h
    exact secondsToEndOfDay_range now
  · cases h
    exact secondsToEndOfDay_range now
  · exact checkedI64_range h

theorem fromInit_sized {init : OrderInit} (hi : init.Sized) {now : Int} {freshId : String}
    (h : Order.fromInit init now freshId = .ok o) : o.Sized := by
  obtain ⟨-, e, he, rfl⟩ := fromInit_ok.mp h
  exact ⟨hi.quantity, hi.filledQuantity, hi.cancelledQuantity, hi.disclosedQuantity, expiry_range he,
    hi.retries, hi.maxModifications, rfl, rfl⟩

theorem setFilled_sized (hs : o.Sized) {n : Int} (h : o.setFilled n = .ok o') : o'.Sized := by
  unfold Order.setFilled clampI64 at h
  by_cases hc : o.quantity < o.filledQuantity
  · rw [if_pos hc] at h
    cases h
  · rw [if_neg hc] at h
    simp only [Except.map, Except.ok.injEq] at h
    split at h
    · subst h
      have h₁ := hs.filledQuantity
      have h₂ := hs.quantity
      refine { hs with filledQuantity := ?_ }
      unfold InI64 at h₁ h₂ ⊢
      dsimp only
      omega
    · subst h
      exact hs

/-- A write of a value that is read, if it is there. -/
theorem written_sized (hs : o.Sized) {α : Type} {x : Option α} {f : α → Order}
    (h : (Except.ok ((x.map f).getD o) : Except Panic Order) = .ok o')
    (hf : ∀ a, x = some a → (f a).Sized) : o'.Sized := by
  cases h
  cases x with
  | none => exact hs
  | some a => exact hf a rfl

theorem setFromValue_sized (hs : o.Sized) {key : String} {v : Value}
    (h : o.setFromValue L key v = .ok o') : o'.Sized := by
  unfold Order.setFromValue at h
  split at h
  · exact written_sized hs h fun _ _ => { hs with }
  · exact written_sized hs h fun _ _ => { hs with }
  · exact written_sized hs h fun _ _ => { hs with }
  · split at h
    · exact setFilled_sized hs h
    · cases h
      exact hs
  · exact written_sized hs h fun _ _ => { hs with }
  · exact written_sized hs h fun n hn => { hs with disclosedQuantity := Value.asI64_range hn }
  · exact written_sized hs h fun _ _ => { hs with }
  · cases h
    exact hs

theorem setLocalField_sized (hs : o.Sized) {key : String} {v : Value}
    (h : o.setLocalField L key v = .ok o') : o'.Sized := by
  unfold Order.setLocalField at h
  split at h
  · exact written_sized hs h fun n hn => { hs with quantity := Value.asI64_range hn }
  · cases h
    exact { hs with }
  · exact written_sized hs h fun _ _ => { hs with }
  · exact written_sized hs h fun _ _ => { hs with }
  · exact written_sized hs h fun n hn => { hs with disclosedQuantity := Value.asI64_range hn }
  · exact written_sized hs h fun _ _ => { hs with }
  · exact written_sized hs h fun _ _ => { hs with }
  · exact written_sized hs h fun _ _ => { hs with }
  · exact written_sized hs h fun _ _ => { hs with }
  · exact written_sized hs h fun _ _ => { hs with }
  · split at h
    · exact setFilled_sized hs h
    · cases h
      exact hs
  · exact written_sized hs h fun _ _ => { hs with }
  · exact written_sized hs h fun n hn => { hs with cancelledQuantity := Value.asI64_range hn }
  · exact written_sized hs h fun _ _ => { hs with }
  · exact written_sized hs h fun n hn => { hs with expiresIn := Value.asI64_range hn }
  · cases h
    exact hs

theorem updateAttr_sized (hs : o.Sized) {data : Fields} {key : String}
    (h : Order.updateAttr L data o key = .ok o') : o'.Sized := by
  unfold Order.updateAttr at h
  split at h
  · split at h
    · cases h
      exact hs
    · exact setFromValue_sized hs h
  · cases h
    exact hs

theorem update_sized (hs : o.Sized) (now : Int) (data : Fields) : (o.update L now data).2.Sized :=
  update_relates (R := fun o o' => o.Sized → o'.Sized) (fun _ h => h) (fun h h' hs => h' (h hs))
    (fun h hs => updateAttr_sized hs h) (fun _ _ _ hs => { hs with }) o now data hs

theorem modify_sized (hs : o.Sized) (now : Int) (brokerAttrs attribsToCopy : Option (List String))
    (kwargs : Fields) : (o.modify L now brokerAttrs attribsToCopy kwargs).2.Sized := by
  have hw : (Order.writeLocal L o [] kwargs.entries).2.1.Sized :=
    walk_relates (R := fun o o' => o.Sized → o'.Sized) (fun _ h => h) (fun h h' hs => h' (h hs))
      (fun _ h hs => setLocalField_sized hs h) o [] hs
  unfold Order.modify
  split
  · exact hs
  · dsimp only
    revert hw
    rcases Order.writeLocal L o [] kwargs.entries with ⟨p, o₁, added⟩
    intro hw
    cases p with
    | some p => exact hw
    | none =>
        dsimp only
        split
        · split
          · exact hw
          · exact { hw with }
        · exact hw

theorem live_sized (hs : o.Sized) (c : LifeCall) : ((lifeMachine L).step o c).2.Sized := by
  cases c with
  | call c =>
      cases c with
      | update now data =>
          show (Order.live L o (.call (.update now data))).2.Sized
          have hu := update_sized (L := L) hs now data
          simp only [Order.live, Order.step]
          rcases hr : o.update L now data with ⟨_ | applied, o₁⟩
          all_goals
            rw [hr] at hu
            exact hu
      | modify now brokerAttrs attribsToCopy kwargs =>
          exact modify_sized hs now brokerAttrs attribsToCopy kwargs
      | addLock now code seconds =>
          obtain ⟨l, hl⟩ := addLock_lock o now code seconds
          show (o.addLock now code seconds).Sized
          rw [hl]
          exact { hs with }
  | execute brokerAttrs attribsToCopy kwargs answer =>
      show (Order.live L o (.execute brokerAttrs attribsToCopy kwargs answer)).2.Sized
      simp only [Order.live, Order.execute]
      cases hc : o.isComplete with
      | error p => exact hs
      | ok c =>
          simp only [bind, Except.bind]
          split <;> rename_i heq <;> split at heq <;> cases heq
          · exact hs
          · exact { hs with }

/-! ## Columns -/

/-- What a column of a type brings back of a value. -/
def ColumnType.carry (L : Formats) (t : ColumnType) (v : Option Value) : Value :=
  sqlToJson (match v with
    | some v => t.keep L (jsonToSql L v)
    | none => .null)

/-- The row of an order as it comes back. -/
def Order.savedRow (L : Formats) (o : Order) : OrdMap String Value := loadRow (storedRow L (o.toRow L))

theorem mem_of_lookup {β : Type} {l : List (String × β)} {key : String} {v : β}
    (h : l.lookup key = some v) : (key, v) ∈ l := by
  obtain ⟨l₁, l₂, rfl, -⟩ := List.lookup_eq_some_iff.mp h
  simp

theorem toRow_get {c : String} {v : Option Value} (h : (o.columns L).lookup c = some v) :
    (o.toRow L).get? c = v :=
  OrdMap.get?_insertAll_present (by simp [Order.columns]) (mem_of_lookup h)

theorem storedRow_get {row : OrdMap String Value} {c : String} {t : ColumnType}
    (h : schema.lookup c = some t) :
    (storedRow L row).get? c = some (match row.get? c with
      | some v => t.keep L (jsonToSql L v)
      | none => .null) := by
  refine OrdMap.get?_insertAll_of_nodup ?_ (List.mem_map.mpr ⟨(c, t), mem_of_lookup h, rfl⟩)
  rw [List.map_map]
  exact (by decide : (schema.map Prod.fst).Nodup)

theorem savedRow_get {c : String} {t : ColumnType} {v : Option Value} (ht : schema.lookup c = some t)
    (hv : (o.columns L).lookup c = some v) : (o.savedRow L).get? c = some (t.carry L v) := by
  unfold Order.savedRow loadRow
  rw [OrdMap.get?_insertAll_map, storedRow_get ht, toRow_get hv]
  rfl

/-! ## What the loader reads -/

/-- A time read back from its text. -/
def Formats.rereadTime (L : Formats) (t : Option Int) : Option Int :=
  t.bind fun t => L.timeOfText (L.timeText t)

/-- A price read back from its float. -/
def Formats.rereadPrice (L : Formats) (p : Option ℚ) : Option ℚ :=
  p.bind fun p => L.decimalOfFloat (L.decimalFloat p)

/-- A text read back from a column without a text type. -/
def Formats.rereadName (L : Formats) (s : Option String) : Option String :=
  s.filter fun s => (L.numberOfText s).isNone

/-- An object read back from its text. -/
def Formats.rereadObject (L : Formats) (m : Option Fields) : Option Fields :=
  m.bind fun m => L.objectOfText (L.valueText (.object m.entries))

theorem text_column {c : String} {s : Option String} (ht : schema.lookup c = some .text)
    (hv : (o.columns L).lookup c = some (s.map .string)) : Row.text ((o.savedRow L).get? c) = s := by
  rw [savedRow_get ht hv]
  cases s <;> rfl

theorem name_column {c : String} {s : Option String} (ht : schema.lookup c = some .string)
    (hv : (o.columns L).lookup c = some (s.map .string)) :
    Row.text ((o.savedRow L).get? c) = L.rereadName s := by
  rw [savedRow_get ht hv]
  cases s with
  | none => rfl
  | some s =>
      simp only [ColumnType.carry, Option.map_some, jsonToSql, ColumnType.keep, Formats.rereadName,
        Option.filter_some]
      cases L.numberOfText s with
      | none => rfl
      | some n => cases n <;> rfl

theorem time_column {c : String} {t : Option Int} (ht : schema.lookup c = some .text)
    (hv : (o.columns L).lookup c = some (t.map fun t => .string (L.timeText t))) :
    Row.time L ((o.savedRow L).get? c) = L.rereadTime t := by
  rw [savedRow_get ht hv]
  cases t <;> rfl

theorem integer_column {c : String} {n : Int} (ht : schema.lookup c = some .integer)
    (hv : (o.columns L).lookup c = some (some (.int n))) (hn : InI64 n) :
    Row.integer ((o.savedRow L).get? c) = some n := by
  have hi : (Value.int n).asI64 = some n := if_pos hn
  have hsql : jsonToSql L (.int n) = .integer n := by
    unfold jsonToSql Value.int
    dsimp only
    rw [show (Value.number (.int n)).asI64 = some n from hi]
  rw [savedRow_get ht hv]
  simp only [ColumnType.carry, hsql]
  exact hi

theorem decimal_column {c : String} {p : Option ℚ} (ht : schema.lookup c = some .real)
    (hv : (o.columns L).lookup c = some (p.map (decimalPersistenceValue L))) :
    Row.decimal L ((o.savedRow L).get? c) = L.rereadPrice p := by
  rw [savedRow_get ht hv]
  cases p <;> rfl

/-- Flags come back from columns of numbers and of texts alike. -/
theorem flag_column {c : String} {t : ColumnType} {b : Bool} (ht : schema.lookup c = some t)
    (hv : (o.columns L).lookup c = some (some (.bool b))) (h : t = .integer ∨ t = .text) :
    Row.flag ((o.savedRow L).get? c) = some b := by
  rw [savedRow_get ht hv]
  rcases h with rfl | rfl
  · cases b <;> rfl
  · cases b <;> rfl

theorem json_column {c : String} {m : Option Fields} (ht : schema.lookup c = some .text)
    (hv : (o.columns L).lookup c = some (m.map fun m => .object m.entries)) :
    Row.jsonMap L ((o.savedRow L).get? c) = L.rereadObject m := by
  rw [savedRow_get ht hv]
  cases m <;> rfl

/-- The fields of a new order as the saved row of an order gives them. -/
def Order.reread (L : Formats) (o : Order) : OrderInit where
  symbol := o.symbol
  side := o.side
  quantity := o.quantity
  id := o.id
  parentId := o.parentId
  timestamp := L.rereadTime o.timestamp
  orderType := some o.orderType
  brokerTimestamp := L.rereadTime o.brokerTimestamp
  exchangeTimestamp := L.rereadTime o.exchangeTimestamp
  orderId := o.orderId
  exchangeOrderId := o.exchangeOrderId
  price := L.rereadPrice o.price
  triggerPrice := L.rereadPrice (some o.triggerPrice)
  averagePrice := L.rereadPrice (some o.averagePrice)
  pendingQuantity := Row.integer ((o.savedRow L).get? "pending_quantity")
  filledQuantity := some o.filledQuantity
  cancelledQuantity := some o.cancelledQuantity
  disclosedQuantity := some o.disclosedQuantity
  validity := some o.validity
  status := o.status
  expiresIn := some o.expiresIn
  timezone := some o.timezone
  clientId := o.clientId
  convertToMarketAfterExpiry := some o.convertToMarketAfterExpiry
  cancelAfterExpiry := some o.cancelAfterExpiry
  retries := some o.retries
  maxModifications := some o.maxModifications
  exchange := o.exchange
  tag := L.rereadName o.tag
  canPeg := some o.canPeg
  pseudoId := L.rereadName o.pseudoId
  strategyId := L.rereadName o.strategyId
  portfolioId := L.rereadName o.portfolioId
  json := L.rereadObject o.json
  error := o.error
  isMulti := some o.isMulti
  lastUpdatedAt := L.rereadTime o.lastUpdatedAt

theorem fromRow_savedRow (hs : o.Sized) : OrderInit.fromRow L (o.savedRow L) = o.reread L := by
  have text : ∀ c (s : Option String), schema.lookup c = some .text →
      (o.columns L).lookup c = some (s.map .string) → Row.text ((o.savedRow L).get? c) = s :=
    fun _ _ => text_column
  have integer : ∀ c n, schema.lookup c = some .integer → (o.columns L).lookup c = some (some (.int n)) →
      InI64 n → Row.integer ((o.savedRow L).get? c) = some n := fun _ _ => integer_column
  unfold OrderInit.fromRow Order.reread
  rw [text "symbol" (some o.symbol) rfl rfl, text "side" (some o.side) rfl rfl,
    integer "quantity" o.quantity rfl rfl hs.quantity, text "id" o.id rfl rfl,
    text "parent_id" o.parentId rfl rfl, time_column (t := o.timestamp) rfl rfl,
    text "order_type" (some o.orderType) rfl rfl, time_column (t := o.brokerTimestamp) rfl rfl,
    time_column (t := o.exchangeTimestamp) rfl rfl, text "order_id" o.orderId rfl rfl,
    text "exchange_order_id" o.exchangeOrderId rfl rfl, decimal_column (p := o.price) rfl rfl,
    decimal_column (p := some o.triggerPrice) rfl rfl, decimal_column (p := some o.averagePrice) rfl rfl,
    integer "filled_quantity" _ rfl rfl hs.filledQuantity,
    integer "cancelled_quantity" _ rfl rfl hs.cancelledQuantity,
    integer "disclosed_quantity" _ rfl rfl hs.disclosedQuantity,
    text "validity" (some o.validity) rfl rfl, text "status" o.status rfl rfl,
    integer "expires_in" _ rfl rfl hs.expiresIn, text "timezone" (some o.timezone) rfl rfl,
    text "client_id" o.clientId rfl rfl, flag_column (b := o.convertToMarketAfterExpiry) rfl rfl (.inr rfl),
    flag_column (b := o.cancelAfterExpiry) rfl rfl (.inr rfl), integer "retries" _ rfl rfl hs.retries,
    integer "max_modifications" _ rfl rfl hs.maxModifications, text "exchange" o.exchange rfl rfl,
    name_column (s := o.tag) rfl rfl, flag_column (b := o.canPeg) rfl rfl (.inl rfl),
    name_column (s := o.pseudoId) rfl rfl, name_column (s := o.strategyId) rfl rfl,
    name_column (s := o.portfolioId) rfl rfl, json_column (m := o.json) rfl rfl,
    text "error" o.error rfl rfl, flag_column (b := o.isMulti) rfl rfl (.inl rfl),
    time_column (t := o.lastUpdatedAt) rfl rfl]
  rfl

/-! ## The row of an order -/

/-- The rows with an id. -/
def rowsOf (id : Option String) (rows : List (OrdMap String Value)) : List (OrdMap String Value) :=
  rows.filter fun r => decide (Row.text (r.get? "id") = id)

theorem loadRow_text {r : OrdMap String SqlValue} {c s : String}
    (h : Row.text ((loadRow r).get? c) = some s) : r.get? c = some (.text s) := by
  unfold loadRow at h
  rw [OrdMap.get?_insertAll_map] at h
  cases hr : r.get? c with
  | none => rw [hr] at h; cases h
  | some v =>
      rw [hr] at h
      cases v with
      | text t =>
          cases h
          rfl
      | null => cases h
      | integer n => cases h
      | real x => cases h

/-- A saved order is the only one with its id, whatever was in the table. -/
theorem rowsOf_upsert (hs : o.Sized) (db : Table) :
    rowsOf o.id (queryAll (upsert L db (o.toRow L))) = [o.savedRow L] := by
  obtain ⟨s, hid⟩ := Option.isSome_iff_exists.mp hs.id
  have hsaved : Row.text ((o.savedRow L).get? "id") = some s := by
    rw [← hid]
    exact text_column rfl rfl
  have hstored : (storedRow L (o.toRow L)).get? "id" = some (.text s) := loadRow_text hsaved
  have hothers : ∀ r ∈ db.filter (fun r => !sameKey r (storedRow L (o.toRow L))),
      ¬ Row.text ((loadRow r).get? "id") = some s := by
    intro r hr htext
    have hkey := (List.mem_filter.mp hr).2
    unfold sameKey at hkey
    rw [loadRow_text htext, hstored] at hkey
    simp at hkey
  unfold rowsOf queryAll upsert
  rw [hid, List.map_append, List.filter_append, List.filter_eq_nil_iff.mpr, List.nil_append]
  · exact List.filter_cons_of_pos (decide_eq_true hsaved)
  · intro row hrow
    obtain ⟨r, hr, rfl⟩ := List.mem_map.mp hrow
    simpa using hothers r hr

/-! ## Orders that load back -/

def SameObject : Option Fields → Option Fields → Prop
  | none, none => True
  | some m, some m' => ∀ key, m.get? key = m'.get? key
  | _, _ => False

/-- A loaded order has the columns of the saved one, but its pending quantity, which is the quantity. -/
structure Order.Restores (o o' : Order) : Prop where
  columns : o' = { o with
    pendingQuantity := some o.quantity
    json := o'.json
    connection := o'.connection
    numModifications := o'.numModifications
    lock := o'.lock }
  json : SameObject o.json o'.json

/-- The order is saved, and the one row that has its id then loads as the order. -/
def Order.LoadsBack (L : Formats) (db : Table) (now : Int) (freshId : String) (o : Order) : Prop :=
  ∃ row o', rowsOf o.id (queryAll (upsert L db (o.toRow L))) = [row] ∧
    Order.fromRow L row now freshId = .ok o' ∧ o.Restores o'

/-- The formats give back what they are given of an order. -/
structure Order.Rereads (L : Formats) (now : Int) (o : Order) : Prop where
  timestamp : some ((L.rereadTime o.timestamp).getD now) = o.timestamp
  times : ∀ t ∈ [o.brokerTimestamp, o.exchangeTimestamp, o.lastUpdatedAt], L.rereadTime t = t
  price : L.rereadPrice o.price = o.price
  prices : ∀ p ∈ [o.triggerPrice, o.averagePrice], (L.rereadPrice (some p)).getD 0 = p
  names : ∀ name ∈ [o.tag, o.pseudoId, o.strategyId, o.portfolioId], L.rereadName name = name
  json : SameObject o.json (L.rereadObject o.json)

def Order.prices (o : Order) : List ℚ := o.price.toList ++ [o.triggerPrice, o.averagePrice]

/-- The prices are decimals that floats hold exactly. -/
def Order.Priced (o : Order) : Prop := ∀ p ∈ o.prices, IsDecimal p ∧ IsFloat p

/-- What an order has to be like to load back: a quantity and a life time that a new order may have, times
of years with four digits (or the time of loading), prices with no more digits than a float guarantees,
names that do not look like numbers, and an object that its text can hold. -/
structure Order.Restorable (L : Formats) (now : Int) (o : Order) : Prop where
  quantity : 0 ≤ o.quantity
  expiresIn : 0 < o.expiresIn ∨ o.expiresIn = 0 ∧ secondsToEndOfDay now = 0
  timestamp : ∀ t, o.timestamp = some t → InYears t ∨ t = now
  times : ∀ t, some t ∈ [o.brokerTimestamp, o.exchangeTimestamp, o.lastUpdatedAt] → InYears t
  prices : ∀ p ∈ o.prices, Short p
  names : ∀ s, some s ∈ [o.tag, o.pseudoId, o.strategyId, o.portfolioId] → L.numberOfText s = none
  json : ∀ m, o.json = some m → 1 + membersDepth m.entries ≤ 127 ∧
    ∀ key v, m.get? key = some v → ∀ x ∈ v.floats, L.jsonFloat x = x

theorem Formats.Lawful.rereadTime_iff (hL : L.Lawful) (t : Option Int) :
    L.rereadTime t = t ↔ ∀ t', t = some t' → InYears t' := by
  cases t with
  | none => simp [Formats.rereadTime]
  | some t =>
      simp only [Formats.rereadTime, Option.bind_some, hL.time, Option.some.injEq, forall_eq']
      by_cases hy : InYears t <;> simp [hy]

theorem Formats.Lawful.timestamp_iff (hL : L.Lawful) {t : Option Int} (ht : t.isSome) (now : Int) :
    some ((L.rereadTime t).getD now) = t ↔ ∀ t', t = some t' → InYears t' ∨ t' = now := by
  cases t with
  | none => cases ht
  | some t =>
      simp only [Formats.rereadTime, Option.bind_some, hL.time, Option.some.injEq, forall_eq']
      by_cases hy : InYears t
      · simp [hy]
      · simp [hy, eq_comm]

theorem Formats.Lawful.rereadPrice_iff (hL : L.Lawful) {p : ℚ} (hd : IsDecimal p) (hf : IsFloat p) :
    L.rereadPrice (some p) = some p ↔ Short p :=
  ⟨hL.cut _ _, hL.exact p hd hf⟩

/-- A price that is zero where it is not read comes back exactly where it is short. -/
theorem Formats.Lawful.price_iff (hL : L.Lawful) {p : ℚ} (hd : IsDecimal p) (hf : IsFloat p) :
    (L.rereadPrice (some p)).getD 0 = p ↔ Short p := by
  rw [← hL.rereadPrice_iff hd hf]
  cases hr : L.rereadPrice (some p) with
  | some q => simp
  | none =>
      refine iff_of_false (fun h => ?_) nofun
      obtain rfl : p = 0 := h.symm
      have hzero : L.rereadPrice (some 0) = some 0 := (hL.rereadPrice_iff hd hf).mpr (.inl rfl)
      rw [hr] at hzero
      cases hzero

theorem rereadName_iff (s : Option String) :
    L.rereadName s = s ↔ ∀ s', s = some s' → L.numberOfText s' = none := by
  cases s with
  | none => simp [Formats.rereadName]
  | some s => cases h : L.numberOfText s <;> simp [Formats.rereadName, Option.filter, h]

theorem Formats.Lawful.object_iff (hL : L.Lawful) (m : Option Fields) :
    SameObject m (L.rereadObject m) ↔ ∀ m', m = some m' → 1 + membersDepth m'.entries ≤ 127 ∧
      ∀ key v, m'.get? key = some v → ∀ x ∈ v.floats, L.jsonFloat x = x := by
  cases m with
  | none => simp [Formats.rereadObject, SameObject]
  | some m =>
      simp only [Formats.rereadObject, Option.bind_some, Option.some.injEq, forall_eq']
      by_cases hdepth : 1 + membersDepth m.entries ≤ 127
      · obtain ⟨m', hread, hget⟩ := hL.object m hdepth
        rw [hread]
        simp only [SameObject, hget, hdepth, true_and]
        refine forall_congr' fun key => ?_
        cases m.get? key with
        | none => simp
        | some v =>
            simp only [Option.map_some, Option.some.injEq, forall_eq']
            rw [eq_comm]
            exact Value.reread_eq_iff _ v
      · rw [hL.tooDeep m (by omega)]
        simp [SameObject, hdepth]

/-- What the formats give back is told from the order alone. -/
theorem Formats.Lawful.rereads_iff (hL : L.Lawful) (hs : o.Sized) (hp : o.Priced) (now : Int) :
    o.Rereads L now ∧ 0 ≤ o.quantity ∧
        (0 < o.expiresIn ∨ o.expiresIn = 0 ∧ secondsToEndOfDay now = 0) ↔ o.Restorable L now := by
  have hprice : L.rereadPrice o.price = o.price ↔ ∀ p, o.price = some p → Short p := by
    have hpriced := hp
    cases hsome : o.price with
    | none => simp [Formats.rereadPrice]
    | some p =>
        obtain ⟨hd, hf⟩ := hpriced p (by simp [Order.prices, hsome])
        simp [hL.rereadPrice_iff hd hf]
  have htrigger := hL.price_iff (hp o.triggerPrice (by simp [Order.prices])).1
    (hp o.triggerPrice (by simp [Order.prices])).2
  have haverage := hL.price_iff (hp o.averagePrice (by simp [Order.prices])).1
    (hp o.averagePrice (by simp [Order.prices])).2
  constructor
  · rintro ⟨h, hq, he⟩
    refine ⟨hq, he, (hL.timestamp_iff hs.timestamp now).mp h.timestamp, fun t ht => ?_, fun p hmem => ?_,
      fun s hmem => ?_, (hL.object_iff _).mp h.json⟩
    · exact (hL.rereadTime_iff _).mp (h.times _ ht) t rfl
    · simp only [Order.prices, List.mem_append, Option.mem_toList, List.mem_cons, List.not_mem_nil,
        or_false] at hmem
      rcases hmem with hmem | rfl | rfl
      · exact hprice.mp h.price p hmem
      · exact htrigger.mp (h.prices _ (by simp))
      · exact haverage.mp (h.prices _ (by simp))
    · exact (rereadName_iff _).mp (h.names _ hmem) s rfl
  · intro h
    refine ⟨⟨(hL.timestamp_iff hs.timestamp now).mpr h.timestamp, fun t ht => ?_, ?_, fun p hmem => ?_,
      fun s hmem => ?_, (hL.object_iff _).mpr h.json⟩, h.quantity, h.expiresIn⟩
    · exact (hL.rereadTime_iff t).mpr fun t' ht' => h.times t' (ht' ▸ ht)
    · exact hprice.mpr fun p hsome => h.prices p (by simp [Order.prices, hsome])
    · simp only [List.mem_cons, List.not_mem_nil, or_false] at hmem
      rcases hmem with rfl | rfl
      · exact htrigger.mpr (h.prices _ (by simp [Order.prices]))
      · exact haverage.mpr (h.prices _ (by simp [Order.prices]))
    · exact (rereadName_iff s).mpr fun s' hs' => h.names s' (hs' ▸ hmem)

theorem expiry_some {init : OrderInit} {e : Int} (h : init.expiresIn = some e) (now : Int) :
    init.expiry now = if e = 0 then .ok (secondsToEndOfDay now) else absI64 e := by
  unfold OrderInit.expiry
  rw [h]
  split
  · contradiction
  · rename_i heq
    cases heq
    rfl
  · rename_i hne heq
    cases heq
    exact (if_neg fun h0 => hne (by rw [h0])).symm

/-- A life time loads as it was saved when it is positive, or ends with the day that ends then. -/
theorem expiry_reread (he : InI64 o.expiresIn) (now : Int) :
    (o.reread L).expiry now = .ok o.expiresIn ↔
      0 < o.expiresIn ∨ o.expiresIn = 0 ∧ secondsToEndOfDay now = 0 := by
  have hsaved : (o.reread L).expiresIn = some o.expiresIn := rfl
  rw [expiry_some hsaved]
  split
  · rename_i h0
    simp [h0]
  · rename_i h0
    constructor
    · intro h
      have hnonneg := checkedI64_eq h ▸ abs_nonneg o.expiresIn
      exact .inl (lt_of_le_of_ne hnonneg (Ne.symm h0))
    · intro h
      have hpos : 0 < o.expiresIn := by omega
      unfold absI64
      rw [abs_of_pos hpos]
      exact checkedI64_ok he

theorem build_restores (hid : o.id.isSome) {now : Int} {freshId : String} {e : Int} :
    o.Restores ((o.reread L).build now freshId e) ↔ e = o.expiresIn ∧ o.Rereads L now := by
  obtain ⟨s, hs⟩ := Option.isSome_iff_exists.mp hid
  have hid' : some (o.id.getD freshId) = o.id := by rw [hs]; rfl
  constructor
  · intro h
    have hc := h.columns
    simp only [OrderInit.build, Order.reread, Order.mk.injEq, hid', Option.getD_some, true_and, and_true]
      at hc
    obtain ⟨htimestamp, hbroker, hexchange, hprice, htrigger, haverage, he, htag, hpseudo, hstrategy,
      hportfolio, hupdated⟩ := hc
    exact ⟨he, htimestamp, by simp [hbroker, hexchange, hupdated], hprice,
      by simp [htrigger, haverage], by simp [htag, hpseudo, hstrategy, hportfolio], h.json⟩
  · rintro ⟨rfl, htimestamp, htimes, hprice, hprices, hnames, hjson⟩
    simp only [List.forall_mem_cons, List.not_mem_nil, false_implies, implies_true, and_true] at *
    refine ⟨?_, hjson⟩
    simp only [OrderInit.build, Order.reread, hid', htimestamp, hnames, htimes, hprice, hprices]
    rfl

theorem loadsBack_iff (hL : L.Lawful) (hs : o.Sized) (hp : o.Priced) (db : Table) (now : Int)
    (freshId : String) : o.LoadsBack L db now freshId ↔ o.Restorable L now := by
  have hrow : ∀ o', Order.fromRow L (o.savedRow L) now freshId = .ok o' ↔
      0 ≤ o.quantity ∧ ∃ e, (o.reread L).expiry now = .ok e ∧ o' = (o.reread L).build now freshId e := by
    intro o'
    unfold Order.fromRow
    rw [fromRow_savedRow hs]
    exact fromInit_ok
  rw [← hL.rereads_iff hs hp]
  constructor
  · rintro ⟨row, o', hrows, hload, hrestores⟩
    rw [rowsOf_upsert hs] at hrows
    obtain rfl := List.singleton_inj.mp hrows
    obtain ⟨hq, e, he, rfl⟩ := (hrow o').mp hload
    obtain ⟨rfl, hread⟩ := (build_restores hs.id).mp hrestores
    exact ⟨hread, hq, (expiry_reread hs.expiresIn now).mp he⟩
  · rintro ⟨hread, hq, he⟩
    have hload := (hrow _).mpr ⟨hq, _, (expiry_reread hs.expiresIn now).mpr he, rfl⟩
    exact ⟨_, _, rowsOf_upsert hs db, hload, (build_restores hs.id).mpr ⟨rfl, hread⟩⟩

/-- Of libraries that keep their promises: an order that was new with numbers of the source and then
updated, modified, locked and executed in any order, its prices exact in floats, saved to any table, loads
back at a later time exactly when it can be restored then. -/
theorem saved_order_loads_iff (L : Formats) (hL : L.Lawful) (init : OrderInit) (now : Int)
    (freshId : String) (o : Order) (h : Order.fromInit init now freshId = .ok o) (hi : init.Sized)
    (calls : List LifeCall) (hp : ((lifeMachine L).final o calls).Priced) (db : Table) (later : Int)
    (freshId' : String) :
    ((lifeMachine L).final o calls).LoadsBack L db later freshId' ↔
      ((lifeMachine L).final o calls).Restorable L later := by
  have hs : ((lifeMachine L).final o calls).Sized :=
    (lifeMachine L).invariant (I := Order.Sized) (fun _ c hs => live_sized hs c) (fromInit_sized hi h) calls
  exact loadsBack_iff hL hs hp db later freshId'

namespace Sample

def tagged (tag : String) : OrderInit :=
  { symbol := "aapl", side := "buy", quantity := 10, price := some 100, tag := some tag }

theorem tagged_sized (tag : String) : (tagged tag).Sized := by constructor <;> simp [tagged, InI64]

/-- Four of ten are filled. -/
def partFilled : List LifeCall :=
  [.execute none none ⟨[], .nil⟩ (some "7"), .call (.update 2 (named "filled_quantity" 4))]

theorem hundred_priced {o : Order} (h : o.prices = [100, 0, 0]) : o.Priced := by
  have hexact : ∀ n ∈ [(100 : ℚ), 0], IsDecimal n ∧ IsFloat n := by
    intro n hn
    simp only [List.mem_cons, List.not_mem_nil, or_false] at hn
    rcases hn with rfl | rfl
    · exact ⟨⟨0, by decide, by decide +kernel⟩, 100, by decide, .inl ⟨0, by decide, by simp⟩⟩
    · exact ⟨⟨0, by decide, by decide +kernel⟩, 0, by decide, .inl ⟨0, by decide, by simp⟩⟩
  intro p hmem
  rw [h] at hmem
  exact hexact p (by simpa using hmem)

end Sample

open Sample in
/-- The part filled order loads back. -/
theorem saved_order_loads_filled : ∃ o, Order.fromInit (tagged "swing") 0 "a" = .ok o ∧
    ((lifeMachine reading).final o partFilled).filledQuantity = 4 ∧
    ((lifeMachine reading).final o partFilled).LoadsBack reading [] 5 "b" := by
  refine ⟨_, rfl, rfl, (saved_order_loads_iff reading reading_lawful (tagged "swing") 0 "a" _ rfl
    (tagged_sized _) partFilled (hundred_priced rfl) [] 5 "b").mpr ⟨by decide, by decide, ?_, ?_, ?_, ?_, ?_⟩⟩
  · rintro t ⟨⟩
    exact .inl (by decide)
  · intro t ht
    change some t ∈ [none, none, some 2] at ht
    obtain rfl : t = 2 := by simpa using ht
    decide
  · intro p hmem
    change p ∈ [100, 0, 0] at hmem
    simp only [List.mem_cons, List.not_mem_nil, or_false] at hmem
    rcases hmem with rfl | rfl | rfl <;> exact .inl rfl
  · intro s hmem
    change some s ∈ [some "swing", none, none, none] at hmem
    obtain rfl : s = "swing" := by simpa using hmem
    decide
  · rintro m ⟨⟩

open Sample in
/-- A tag that is a number is lost. -/
theorem numbered_tag_is_lost :
    ¬ ∀ (L : Formats), L.Lawful → ∀ (init : OrderInit) (now : Int) (freshId : String) (o : Order),
      Order.fromInit init now freshId = .ok o → init.Sized →
      ∀ calls : List LifeCall, ((lifeMachine L).final o calls).Priced →
      ∀ (db : Table) (later : Int) (freshId' : String),
        ((lifeMachine L).final o calls).LoadsBack L db later freshId' := by
  intro h
  have hnew : Order.fromInit (tagged "123") 0 "a" = .ok ((tagged "123").build 0 "a" 86399) := rfl
  have hp : ((tagged "123").build 0 "a" 86399).Priced := hundred_priced rfl
  have hloads := h reading reading_lawful _ 0 "a" _ hnew (tagged_sized _) [] hp [] 5 "b"
  have hs := fromInit_sized (tagged_sized "123") hnew
  have hname := ((loadsBack_iff reading_lawful hs hp [] 5 "b").mp hloads).names "123" (by decide)
  exact absurd hname (by decide)

end Omsrs.Basket
