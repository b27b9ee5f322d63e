import Omsrs.Basket.Order

/-!
# The walk of a modification

A modification walks its arguments in any order and writes those that it knows. What becomes of a field
is told by the one argument that names it.
-/

namespace Omsrs.Basket
open Omsrs.Lib

variable {L : Formats} {o o' : Order}

/-! ## Entries and names -/

/-- The entries that a walk passes before it comes to a name. -/
def Fields.before (m : Fields) (key : String) : List (String × Value) :=
  m.entries.takeWhile fun e => e.1 != key

/-- The entries before and after a name. -/
theorem Fields.split (m : Fields) (key : String) :
    (m.get? key = none ∧ m.before key = m.entries ∧ key ∉ m.entries.map Prod.fst) ∨
      ∃ v post, m.get? key = some v ∧ m.entries = m.before key ++ (key, v) :: post ∧
        key ∉ (m.before key).map Prod.fst ∧ key ∉ post.map Prod.fst := by
  obtain ⟨entries, hn⟩ := m
  simp only [Fields.get?, Fields.before]
  induction entries with
  | nil => exact .inl ⟨rfl, rfl, by simp⟩
  | cons e l ih =>
      obtain ⟨k, v⟩ := e
      obtain ⟨hk, hnodup⟩ := List.nodup_cons.mp hn
      by_cases he : k = key
      · subst he
        exact .inr ⟨v, l, by simp, by simp, by simp, hk⟩
      · have hne : (key == k) = false := by simpa using Ne.symm he
        have hne' : (k != key) = true := by simpa using he
        rw [List.lookup_cons, hne, List.takeWhile_cons, hne']
        simp only [if_true, List.map_cons, List.mem_cons, not_or, List.cons_append, List.cons.injEq,
          true_and]
        rcases ih hnodup with ⟨h₁, h₂, h₃⟩ | ⟨w, post, h₁, h₂, h₃, h₄⟩
        · exact .inl ⟨h₁, h₂, Ne.symm he, h₃⟩
        · exact .inr ⟨w, post, h₁, h₂, ⟨Ne.symm he, h₃⟩, h₄⟩

theorem lookup_eq_none {l : List (String × Value)} {key : String} :
    l.lookup key = none ↔ key ∉ l.map Prod.fst := by
  rw [List.lookup_eq_none_iff]
  constructor
  · intro h hm
    obtain ⟨e, he, rfl⟩ := List.mem_map.mp hm
    simpa using h e he
  · intro h e he
    have hne : key ≠ e.1 := fun heq => h (heq ▸ List.mem_map_of_mem he)
    simpa using hne

/-! ## Updates -/

/-- A relation that every write of an attribute meets, and the stamp of an update, holds between an order
and what an update makes of it, however it ends. -/
theorem update_relates {R : Order → Order → Prop} (hrefl : ∀ o, R o o)
    (htrans : ∀ {o o' o''}, R o o' → R o' o'' → R o o'')
    (hattr : ∀ {o o' data key}, Order.updateAttr L data o key = .ok o' → R o o')
    (hstamp : ∀ (o : Order) at' pending,
      R o { o with lastUpdatedAt := at', pendingQuantity := pending })
    (o : Order) (now : Int) (data : Fields) : R o (o.update L now data).2 := by
  have hattrs : ∀ (keys : List String) (o : Order), R o (Order.writeAttrs L data o keys).2 := by
    intro keys
    induction keys with
    | nil => exact hrefl
    | cons key keys ih =>
        intro o
        simp only [Order.writeAttrs]
        cases hu : Order.updateAttr L data o key with
        | error p => exact hrefl o
        | ok o₁ => exact htrans (hattr hu) (ih o₁)
  unfold Order.update
  cases o.isDone with
  | error p => exact hrefl o
  | ok done =>
      cases done with
      | true => exact hrefl o
      | false =>
          have hwritten := hattrs Order.attrs o
          rcases hw : Order.writeAttrs L data o Order.attrs with ⟨_ | p, o₁⟩
          all_goals rw [hw] at hwritten
          · dsimp only
            split
            · exact htrans hwritten (hstamp o₁ (some now) o₁.pendingQuantity)
            · split
              · exact htrans hwritten (hstamp o₁ (some now) o₁.pendingQuantity)
              · exact htrans hwritten (hstamp o₁ (some now) (some _))
          · exact hwritten

/-! ## The walk -/

/-- An entry of the walk is written to the order, or passed over. -/
theorem writeLocal_cons (o : Order) (acc : List (String × Value)) (key : String) (v : Value)
    (rest : List (String × Value)) :
    ((Order.frozenAttrs.contains key = true ∨ (o.getAttr L key).isSome = false) ∧
        ∃ acc', Order.writeLocal L o acc ((key, v) :: rest) = Order.writeLocal L o acc' rest) ∨
      (Order.frozenAttrs.contains key = false ∧ (o.getAttr L key).isSome = true ∧
        match o.setLocalField L key v with
        | .ok o' => ∃ acc', Order.writeLocal L o acc ((key, v) :: rest) = Order.writeLocal L o' acc' rest
        | .error p => Order.writeLocal L o acc ((key, v) :: rest) = (some p, o, acc)) := by
  rw [Order.writeLocal]
  cases hf : Order.frozenAttrs.contains key with
  | true => exact .inl ⟨.inl rfl, acc, by simp⟩
  | false =>
      cases hk : (o.getAttr L key).isSome with
      | false => exact .inl ⟨.inr rfl, acc ++ [(key, v)], by simp⟩
      | true =>
          refine .inr ⟨rfl, rfl, ?_⟩
          cases o.setLocalField L key v with
          | error p => simp
          | ok o' =>
              simp only [Bool.false_eq_true, if_false, if_true]
              split
              · exact ⟨acc, rfl⟩
              · exact ⟨_, rfl⟩

/-- A walk over two lists goes on with the second where the first did not panic. -/
theorem writeLocal_append (o : Order) (acc l r : List (String × Value)) :
    Order.writeLocal L o acc (l ++ r) =
      match Order.writeLocal L o acc l with
      | (some p, o', acc') => (some p, o', acc')
      | (none, o', acc') => Order.writeLocal L o' acc' r := by
  induction l generalizing o acc with
  | nil => rfl
  | cons e l ih =>
      obtain ⟨key, v⟩ := e
      rw [List.cons_append, Order.writeLocal, Order.writeLocal]
      split
      · exact ih o acc
      · split
        · split
          · rfl
          · split
            · exact ih _ _
            · exact ih _ _
        · exact ih _ _

/-- The arguments to add are among those walked. -/
theorem writeLocal_added (o : Order) (acc l : List (String × Value)) {key : String}
    (h : key ∈ (Order.writeLocal L o acc l).2.2.map Prod.fst) :
    key ∈ acc.map Prod.fst ∨ key ∈ l.map Prod.fst := by
  induction l generalizing o acc with
  | nil => exact .inl h
  | cons e l ih =>
      obtain ⟨k, v⟩ := e
      have grown : ∀ {o' : Order}, key ∈ (Order.writeLocal L o' (acc ++ [(k, v)]) l).2.2.map Prod.fst →
          key ∈ acc.map Prod.fst ∨ key ∈ ((k, v) :: l).map Prod.fst := by
        intro o' h'
        rcases ih _ _ h' with hacc | hl
        · rw [List.map_append, List.mem_append] at hacc
          rcases hacc with hacc | hk
          · exact .inl hacc
          · exact .inr (by simpa using .inl (List.mem_singleton.mp hk))
        · exact .inr (List.mem_cons_of_mem _ hl)
      have same : ∀ {o' : Order}, key ∈ (Order.writeLocal L o' acc l).2.2.map Prod.fst →
          key ∈ acc.map Prod.fst ∨ key ∈ ((k, v) :: l).map Prod.fst :=
        fun h' => (ih _ _ h').imp_right (List.mem_cons_of_mem _)
      rw [Order.writeLocal] at h
      split at h
      · exact same h
      · split at h
        · split at h
          · exact .inl h
          · split at h
            · exact same h
            · exact grown h
        · exact grown h

/-! ## The filled quantity -/

/-- A filled quantity within the quantity takes a new one as far as it goes. -/
theorem setFilled_eq (h : o.filledQuantity ≤ o.quantity) (n : Int) :
    o.setFilled n = .ok { o with filledQuantity := max o.filledQuantity (min n o.quantity) } := by
  unfold Order.setFilled clampI64
  rw [if_neg (not_lt.mpr h)]
  simp only [Except.map, Except.ok.injEq]
  split
  · rfl
  · rename_i hle
    rw [le_antisymm (not_lt.mp hle) (le_max_left _ _)]

theorem setFilled_panics (h : o.quantity < o.filledQuantity) (n : Int) :
    o.setFilled n = .error .clamp := by
  unfold Order.setFilled clampI64
  rw [if_pos h]
  rfl

theorem setLocalField_filled (v : Value) :
    o.setLocalField L "filled_quantity" v =
      match v.asI64 with
      | some n => o.setFilled n
      | none => .ok o := rfl

/-- The filled quantity is known, and written. -/
theorem writeLocal_filled (o : Order) (acc : List (String × Value)) (v : Value)
    (rest : List (String × Value)) :
    match o.setLocalField L "filled_quantity" v with
    | .ok o' => ∃ acc', Order.writeLocal L o acc (("filled_quantity", v) :: rest) =
        Order.writeLocal L o' acc' rest
    | .error p => Order.writeLocal L o acc (("filled_quantity", v) :: rest) = (some p, o, acc) := by
  rcases writeLocal_cons (L := L) o acc "filled_quantity" v rest with ⟨hskip, -⟩ | ⟨-, -, h⟩
  · rcases hskip with hf | hk
    · exact absurd hf (by decide)
    · cases hk
  · exact h

/-! ## The walk of a modification -/

theorem modify_locked {now : Int} (h : o.lock.canModify now = false) (brokerAttrs attribsToCopy : Option (List String))
    (kwargs : Fields) : o.modify L now brokerAttrs attribsToCopy kwargs = (.locked, o) := if_pos h

theorem step_locked {now : Int} (h : o.lock.canModify now = false)
    (brokerAttrs attribsToCopy : Option (List String)) (kwargs : Fields) :
    (orderMachine L).step o (.modify now brokerAttrs attribsToCopy kwargs) = (.modified .locked, o) := by
  simp only [orderMachine, Order.step, modify_locked h, OrderReply.ofModified]

/-- What a modification that is not locked leaves of an order is what its walk leaves. -/
theorem modify_walk {now : Int} (h : o.lock.canModify now = true)
    (brokerAttrs attribsToCopy : Option (List String)) (kwargs : Fields) :
    ((∃ p, ((orderMachine L).step o (.modify now brokerAttrs attribsToCopy kwargs)).1 = .panicked p) ↔
        (Order.writeLocal L o [] kwargs.entries).1 ≠ none) ∧
      ∃ n, ((orderMachine L).step o (.modify now brokerAttrs attribsToCopy kwargs)).2 =
        { (Order.writeLocal L o [] kwargs.entries).2.1 with numModifications := n } := by
  simp only [orderMachine, Order.step, Order.modify, h, Bool.true_eq_false, if_false]
  rcases Order.writeLocal L o [] kwargs.entries with ⟨_ | p, o', added⟩
  · have hquiet : ¬ ∃ p, OrderReply.ofModified .unsent = .panicked p := by rintro ⟨p, hp⟩; cases hp
    by_cases hbudget : o'.numModifications < o'.maxModifications
    · cases hid : o'.orderId.isNone with
      | true =>
          simp only [hbudget, hid, if_true]
          exact ⟨iff_of_false hquiet (by simp), _, rfl⟩
      | false =>
          simp only [hbudget, hid, if_true, Bool.false_eq_true, if_false]
          exact ⟨iff_of_false (by rintro ⟨p, hp⟩; cases hp) (by simp), _, rfl⟩
    · simp only [hbudget, if_false]
      exact ⟨iff_of_false hquiet (by simp), _, rfl⟩
  · exact ⟨iff_of_true ⟨p, rfl⟩ (by simp), _, rfl⟩

theorem addLock_lock (o : Order) (now code : Int) (seconds : ℚ) :
    ∃ l, o.addLock now code seconds = { o with lock := l } := by
  unfold Order.addLock
  split
  · exact ⟨_, rfl⟩
  · split <;> exact ⟨_, rfl⟩

theorem step_addLock (o : Order) (now code : Int) (seconds : ℚ) :
    ∃ l, (orderMachine L).step o (.addLock now code seconds) = (.lockAdded, { o with lock := l }) := by
  obtain ⟨l, hl⟩ := addLock_lock o now code seconds
  exact ⟨l, by rw [← hl]; rfl⟩

/-! ## Samples -/

namespace Sample

/-- Formats that read no text. -/
def plain : Formats where
  toUppercase := fun s => s.map Char.toUpper
  decimalOfText := fun _ => none
  decimalText := fun d => toString d
  decimalOfFloat := some
  decimalFloat := id
  timeOfText := fun _ => none
  timeText := toString
  objectOfText := fun _ => none
  valueText := fun _ => ""
  jsonFloat := id
  numberOfText := fun _ => none

/-- One argument, a number. -/
def named (key : String) (n : Int) : Fields := ⟨[(key, .int n)], by simp⟩

theorem named_get (key key' : String) (n : Int) :
    (named key n).get? key' = if key' = key then some (.int n) else none := by
  by_cases h : key' = key
  · subst h
    simp [named, Fields.get?]
  · have hne : (key' == key) = false := by simpa using h
    simp [named, Fields.get?, List.lookup_cons, h, hne]

end Sample

end Omsrs.Basket
