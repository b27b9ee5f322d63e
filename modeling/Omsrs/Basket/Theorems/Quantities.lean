import Omsrs.Basket.Lemmas.Walk

/-!
# The quantities of an order

The filled quantity of an order stays within its quantity and no call panics, unless a modification
lowers the quantity below what is filled by then, or the canceled quantity overflows.
-/

namespace Omsrs.Basket
open Omsrs.Lib

variable {L : Formats} {o o' : Order}

/-! ## What a call may change -/

/-- The filled quantity is within the quantity. -/
structure Order.Within (o : Order) : Prop where
  filled : 0 ≤ o.filledQuantity
  quantity : o.filledQuantity ≤ o.quantity
  inRange : InI64 o.quantity
  cancelledInRange : InI64 o.cancelledQuantity

/-- A step that leaves the quantity and the canceled quantity, and may raise the filled quantity. -/
structure Order.Raises (o o' : Order) : Prop where
  quantity : o'.quantity = o.quantity
  cancelled : o'.cancelledQuantity = o.cancelledQuantity
  filled : o.filledQuantity ≤ o'.filledQuantity
  within : o'.filledQuantity ≤ o.quantity

theorem Order.Raises.refl (h : o.filledQuantity ≤ o.quantity) : o.Raises o := ⟨rfl, rfl, le_rfl, h⟩

theorem Order.Raises.trans {o'' : Order} (h : o.Raises o') (h' : o'.Raises o'') : o.Raises o'' :=
  ⟨h'.quantity.trans h.quantity, h'.cancelled.trans h.cancelled, h.filled.trans h'.filled,
    h'.within.trans_eq h.quantity⟩

theorem Order.Raises.keeps (h : o.Raises o') (hw : o.Within) : o'.Within :=
  ⟨hw.filled.trans h.filled, h.within.trans_eq h.quantity.symm, h.quantity ▸ hw.inRange,
    h.cancelled ▸ hw.cancelledInRange⟩

theorem setFilled_raises (h : o.filledQuantity ≤ o.quantity) (n : Int) :
    ∃ o', o.setFilled n = .ok o' ∧ o.Raises o' :=
  ⟨_, setFilled_eq h n, rfl, rfl, le_max_left _ _, max_le h (min_le_right _ _)⟩

/-- Every attribute of an update but the filled quantity leaves the quantities alone. -/
theorem setFromValue_raises (h : o.filledQuantity ≤ o.quantity) (key : String) (v : Value) :
    ∃ o', o.setFromValue L key v = .ok o' ∧ o.Raises o' := by
  have kept : ∀ {α : Type} (x : Option α) (f : α → Order), (∀ a, o.Raises (f a)) →
      ∃ o', (Except.ok ((x.map f).getD o) : Except Panic Order) = .ok o' ∧ o.Raises o' := by
    intro α x f hf
    cases x with
    | none => exact ⟨o, rfl, .refl h⟩
    | some a => exact ⟨f a, rfl, hf a⟩
  unfold Order.setFromValue
  split
  · exact kept _ _ fun _ => ⟨rfl, rfl, le_rfl, h⟩
  · exact kept _ _ fun _ => ⟨rfl, rfl, le_rfl, h⟩
  · exact kept _ _ fun _ => ⟨rfl, rfl, le_rfl, h⟩
  · split
    · exact setFilled_raises h _
    · exact ⟨o, rfl, .refl h⟩
  · exact kept _ _ fun _ => ⟨rfl, rfl, le_rfl, h⟩
  · exact kept _ _ fun _ => ⟨rfl, rfl, le_rfl, h⟩
  · exact kept _ _ fun _ => ⟨rfl, rfl, le_rfl, h⟩
  · exact ⟨o, rfl, .refl h⟩

theorem updateAttr_raises (h : o.filledQuantity ≤ o.quantity) (data : Fields) (key : String) :
    ∃ o', Order.updateAttr L data o key = .ok o' ∧ o.Raises o' := by
  unfold Order.updateAttr
  split
  · split
    · exact ⟨o, rfl, .refl h⟩
    · exact setFromValue_raises h key _
  · exact ⟨o, rfl, .refl h⟩

/-- The attributes of an update, one after the other. -/
theorem attrs_raise (h : o.filledQuantity ≤ o.quantity) (data : Fields) (keys : List String) :
    ∃ o', Order.writeAttrs L data o keys = (none, o') ∧ o.Raises o' := by
  induction keys generalizing o with
  | nil => exact ⟨o, rfl, .refl h⟩
  | cons key keys ih =>
      obtain ⟨o₁, he₁, h₁⟩ := updateAttr_raises (L := L) h data key
      obtain ⟨o₂, he₂, h₂⟩ := ih (h₁.within.trans_eq h₁.quantity.symm)
      refine ⟨o₂, ?_, h₁.trans h₂⟩
      rw [Order.writeAttrs, he₁]
      exact he₂

theorem checkedI64_ok {n : Int} (h : InI64 n) : checkedI64 n = .ok n := if_pos h

/-- An update of an order that is not done. -/
theorem update_open (hw : o.Within) (hd : o.isDone = .ok false) (now : Int) (data : Fields) :
    ∃ o', o.update L now data = (.ok true, o') ∧ o.Raises o' := by
  obtain ⟨o₁, he, h₁⟩ := attrs_raise (L := L) hw.quantity data Order.attrs
  unfold Order.update
  rw [hd, he]
  dsimp only
  split
  · exact ⟨_, rfl, h₁.quantity, h₁.cancelled, h₁.filled, h₁.within⟩
  · have hrange : InI64 (o₁.quantity - o₁.filledQuantity) := by
      have h₂ := hw.inRange
      have h₃ := h₁.within
      have h₄ := h₁.filled
      have h₅ := hw.filled
      rw [h₁.quantity]
      unfold InI64 at h₂ ⊢
      omega
    rw [checkedI64_ok hrange]
    exact ⟨_, rfl, h₁.quantity, h₁.cancelled, h₁.filled, h₁.within⟩

theorem update_done (hd : o.isDone = .ok true) (now : Int) (data : Fields) :
    o.update L now data = (.ok false, o) := by
  unfold Order.update
  rw [hd]

/-- Whether an order is done can be told unless filled and canceled quantity overflow. -/
def Order.Tellable (o : Order) : Prop :=
  o.quantity = o.filledQuantity ∨ o.status = some "COMPLETE" ∨
    o.filledQuantity + o.cancelledQuantity < 2 ^ 63

theorem isDone_ok_iff (hw : o.Within) : (∃ b, o.isDone = .ok b) ↔ o.Tellable := by
  unfold Order.isDone Order.isComplete Order.Tellable
  by_cases hq : o.quantity = o.filledQuantity
  · simp only [hq, if_true, bind, Except.bind, true_or, iff_true]
    exact ⟨true, rfl⟩
  · by_cases hs : o.status = some "COMPLETE"
    · simp only [hq, hs, if_true, if_false, bind, Except.bind, true_or, or_true, iff_true]
      exact ⟨true, rfl⟩
    · simp only [hq, hs, if_false, false_or]
      have h₁ := hw.filled
      have h₂ := hw.cancelledInRange
      unfold InI64 at h₂
      by_cases hsum : o.filledQuantity + o.cancelledQuantity < 2 ^ 63
      · rw [checkedI64_ok ⟨by omega, hsum⟩]
        simp only [hsum, iff_true, Except.map, bind, Except.bind]
        split <;> exact ⟨_, rfl⟩
      · have hover : checkedI64 (o.filledQuantity + o.cancelledQuantity) = .error .overflow :=
          if_neg fun h => hsum h.2
        rw [hover]
        exact iff_of_false (by rintro ⟨b, hb⟩; cases hb) hsum

/-! ## The walk of a modification -/

/-- What a walk has filled after these entries. -/
def Order.filledBy (o : Order) (entries : List (String × Value)) : Int :=
  match (entries.lookup "filled_quantity").bind (·.asI64) with
  | some n => max o.filledQuantity (min n o.quantity)
  | none => o.filledQuantity

/-- A write of another field leaves the quantity and the filled quantity alone. -/
theorem setLocalField_other {key : String} (hq : key ≠ "quantity") (hf : key ≠ "filled_quantity")
    (v : Value) : ∃ o', o.setLocalField L key v = .ok o' ∧ o'.quantity = o.quantity ∧
      o'.filledQuantity = o.filledQuantity ∧ (InI64 o.cancelledQuantity → InI64 o'.cancelledQuantity) := by
  have kept : ∀ {α : Type} (x : Option α) (f : α → Order),
      (∀ a, x = some a → (f a).quantity = o.quantity ∧ (f a).filledQuantity = o.filledQuantity ∧
        (InI64 o.cancelledQuantity → InI64 (f a).cancelledQuantity)) →
      ∃ o', (Except.ok ((x.map f).getD o) : Except Panic Order) = .ok o' ∧ o'.quantity = o.quantity ∧
        o'.filledQuantity = o.filledQuantity ∧
        (InI64 o.cancelledQuantity → InI64 o'.cancelledQuantity) := by
    intro α x f hx
    cases x with
    | none => exact ⟨o, rfl, rfl, rfl, id⟩
    | some a => exact ⟨f a, rfl, hx a rfl⟩
  unfold Order.setLocalField
  split
  · exact absurd rfl hq
  · exact ⟨_, rfl, rfl, rfl, id⟩
  · exact kept _ _ fun _ _ => ⟨rfl, rfl, id⟩
  · exact kept _ _ fun _ _ => ⟨rfl, rfl, id⟩
  · exact kept _ _ fun _ _ => ⟨rfl, rfl, id⟩
  · exact kept _ _ fun _ _ => ⟨rfl, rfl, id⟩
  · exact kept _ _ fun _ _ => ⟨rfl, rfl, id⟩
  · exact kept _ _ fun _ _ => ⟨rfl, rfl, id⟩
  · exact kept _ _ fun _ _ => ⟨rfl, rfl, id⟩
  · exact kept _ _ fun _ _ => ⟨rfl, rfl, id⟩
  · exact absurd rfl hf
  · exact kept _ _ fun _ _ => ⟨rfl, rfl, id⟩
  · exact kept _ _ fun n hn => ⟨rfl, rfl, fun _ => Value.asI64_range hn⟩
  · exact kept _ _ fun _ _ => ⟨rfl, rfl, id⟩
  · exact kept _ _ fun _ _ => ⟨rfl, rfl, id⟩
  · exact ⟨o, rfl, rfl, rfl, id⟩

theorem filledBy_cons_other {key : String} (hf : key ≠ "filled_quantity") (v : Value)
    (rest : List (String × Value)) (hq : o'.quantity = o.quantity)
    (he : o'.filledQuantity = o.filledQuantity) :
    o.filledBy ((key, v) :: rest) = o'.filledBy rest := by
  have hne : ("filled_quantity" == key) = false := by simpa using Ne.symm hf
  simp only [Order.filledBy, List.lookup_cons, hne, hq, he]

theorem filledBy_unnamed {l : List (String × Value)} (h : "filled_quantity" ∉ l.map Prod.fst) :
    o.filledBy l = o.filledQuantity := by
  have hnone : l.lookup "filled_quantity" = none := by
    rw [List.lookup_eq_none_iff]
    intro e he
    have hne : "filled_quantity" ≠ e.1 := fun heq => h (heq ▸ List.mem_map_of_mem he)
    simpa using hne
  simp only [Order.filledBy, hnone, Option.bind_none]

theorem filledBy_le (h : o.filledQuantity ≤ o.quantity) (l : List (String × Value)) :
    o.filledBy l ≤ o.quantity ∧ o.filledQuantity ≤ o.filledBy l := by
  unfold Order.filledBy
  split
  · exact ⟨max_le h (min_le_right _ _), le_max_left _ _⟩
  · exact ⟨h, le_rfl⟩

/-- A walk that does not name the quantity, from a filled quantity within it. -/
theorem walk_within {l : List (String × Value)} (hn : (l.map Prod.fst).Nodup)
    (hq : "quantity" ∉ l.map Prod.fst) (h : o.filledQuantity ≤ o.quantity)
    (hc : InI64 o.cancelledQuantity) (acc rest : List (String × Value)) :
    ∃ o' acc', Order.writeLocal L o acc (l ++ rest) = Order.writeLocal L o' acc' rest ∧
      o'.quantity = o.quantity ∧ o'.filledQuantity = o.filledBy l ∧ InI64 o'.cancelledQuantity := by
  induction l generalizing o acc with
  | nil => exact ⟨o, acc, rfl, rfl, rfl, hc⟩
  | cons e l ih =>
      obtain ⟨key, v⟩ := e
      obtain ⟨hkey, hnodup⟩ := List.nodup_cons.mp hn
      simp only [List.map_cons, List.mem_cons, not_or] at hq
      rw [List.cons_append]
      by_cases hfilled : key = "filled_quantity"
      · subst hfilled
        have hwrite := writeLocal_filled (L := L) o acc v (l ++ rest)
        rw [setLocalField_filled] at hwrite
        cases hv : v.asI64 with
        | none =>
            rw [hv] at hwrite
            obtain ⟨acc', hwrite⟩ := hwrite
            obtain ⟨o', acc'', he, hq', hf', hc'⟩ := ih hnodup hq.2 h hc acc'
            refine ⟨o', acc'', hwrite.trans he, hq', hf'.trans ?_, hc'⟩
            rw [filledBy_unnamed hkey]
            simp [Order.filledBy, hv]
        | some n =>
            rw [hv] at hwrite
            dsimp only at hwrite
            rw [setFilled_eq h] at hwrite
            obtain ⟨acc', hwrite⟩ := hwrite
            obtain ⟨o', acc'', he, hq', hf', hc'⟩ :=
              ih (o := { o with filledQuantity := max o.filledQuantity (min n o.quantity) }) hnodup hq.2
                (max_le h (min_le_right _ _)) hc acc'
            refine ⟨o', acc'', hwrite.trans he, hq', hf'.trans ?_, hc'⟩
            rw [filledBy_unnamed hkey]
            simp [Order.filledBy, hv]
      · rcases writeLocal_cons (L := L) o acc key v (l ++ rest) with ⟨-, acc', he⟩ | ⟨-, -, he⟩
        · obtain ⟨o', acc'', he', hq', hf', hc'⟩ := ih hnodup hq.2 h hc acc'
          exact ⟨o', acc'', he.trans he', hq', hf'.trans (filledBy_cons_other hfilled v l rfl rfl).symm,
            hc'⟩
        · obtain ⟨o₁, hset, hq₁, hf₁, hc₁⟩ := setLocalField_other (L := L) (o := o) (Ne.symm hq.1) hfilled v
          rw [hset] at he
          obtain ⟨acc', he⟩ := he
          obtain ⟨o', acc'', he', hq', hf', hc'⟩ := ih hnodup hq.2 (hq₁ ▸ hf₁ ▸ h) (hc₁ hc) acc'
          exact ⟨o', acc'', he.trans he', hq'.trans hq₁,
            hf'.trans (filledBy_cons_other hfilled v l hq₁ hf₁).symm, hc'⟩

/-- A walk that does not name the quantity, from a filled quantity beyond it. -/
theorem walk_beyond {l : List (String × Value)} (hq : "quantity" ∉ l.map Prod.fst)
    (h : o.quantity < o.filledQuantity) (acc : List (String × Value)) :
    (Order.writeLocal L o acc l).1 ≠ none ∨
      (Order.writeLocal L o acc l).2.1.quantity < (Order.writeLocal L o acc l).2.1.filledQuantity := by
  induction l generalizing o acc with
  | nil => exact .inr h
  | cons e l ih =>
      obtain ⟨key, v⟩ := e
      simp only [List.map_cons, List.mem_cons, not_or] at hq
      by_cases hfilled : key = "filled_quantity"
      · subst hfilled
        have hwrite := writeLocal_filled (L := L) o acc v l
        rw [setLocalField_filled] at hwrite
        cases hv : v.asI64 with
        | none =>
            rw [hv] at hwrite
            obtain ⟨acc', hwrite⟩ := hwrite
            rw [hwrite]
            exact ih hq.2 h acc'
        | some n =>
            rw [hv] at hwrite
            dsimp only at hwrite
            rw [setFilled_panics h] at hwrite
            rw [hwrite]
            exact .inl nofun
      · rcases writeLocal_cons (L := L) o acc key v l with ⟨-, acc', he⟩ | ⟨-, -, he⟩
        · rw [he]
          exact ih hq.2 h acc'
        · obtain ⟨o₁, hset, hq₁, hf₁, -⟩ := setLocalField_other (L := L) (o := o) (Ne.symm hq.1) hfilled v
          rw [hset] at he
          obtain ⟨acc', he⟩ := he
          rw [he]
          exact ih hq.2 (by rw [hq₁, hf₁]; exact h) acc'

/-- A quantity that a modification names is not below what the walk has filled by then. -/
def Order.Covers (o : Order) (kwargs : Fields) : Prop :=
  ∀ n, (kwargs.get? "quantity").bind (·.asI64) = some n → o.filledBy (kwargs.before "quantity") ≤ n

theorem writeLocal_quantity (o : Order) (acc : List (String × Value)) (v : Value)
    (rest : List (String × Value)) :
    ∃ acc', Order.writeLocal L o acc (("quantity", v) :: rest) =
      Order.writeLocal L ((v.asI64.map fun n => { o with quantity := n }).getD o) acc' rest := by
  rcases writeLocal_cons (L := L) o acc "quantity" v rest with ⟨hskip, -⟩ | ⟨-, -, h⟩
  · rcases hskip with hf | hk
    · exact absurd hf (by decide)
    · cases hk
  · exact h

/-- A walk ends with the filled quantity within the quantity exactly where it covers what is filled. -/
theorem walk_iff (hw : o.Within) (kwargs : Fields) :
    ((Order.writeLocal L o [] kwargs.entries).1 = none ∧
        (Order.writeLocal L o [] kwargs.entries).2.1.filledQuantity ≤
          (Order.writeLocal L o [] kwargs.entries).2.1.quantity ↔ o.Covers kwargs) ∧
      (o.Covers kwargs → (Order.writeLocal L o [] kwargs.entries).1 = none ∧
        (Order.writeLocal L o [] kwargs.entries).2.1.Within ∧
        o.filledQuantity ≤ (Order.writeLocal L o [] kwargs.entries).2.1.filledQuantity) := by
  have done : ∀ {o₁ : Order} (acc) {l}, o₁.Within → o.filledQuantity ≤ o₁.filledQuantity →
      (l.map Prod.fst).Nodup → "quantity" ∉ l.map Prod.fst →
      (Order.writeLocal L o₁ acc l).1 = none ∧ (Order.writeLocal L o₁ acc l).2.1.Within ∧
        o.filledQuantity ≤ (Order.writeLocal L o₁ acc l).2.1.filledQuantity := by
    intro o₁ acc l h₁ hle hn hq
    obtain ⟨o', acc', he, hq', hf', hc'⟩ :=
      walk_within (L := L) hn hq h₁.quantity h₁.cancelledInRange acc []
    obtain ⟨hup, hlow⟩ := filledBy_le h₁.quantity l
    rw [List.append_nil] at he
    rw [he]
    refine ⟨rfl, ⟨?_, ?_, ?_, hc'⟩, ?_⟩
    · show 0 ≤ o'.filledQuantity
      rw [hf']
      exact h₁.filled.trans hlow
    · show o'.filledQuantity ≤ o'.quantity
      rw [hf', hq']
      exact hup
    · show InI64 o'.quantity
      rw [hq']
      exact h₁.inRange
    · show o.filledQuantity ≤ o'.filledQuantity
      rw [hf']
      exact hle.trans hlow
  rcases kwargs.split "quantity" with ⟨hget, -, hq⟩ | ⟨v, post, hget, hsplit, hpre, hpost⟩
  · have hcovers : o.Covers kwargs := fun n hn => by simp [hget] at hn
    have h := done [] hw le_rfl kwargs.distinct hq
    exact ⟨iff_of_true ⟨h.1, h.2.1.quantity⟩ hcovers, fun _ => h⟩
  · have hn : ((kwargs.before "quantity" ++ ("quantity", v) :: post).map Prod.fst).Nodup :=
      hsplit ▸ kwargs.distinct
    rw [List.map_append, List.map_cons] at hn
    obtain ⟨hnpre, hntail, -⟩ := List.nodup_append.mp hn
    obtain ⟨-, hnpost⟩ := List.nodup_cons.mp hntail
    obtain ⟨o₁, acc₁, he₁, hq₁, hf₁, hc₁⟩ := walk_within (L := L) hnpre hpre hw.quantity
      hw.cancelledInRange [] (("quantity", v) :: post)
    obtain ⟨acc₂, he₂⟩ := writeLocal_quantity (L := L) o₁ acc₁ v post
    obtain ⟨hup, hlow⟩ := filledBy_le hw.quantity (kwargs.before "quantity")
    rw [hsplit, he₁, he₂]
    cases hv : v.asI64 with
    | none =>
        have hcovers : o.Covers kwargs := fun n hn => by simp [hget, hv] at hn
        have h₁ : o₁.Within :=
          ⟨hf₁ ▸ hw.filled.trans hlow, hf₁ ▸ hq₁ ▸ hup, hq₁ ▸ hw.inRange, hc₁⟩
        have h := done acc₂ h₁ (hf₁ ▸ hlow) hnpost hpost
        exact ⟨iff_of_true ⟨h.1, h.2.1.quantity⟩ hcovers, fun _ => h⟩
    | some n =>
        have hcovers : o.Covers kwargs ↔ o.filledBy (kwargs.before "quantity") ≤ n := by
          simp [Order.Covers, hget, hv]
        rw [hcovers, ← hf₁]
        by_cases hle : o₁.filledQuantity ≤ n
        · have h₂ : Order.Within { o₁ with quantity := n } :=
            ⟨show 0 ≤ o₁.filledQuantity from hf₁ ▸ hw.filled.trans hlow, hle, Value.asI64_range hv, hc₁⟩
          have h := done acc₂ h₂ (show o.filledQuantity ≤ o₁.filledQuantity from hf₁ ▸ hlow) hnpost hpost
          exact ⟨iff_of_true ⟨h.1, h.2.1.quantity⟩ hle, fun _ => h⟩
        · refine ⟨iff_of_false (fun h => ?_) hle, fun h => absurd h hle⟩
          have hb : Order.quantity { o₁ with quantity := n } <
              Order.filledQuantity { o₁ with quantity := n } := not_le.mp hle
          rcases walk_beyond (L := L) hpost hb acc₂ with hp | hlt
          · exact hp h.1
          · exact absurd h.2 (not_le.mpr hlt)

/-! ## Updates that carry the filled quantity only -/

def filledOnly (v : Value) : Fields := ⟨[("filled_quantity", v)], by simp⟩

/-- The order after these updates, each with the time at which it arrives. -/
def Order.fillAll (L : Formats) (o : Order) (batch : List (Int × Value)) : Order :=
  (orderMachine L).final o (batch.map fun e => .update e.1 (filledOnly e.2))

/-- The status leaves an order open. -/
def Order.OpenStatus (o : Order) : Prop :=
  o.status ≠ some "COMPLETE" ∧ o.status ≠ some "CANCELED" ∧ o.status ≠ some "CANCELLED" ∧
    o.status ≠ some "REJECTED"

theorem isDone_open (hs : o.OpenStatus) (hr : InI64 (o.filledQuantity + o.cancelledQuantity)) :
    o.isDone = .ok (decide (o.quantity = o.filledQuantity ∨
      o.filledQuantity + o.cancelledQuantity = o.quantity)) := by
  obtain ⟨h₁, h₂, h₃, h₄⟩ := hs
  unfold Order.isDone Order.isComplete
  by_cases hq : o.quantity = o.filledQuantity
  · simp [hq, bind, Except.bind, pure, Except.pure]
  · rw [if_neg hq, if_neg h₁, checkedI64_ok hr]
    by_cases hsum : o.filledQuantity + o.cancelledQuantity = o.quantity
    · simp [hsum, Except.map, bind, Except.bind, pure, Except.pure]
    · simp [hq, h₂, h₃, h₄, hsum, Except.map, bind, Except.bind, pure, Except.pure]

theorem open_of_isDone (h : o.isDone = .ok false) :
    o.OpenStatus ∧ InI64 (o.filledQuantity + o.cancelledQuantity) := by
  unfold Order.isDone Order.isComplete at h
  by_cases hq : o.quantity = o.filledQuantity
  · simp [hq, bind, Except.bind, pure, Except.pure] at h
  · by_cases hs : o.status = some "COMPLETE"
    · simp [hq, hs, bind, Except.bind, pure, Except.pure] at h
    · rw [if_neg hq, if_neg hs] at h
      by_cases hr : InI64 (o.filledQuantity + o.cancelledQuantity)
      · rw [checkedI64_ok hr] at h
        by_cases hsum : o.filledQuantity + o.cancelledQuantity = o.quantity
        · simp [hsum, Except.map, bind, Except.bind, pure, Except.pure] at h
        · simp [hsum, Except.map, bind, Except.bind, pure, Except.pure] at h
          exact ⟨⟨hs, h.1.1, h.1.2, h.2⟩, hr⟩
      · simp [checkedI64, hr, Except.map, bind, Except.bind] at h

theorem update_filledOnly (hw : o.Within) (hd : o.isDone = .ok false) (now : Int) {v : Value} {n : Int}
    (hv : v.asI64 = some n) :
    o.update L now (filledOnly v) = (.ok true, { o with
      filledQuantity := max o.filledQuantity (min n o.quantity)
      lastUpdatedAt := some now
      pendingQuantity := some (o.quantity - max o.filledQuantity (min n o.quantity)) }) := by
  have hnull : v.isNull = false := by
    cases v <;> simp [Value.asI64, Value.isNull] at hv ⊢
  have hset : Order.updateAttr L (filledOnly v) o "filled_quantity" =
      .ok { o with filledQuantity := max o.filledQuantity (min n o.quantity) } := by
    rw [← setFilled_eq hw.quantity n]
    simp [Order.updateAttr, Order.setFromValue, Fields.get?, filledOnly, hnull, hv]
  have other : ∀ (o : Order) (key : String), key ≠ "filled_quantity" →
      Order.updateAttr L (filledOnly v) o key = .ok o := by
    intro o key hk
    have hne : (key == "filled_quantity") = false := by simpa using hk
    simp [Order.updateAttr, Fields.get?, filledOnly, List.lookup_cons, hne]
  have hwritten : Order.writeAttrs L (filledOnly v) o Order.attrs =
      (none, { o with filledQuantity := max o.filledQuantity (min n o.quantity) }) := by
    simp [Order.attrs, Order.writeAttrs, other, hset]
  have hrange : InI64 (o.quantity - max o.filledQuantity (min n o.quantity)) := by
    have h₁ := hw.inRange
    have h₂ := hw.filled
    have h₃ := hw.quantity
    unfold InI64 at h₁ ⊢
    omega
  unfold Order.update
  rw [hd, hwritten]
  dsimp only
  rw [if_neg (by simp [Fields.contains, Fields.get?, filledOnly]), checkedI64_ok hrange]

/-- Updates of an order that is done, or for which it cannot be told, leave it as it is. -/
theorem fillAll_done (hd : o.isDone ≠ .ok false) (batch : List (Int × Value)) : o.fillAll L batch = o := by
  have hone : ∀ now data, ((orderMachine L).step o (.update now data)).2 = o := by
    intro now data
    simp only [orderMachine, Order.step, Order.update]
    cases h : o.isDone with
    | error p => rfl
    | ok b =>
        cases b with
        | true => rfl
        | false => exact absurd h hd
  induction batch with
  | nil => rfl
  | cons e batch ih =>
      simp only [Order.fillAll, List.map_cons, Machine.final_cons, hone] at ih ⊢
      exact ih

/-- The filled quantity of an order up to the greatest of these. -/
def topFilled (quantity filled : Int) (ns : List Int) : Int :=
  ns.foldl (fun f n => max f (min n quantity)) filled

theorem topFilled_of_le {quantity filled : Int} {ns : List Int} (h : ∀ n ∈ ns, min n quantity ≤ filled) :
    topFilled quantity filled ns = filled := by
  induction ns with
  | nil => rfl
  | cons n ns ih =>
      simp only [topFilled, List.foldl_cons, max_eq_left (h n (by simp))] at ih ⊢
      exact ih fun m hm => h m (by simp [hm])

theorem topFilled_perm {quantity filled : Int} {ns ms : List Int} (h : ns.Perm ms) :
    topFilled quantity filled ns = topFilled quantity filled ms := by
  refine h.foldl_eq' (fun a _ b _ f => ?_) filled
  rw [max_assoc, max_assoc, max_comm (min a quantity)]

/-- What these updates make of an open order: the greatest of them counts. -/
theorem fillAll_open (hw : o.Within) (hd : o.isDone = .ok false) {batch : List (Int × Value)}
    (hb : ∀ e ∈ batch, ∃ n, e.2.asI64 = some n ∧ n + o.cancelledQuantity ≤ o.quantity) :
    (o.fillAll L batch).filledQuantity =
        topFilled o.quantity o.filledQuantity (batch.filterMap fun e => e.2.asI64) ∧
      (o.fillAll L batch).pendingQuantity = if batch = [] then o.pendingQuantity else
        some (o.quantity - topFilled o.quantity o.filledQuantity (batch.filterMap fun e => e.2.asI64)) := by
  induction batch generalizing o with
  | nil => exact ⟨rfl, rfl⟩
  | cons e batch ih =>
      obtain ⟨n, hv, hn⟩ := hb e (by simp)
      have hrest : ∀ e' ∈ batch, ∃ m, e'.2.asI64 = some m ∧ m + o.cancelledQuantity ≤ o.quantity :=
        fun e' he' => hb e' (by simp [he'])
      have hstep : ((orderMachine L).step o (.update e.1 (filledOnly e.2))).2 = { o with
          filledQuantity := max o.filledQuantity (min n o.quantity)
          lastUpdatedAt := some e.1
          pendingQuantity := some (o.quantity - max o.filledQuantity (min n o.quantity)) } := by
        simp only [orderMachine, Order.step, update_filledOnly hw hd e.1 hv]
      simp only [Order.fillAll, List.map_cons, Machine.final_cons, hstep, List.filterMap_cons, hv,
        topFilled, List.foldl_cons, reduceCtorEq, if_false]
      generalize ho₁ : ({ o with
          filledQuantity := max o.filledQuantity (min n o.quantity)
          lastUpdatedAt := some e.1
          pendingQuantity := some (o.quantity - max o.filledQuantity (min n o.quantity)) } : Order) = o₁
      have hq₁ : o₁.quantity = o.quantity := by rw [← ho₁]
      have hc₁ : o₁.cancelledQuantity = o.cancelledQuantity := by rw [← ho₁]
      have hf₁ : o₁.filledQuantity = max o.filledQuantity (min n o.quantity) := by rw [← ho₁]
      have hp₁ : o₁.pendingQuantity = some (o.quantity - max o.filledQuantity (min n o.quantity)) := by
        rw [← ho₁]
      have hs₁ : o₁.status = o.status := by rw [← ho₁]
      obtain ⟨hopen, hsum⟩ := open_of_isDone hd
      have hw₁ : o₁.Within := by
        refine ⟨?_, ?_, hq₁ ▸ hw.inRange, hc₁ ▸ hw.cancelledInRange⟩
        · rw [hf₁]
          exact hw.filled.trans (le_max_left _ _)
        · rw [hf₁, hq₁]
          exact max_le hw.quantity (min_le_right _ _)
      have hopen₁ : o₁.OpenStatus := by
        simp only [Order.OpenStatus, hs₁]
        exact hopen
      have hsum₁ : InI64 (o₁.filledQuantity + o₁.cancelledQuantity) := by
        have h₁ := hw.inRange
        have h₂ := hw.cancelledInRange
        have h₃ := hw.filled
        rw [hf₁, hc₁]
        unfold InI64 at h₁ h₂ hsum ⊢
        omega
      rw [← hf₁, ← hq₁]
      by_cases hdone : o₁.quantity = o₁.filledQuantity ∨
          o₁.filledQuantity + o₁.cancelledQuantity = o₁.quantity
      · have hd₁ : o₁.isDone ≠ .ok false := by
          rw [isDone_open hopen₁ hsum₁, decide_eq_true hdone]
          simp
        have hle : ∀ m ∈ batch.filterMap fun e => e.2.asI64, min m o₁.quantity ≤ o₁.filledQuantity := by
          intro m hm
          obtain ⟨e', he', hm'⟩ := List.mem_filterMap.mp hm
          obtain ⟨m', hm'', hle⟩ := hrest e' he'
          obtain rfl : m = m' := Option.some.inj (hm'.symm.trans hm'')
          rw [← hq₁, ← hc₁] at hle
          omega
        have hsame := fillAll_done (L := L) hd₁ batch
        simp only [Order.fillAll] at hsame
        rw [hsame]
        have htop := topFilled_of_le hle
        simp only [topFilled] at htop
        rw [htop]
        refine ⟨rfl, ?_⟩
        rw [hp₁, hf₁, hq₁]
      · have hd₁ : o₁.isDone = .ok false := by
          rw [isDone_open hopen₁ hsum₁, decide_eq_false hdone]
        obtain ⟨h₁, h₂⟩ := ih hw₁ hd₁ (by rw [hq₁, hc₁]; exact hrest)
        simp only [Order.fillAll, topFilled] at h₁ h₂
        refine ⟨h₁, h₂.trans ?_⟩
        split
        · rename_i hnil
          subst hnil
          rw [hp₁, hf₁, hq₁]
          rfl
        · rfl

/-- Updates that carry the filled quantity only come to the same whatever their order. -/
def Order.OrderFree (L : Formats) (o : Order) : Prop :=
  ∀ batch batch' : List (Int × Value), (batch.map Prod.snd).Perm (batch'.map Prod.snd) →
    (∀ e ∈ batch, ∃ n, e.2.asI64 = some n ∧ n + o.cancelledQuantity ≤ o.quantity) →
    (o.fillAll L batch).filledQuantity = (o.fillAll L batch').filledQuantity ∧
      (o.fillAll L batch).pendingQuantity = (o.fillAll L batch').pendingQuantity

theorem within_orderFree (hw : o.Within) : o.OrderFree L := by
  intro batch batch' hperm hb
  by_cases hd : o.isDone = .ok false
  · have hb' : ∀ e ∈ batch', ∃ n, e.2.asI64 = some n ∧ n + o.cancelledQuantity ≤ o.quantity := by
      intro e he
      obtain ⟨e', he', hsame⟩ := List.mem_map.mp (hperm.mem_iff.mpr (List.mem_map_of_mem he))
      rw [← hsame]
      exact hb e' he'
    have hvalues : ∀ l : List (Int × Value), (l.filterMap fun e => e.2.asI64) =
        (l.map Prod.snd).filterMap (·.asI64) := by
      intro l
      rw [List.filterMap_map]
      rfl
    have htop : topFilled o.quantity o.filledQuantity (batch.filterMap fun e => e.2.asI64) =
        topFilled o.quantity o.filledQuantity (batch'.filterMap fun e => e.2.asI64) := by
      rw [hvalues, hvalues]
      exact topFilled_perm (hperm.filterMap _)
    have hnil : batch = [] ↔ batch' = [] := by
      have := hperm.length_eq
      simp only [List.length_map] at this
      rw [← List.length_eq_zero_iff, ← List.length_eq_zero_iff, this]
    obtain ⟨h₁, h₂⟩ := fillAll_open (L := L) hw hd hb
    obtain ⟨h₁', h₂'⟩ := fillAll_open (L := L) hw hd hb'
    rw [h₁, h₁', h₂, h₂', htop]
    refine ⟨rfl, ?_⟩
    simp only [hnil]
  · rw [fillAll_done hd, fillAll_done hd]
    exact ⟨rfl, rfl⟩

/-! ## Runs -/

/-- A call does not panic, keeps the filled quantity from falling and within the quantity, and leaves an
order as it is that is done when it is updated. -/
structure StepSound (L : Formats) (o : Order) (call : OrderCall) : Prop where
  quiet : ∀ p, ((orderMachine L).step o call).1 ≠ .panicked p
  rises : o.filledQuantity ≤ ((orderMachine L).step o call).2.filledQuantity
  within : 0 ≤ ((orderMachine L).step o call).2.filledQuantity ∧
    ((orderMachine L).step o call).2.filledQuantity ≤ ((orderMachine L).step o call).2.quantity
  done : ∀ now data, call = .update now data → o.isDone = .ok true →
    ((orderMachine L).step o call).2 = o

/-- An update finds an order of which it can be told whether it is done, and a modification that is not
locked covers what is filled. -/
def Order.Admits (o : Order) : OrderCall → Prop
  | .update _ _ => o.Tellable
  | .modify now _ _ kwargs => o.lock.canModify now = true → o.Covers kwargs
  | .addLock .. => True

theorem addLock_sound (hw : o.Within) (now code : Int) (seconds : ℚ) :
    StepSound L o (.addLock now code seconds) ∧
      ((orderMachine L).step o (.addLock now code seconds)).2.Within := by
  obtain ⟨l, hstep⟩ := step_addLock (L := L) o now code seconds
  refine ⟨⟨?_, ?_, ?_, by intros; contradiction⟩, ?_⟩ <;> rw [hstep]
  · simp
  · exact ⟨hw.filled, hw.quantity⟩
  · exact ⟨hw.filled, hw.quantity, hw.inRange, hw.cancelledInRange⟩

/-- An update is sound where the order answers whether it is done: a done order is left as it is. -/
theorem update_sound_iff (hw : o.Within) (now : Int) (data : Fields) :
    (StepSound L o (.update now data) ↔ ∃ b, o.isDone = .ok b) ∧
      ((∃ b, o.isDone = .ok b) → ((orderMachine L).step o (.update now data)).2.Within) := by
  cases hd : o.isDone with
  | error p =>
      have hstep : (orderMachine L).step o (.update now data) = (.panicked p, o) := by
        simp only [orderMachine, Order.step, Order.update, hd]
      refine ⟨iff_of_false (fun h => h.quiet p ?_) ?_, ?_⟩
      · rw [hstep]
      · rintro ⟨b, hb⟩
        cases hb
      · rintro ⟨b, hb⟩
        cases hb
  | ok b =>
      cases b with
      | true =>
          have hstep : (orderMachine L).step o (.update now data) = (.updated false, o) := by
            simp only [orderMachine, Order.step, update_done hd]
          refine ⟨iff_of_true ⟨?_, ?_, ?_, fun _ _ _ _ => ?_⟩ ⟨true, rfl⟩, fun _ => ?_⟩ <;> rw [hstep]
          · simp
          · exact ⟨hw.filled, hw.quantity⟩
          · exact hw
      | false =>
          obtain ⟨o', he, hr⟩ := update_open (L := L) hw hd now data
          have hstep : (orderMachine L).step o (.update now data) = (.updated true, o') := by
            simp only [orderMachine, Order.step, he]
          have hw' := hr.keeps hw
          refine ⟨iff_of_true ⟨?_, ?_, ?_, fun _ _ _ hdone => ?_⟩ ⟨false, rfl⟩, fun _ => ?_⟩
          · rw [hstep]
            simp
          · rw [hstep]
            exact hr.filled
          · rw [hstep]
            exact ⟨hw'.filled, hw'.quantity⟩
          · rw [hd] at hdone
            cases hdone
          · rw [hstep]
            exact hw'

theorem locked_sound (hw : o.Within) {now : Int} (hl : o.lock.canModify now = false)
    (brokerAttrs attribsToCopy : Option (List String)) (kwargs : Fields) :
    StepSound L o (.modify now brokerAttrs attribsToCopy kwargs) := by
  refine ⟨?_, ?_, ?_, by intros; contradiction⟩ <;> rw [step_locked hl]
  · simp
  · exact ⟨hw.filled, hw.quantity⟩

/-- A modification that its lock lets through is sound where it covers what is filled. -/
theorem modify_sound_iff (hw : o.Within) {now : Int} (hl : o.lock.canModify now = true)
    (brokerAttrs attribsToCopy : Option (List String)) (kwargs : Fields) :
    (StepSound L o (.modify now brokerAttrs attribsToCopy kwargs) ↔ o.Covers kwargs) ∧
      (o.Covers kwargs →
        ((orderMachine L).step o (.modify now brokerAttrs attribsToCopy kwargs)).2.Within) := by
  obtain ⟨hiff, hkeeps⟩ := walk_iff (L := L) hw kwargs
  obtain ⟨hpanic, n, hstate⟩ := modify_walk (L := L) hl brokerAttrs attribsToCopy kwargs
  refine ⟨⟨fun h => hiff.mp ⟨?_, ?_⟩, fun hc => ?_⟩, fun hc => ?_⟩
  · by_contra hne
    obtain ⟨p, hp⟩ := hpanic.mpr hne
    exact h.quiet p hp
  · have hwithin := h.within.2
    rw [hstate] at hwithin
    exact hwithin
  · obtain ⟨hnone, hw', hle⟩ := hkeeps hc
    refine ⟨fun p hp => hpanic.mp ⟨p, hp⟩ hnone, ?_, ?_, by intros; contradiction⟩
    · rw [hstate]
      exact hle
    · rw [hstate]
      exact ⟨hw'.filled, hw'.quantity⟩
  · obtain ⟨-, hw', -⟩ := hkeeps hc
    rw [hstate]
    exact ⟨hw'.filled, hw'.quantity, hw'.inRange, hw'.cancelledInRange⟩

/-- A call is sound exactly when it is admitted. -/
theorem step_sound_iff (hw : o.Within) (call : OrderCall) :
    (StepSound L o call ↔ o.Admits call) ∧
      (o.Admits call → ((orderMachine L).step o call).2.Within) := by
  cases call with
  | addLock now code seconds =>
      obtain ⟨hsound, hwithin⟩ := addLock_sound (L := L) hw now code seconds
      exact ⟨iff_of_true hsound trivial, fun _ => hwithin⟩
  | update now data =>
      have hadmits : o.Admits (.update now data) ↔ ∃ b, o.isDone = .ok b := (isDone_ok_iff hw).symm
      rw [hadmits]
      exact update_sound_iff hw now data
  | modify now brokerAttrs attribsToCopy kwargs =>
      cases hl : o.lock.canModify now with
      | false =>
          have hadmits : o.Admits (.modify now brokerAttrs attribsToCopy kwargs) := fun h => by
            rw [hl] at h
            cases h
          refine ⟨iff_of_true (locked_sound hw hl _ _ _) hadmits, fun _ => ?_⟩
          rw [step_locked hl]
          exact hw
      | true =>
          have hadmits : o.Admits (.modify now brokerAttrs attribsToCopy kwargs) ↔ o.Covers kwargs := by
            simp only [Order.Admits, hl, true_implies]
          rw [hadmits]
          exact modify_sound_iff hw hl brokerAttrs attribsToCopy kwargs

/-- The numbers of a new order are numbers of the source. -/
def OrderInit.Ranged (init : OrderInit) : Prop :=
  InI64 init.quantity ∧ InI64 (init.cancelledQuantity.getD 0)

theorem fromInit_ok {init : OrderInit} {now : Int} {freshId : String} :
    Order.fromInit init now freshId = .ok o ↔
      0 ≤ init.quantity ∧ ∃ e, init.expiry now = .ok e ∧ o = init.build now freshId e := by
  unfold Order.fromInit
  by_cases hq : init.quantity < 0
  · rw [if_pos hq]
    exact iff_of_false nofun fun h => absurd h.1 (not_le.mpr hq)
  · rw [if_neg hq]
    simp only [not_lt.mp hq, true_and]
    cases he : init.expiry now with
    | error p => exact iff_of_false nofun (by rintro ⟨e, h, -⟩; cases h)
    | ok e => simp [bind, Except.bind, pure, Except.pure, eq_comm]

/-- In a run of updates, modifications and locks on a new order with its filled quantity within its
quantity, every call is sound, and updates that carry the filled quantity only come to the same in any
order at any time, exactly when every call is admitted where it is made. -/
theorem quantities_sound_iff (L : Formats) (init : OrderInit) (now : Int) (freshId : String) (o : Order)
    (h : Order.fromInit init now freshId = .ok o) (hr : init.Ranged)
    (hf : 0 ≤ init.filledQuantity.getD 0 ∧ init.filledQuantity.getD 0 ≤ init.quantity)
    (calls : List OrderCall) :
    (∀ pre call, pre ++ [call] <+: calls → StepSound L ((orderMachine L).final o pre) call) ∧
        (∀ pre, pre <+: calls → ((orderMachine L).final o pre).OrderFree L) ↔
      (orderMachine L).Always Order.Admits o calls := by
  obtain ⟨-, e, -, rfl⟩ := fromInit_ok.mp h
  have hw : (init.build now freshId e).Within := ⟨hf.1, hf.2, hr.1, hr.2⟩
  have hstep : ∀ (s : Order) (call : OrderCall), True → s.Within →
      (StepSound L s call ↔ s.Admits call) ∧ (s.Admits call → ((orderMachine L).step s call).2.Within) :=
    fun s call _ hs => step_sound_iff hs call
  have hcalls : ∀ call ∈ calls, True := fun _ _ => trivial
  have hiff := (orderMachine L).meets_iff_always hstep hw hcalls
  rw [hiff]
  refine ⟨fun hall => hall.1, fun hall => ⟨hall, fun pre hp => within_orderFree ?_⟩⟩
  exact Machine.Always.within _ (fun s call hv hs => (hstep s call hv hs).2) hw hcalls hall hp

namespace Sample

/-- Five of ten are filled. -/
def halfFilled : OrderInit := { symbol := "aapl", side := "buy", quantity := 10, filledQuantity := some 5 }

/-- The quantity goes up, then more is filled. -/
def raised : List OrderCall :=
  [.modify 1 none none (named "quantity" 12), .update 2 (named "filled_quantity" 12)]

theorem raised_admitted :
    (orderMachine plain).Always Order.Admits (halfFilled.build 0 "a" 86399) raised := by
  refine ⟨fun _ n hn => ?_, .inr (.inr (by decide)), trivial⟩
  have hbefore : (named "quantity" 12).before "quantity" = [] := rfl
  obtain rfl : 12 = n := Option.some.inj hn
  rw [hbefore]
  decide

/-- The quantity goes below what is filled, then more is filled. -/
def shrunk : List OrderCall :=
  [.modify 1 none none (named "quantity" 3), .update 2 (named "filled_quantity" 6)]

end Sample

open Sample in
/-- The quantity goes up and is filled, every call sound. -/
theorem quantities_sound_raised : ∃ o, Order.fromInit halfFilled 0 "a" = .ok o ∧
    (∀ pre call, pre ++ [call] <+: raised → StepSound plain ((orderMachine plain).final o pre) call) ∧
      ∀ pre, pre <+: raised → ((orderMachine plain).final o pre).OrderFree plain :=
  ⟨_, rfl, (quantities_sound_iff plain halfFilled 0 "a" _ rfl
    (by simp [OrderInit.Ranged, halfFilled, InI64]) (by simp [halfFilled]) raised).mpr raised_admitted⟩

open Sample in
/-- The update after the modification panics. -/
theorem shrunk_order_panics :
    ¬ ∀ (L : Formats) (init : OrderInit) (now : Int) (freshId : String) (o : Order),
      Order.fromInit init now freshId = .ok o → init.Ranged →
      0 ≤ init.filledQuantity.getD 0 ∧ init.filledQuantity.getD 0 ≤ init.quantity →
      ∀ calls pre call, pre ++ [call] <+: calls → StepSound L ((orderMachine L).final o pre) call := by
  intro h
  have hsound := h plain halfFilled 0 "a" _ rfl (by simp [OrderInit.Ranged, halfFilled, InI64])
    (by simp [halfFilled]) shrunk [.modify 1 none none (named "quantity" 3)]
    (.update 2 (named "filled_quantity" 6)) ⟨[], rfl⟩
  exact hsound.quiet .clamp rfl

end Omsrs.Basket
