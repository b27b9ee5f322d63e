import Omsrs.Basket.Lemmas.Walk

/-!
# A modified order and its broker

What the broker is told of a modified order is what the order holds from then on, and what it is not told
changes nothing, unless a field without a value is named, a number is out of range or read as another one,
or the local writes are made and the call then ends without the broker.
-/

namespace Omsrs.Basket
open Omsrs.Lib

variable {L : Formats} {o o' : Order} {β : Type}

/-! ## Fields -/

/-- What a local write leaves alone. -/
structure Order.Frame (key : String) (o o' : Order) : Prop where
  quantity : key ≠ "quantity" → o'.quantity = o.quantity
  price : key ≠ "price" → o'.price = o.price
  triggerPrice : key ≠ "trigger_price" → o'.triggerPrice = o.triggerPrice
  orderType : key ≠ "order_type" → o'.orderType = o.orderType
  disclosedQuantity : key ≠ "disclosed_quantity" → o'.disclosedQuantity = o.disclosedQuantity
  filledQuantity : key ≠ "filled_quantity" → o'.filledQuantity = o.filledQuantity
  orderId : o'.orderId = o.orderId
  numModifications : o'.numModifications = o.numModifications
  maxModifications : o'.maxModifications = o.maxModifications

theorem Order.Frame.refl (key : String) (o : Order) : o.Frame key o :=
  ⟨fun _ => rfl, fun _ => rfl, fun _ => rfl, fun _ => rfl, fun _ => rfl, fun _ => rfl, rfl, rfl, rfl⟩

theorem setFilled_frame {n : Int} (h : o.setFilled n = .ok o') : o.Frame "filled_quantity" o' := by
  unfold Order.setFilled at h
  cases hc : clampI64 n o.filledQuantity o.quantity with
  | error p => rw [hc] at h; cases h
  | ok clamped =>
      rw [hc] at h
      simp only [Except.map, Except.ok.injEq] at h
      split at h
      · subst h
        exact ⟨fun _ => rfl, fun _ => rfl, fun _ => rfl, fun _ => rfl, fun _ => rfl,
          fun hne => absurd rfl hne, rfl, rfl, rfl⟩
      · subst h
        exact .refl _ _

theorem setLocalField_frame {key : String} {v : Value} (h : o.setLocalField L key v = .ok o') :
    o.Frame key o' := by
  have written : ∀ {α : Type} {x : Option α} {f : α → Order},
      (Except.ok ((x.map f).getD o) : Except Panic Order) = .ok o' → (∀ a, o.Frame key (f a)) →
      o.Frame key o' := by
    intro α x f hx hf
    cases hx
    cases x with
    | none => exact .refl _ _
    | some a => exact hf a
  unfold Order.setLocalField at h
  split at h
  · exact written h fun _ =>
      { Order.Frame.refl _ o with quantity := fun hne => absurd rfl hne }
  · cases h
    exact { Order.Frame.refl _ o with price := fun hne => absurd rfl hne }
  · exact written h fun _ =>
      { Order.Frame.refl _ o with triggerPrice := fun hne => absurd rfl hne }
  · exact written h fun _ =>
      { Order.Frame.refl _ o with orderType := fun hne => absurd rfl hne }
  · exact written h fun _ =>
      { Order.Frame.refl _ o with disclosedQuantity := fun hne => absurd rfl hne }
  · exact written h fun _ => { Order.Frame.refl _ o with }
  · exact written h fun _ => { Order.Frame.refl _ o with }
  · exact written h fun _ => { Order.Frame.refl _ o with }
  · exact written h fun _ => { Order.Frame.refl _ o with }
  · exact written h fun _ => { Order.Frame.refl _ o with }
  · split at h
    · exact setFilled_frame h
    · cases h
      exact .refl _ _
  · exact written h fun _ => { Order.Frame.refl _ o with }
  · exact written h fun _ => { Order.Frame.refl _ o with }
  · exact written h fun _ => { Order.Frame.refl _ o with }
  · exact written h fun _ => { Order.Frame.refl _ o with }
  · cases h
    exact .refl _ _

/-- A field that one argument writes, where it is known. -/
structure Field (L : Formats) (β : Type) where
  key : String
  get : Order → β
  known : β → Bool
  put : β → Value → β
  unfrozen : Order.frozenAttrs.contains key = false
  attr : ∀ o : Order, (o.getAttr L key).isSome = known (get o)
  written : ∀ {o o' : Order} {v}, o.setLocalField L key v = .ok o' → get o' = put (get o) v
  frame : ∀ {o o' : Order} {key' v}, key' ≠ key → o.setLocalField L key' v = .ok o' → get o' = get o

/-- What the arguments of a walk make of a field. -/
def Field.after (F : Field L β) (b : β) (entries : List (String × Value)) : β :=
  match entries.lookup F.key with
  | some v => if F.known b then F.put b v else b
  | none => b

/-- A walk to its end writes a field by the one argument that names it. -/
theorem walk_field (F : Field L β) {l : List (String × Value)} (hn : (l.map Prod.fst).Nodup)
    (acc : List (String × Value)) (h : (Order.writeLocal L o acc l).1 = none) :
    F.get (Order.writeLocal L o acc l).2.1 = F.after (F.get o) l := by
  induction l generalizing o acc with
  | nil => rfl
  | cons e l ih =>
      obtain ⟨key, v⟩ := e
      obtain ⟨hkey, hnodup⟩ := List.nodup_cons.mp hn
      have hcons := writeLocal_cons (L := L) o acc key v l
      by_cases hF : key = F.key
      · subst hF
        have hrest : l.lookup F.key = none := lookup_eq_none.mpr hkey
        have hhere : F.after (F.get o) ((F.key, v) :: l) =
            if F.known (F.get o) then F.put (F.get o) v else F.get o := by
          simp only [Field.after, List.lookup_cons_self]
        rw [F.unfrozen, F.attr o] at hcons
        rw [hhere]
        rcases hcons with ⟨hskip, acc', he⟩ | ⟨-, hk, he⟩
        · have hk : F.known (F.get o) = false := hskip.resolve_left Bool.false_ne_true
          rw [he] at h ⊢
          rw [ih hnodup acc' h, hk]
          simp [Field.after, hrest]
        · cases hset : o.setLocalField L F.key v with
          | error p =>
              rw [hset] at he
              rw [he] at h
              cases h
          | ok o₁ =>
              rw [hset] at he
              obtain ⟨acc', he⟩ := he
              rw [he] at h ⊢
              rw [ih hnodup acc' h, if_pos hk, ← F.written hset]
              simp [Field.after, hrest]
      · have hne : (F.key == key) = false := by simpa using Ne.symm hF
        have hthere : ∀ b, F.after b ((key, v) :: l) = F.after b l := fun b => by
          simp only [Field.after, List.lookup_cons, hne]
        rw [hthere]
        rcases hcons with ⟨-, acc', he⟩ | ⟨-, -, he⟩
        · rw [he] at h ⊢
          exact ih hnodup acc' h
        · cases hset : o.setLocalField L key v with
          | error p =>
              rw [hset] at he
              rw [he] at h
              cases h
          | ok o₁ =>
              rw [hset] at he
              obtain ⟨acc', he⟩ := he
              rw [he] at h ⊢
              rw [ih hnodup acc' h, F.frame hF hset]

def quantityField (L : Formats) : Field L Int where
  key := "quantity"
  get := Order.quantity
  known := fun _ => true
  put := fun q v => v.asI64.getD q
  unfrozen := by decide
  attr := fun _ => rfl
  written := by
    intro o o' v h
    cases h
    cases v.asI64 <;> rfl
  frame := fun hne h => (setLocalField_frame h).quantity hne

def priceField (L : Formats) : Field L (Option ℚ) where
  key := "price"
  get := Order.price
  known := Option.isSome
  put := fun _ v => valueToDecimal L v
  unfrozen := by decide
  attr := fun _ => Option.isSome_map
  written := by
    intro o o' v h
    cases h
    rfl
  frame := fun hne h => (setLocalField_frame h).price hne

def triggerPriceField (L : Formats) : Field L ℚ where
  key := "trigger_price"
  get := Order.triggerPrice
  known := fun _ => true
  put := fun d v => (valueToDecimal L v).getD d
  unfrozen := by decide
  attr := fun _ => rfl
  written := by
    intro o o' v h
    cases h
    cases valueToDecimal L v <;> rfl
  frame := fun hne h => (setLocalField_frame h).triggerPrice hne

def orderTypeField (L : Formats) : Field L String where
  key := "order_type"
  get := Order.orderType
  known := fun _ => true
  put := fun s v => v.asStr.getD s
  unfrozen := by decide
  attr := fun _ => rfl
  written := by
    intro o o' v h
    cases h
    cases v.asStr <;> rfl
  frame := fun hne h => (setLocalField_frame h).orderType hne

def disclosedQuantityField (L : Formats) : Field L Int where
  key := "disclosed_quantity"
  get := Order.disclosedQuantity
  known := fun _ => true
  put := fun q v => v.asI64.getD q
  unfrozen := by decide
  attr := fun _ => rfl
  written := by
    intro o o' v h
    cases h
    cases v.asI64 <;> rfl
  frame := fun hne h => (setLocalField_frame h).disclosedQuantity hne

/-! ## Where a walk ends -/

/-- A relation that every write of a named argument meets holds between the ends of a walk. -/
theorem walk_relates {R : Order → Order → Prop} (hrefl : ∀ o, R o o)
    (htrans : ∀ {o o' o''}, R o o' → R o' o'' → R o o'') {l : List (String × Value)}
    (hwrite : ∀ {o o' key v}, key ∈ l.map Prod.fst → o.setLocalField L key v = .ok o' → R o o')
    (o : Order) (acc : List (String × Value)) : R o (Order.writeLocal L o acc l).2.1 := by
  induction l generalizing o acc with
  | nil => exact hrefl o
  | cons e l ih =>
      obtain ⟨key, v⟩ := e
      have hrest := ih fun hk => hwrite (List.mem_cons_of_mem _ hk)
      rcases writeLocal_cons (L := L) o acc key v l with ⟨-, acc', he⟩ | ⟨-, -, he⟩
      · rw [he]
        exact hrest o acc'
      · cases hset : o.setLocalField L key v with
        | error p =>
            rw [hset] at he
            rw [he]
            exact hrefl o
        | ok o₁ =>
            rw [hset] at he
            obtain ⟨acc', he⟩ := he
            rw [he]
            exact htrans (hwrite (by simp) hset) (hrest o₁ acc')

theorem setLocalField_ok {key : String} (hf : key ≠ "filled_quantity") (v : Value) :
    ∃ o', o.setLocalField L key v = .ok o' := by
  unfold Order.setLocalField
  split
  all_goals first | exact ⟨_, rfl⟩ | exact absurd rfl hf

/-- Only the filled quantity can end a walk early. -/
theorem walk_quiet {l : List (String × Value)} (hf : "filled_quantity" ∉ l.map Prod.fst) (o : Order)
    (acc : List (String × Value)) : (Order.writeLocal L o acc l).1 = none := by
  induction l generalizing o acc with
  | nil => rfl
  | cons e l ih =>
      obtain ⟨key, v⟩ := e
      simp only [List.map_cons, List.mem_cons, not_or] at hf
      rcases writeLocal_cons (L := L) o acc key v l with ⟨-, acc', he⟩ | ⟨-, -, he⟩
      · rw [he]
        exact ih hf.2 o acc'
      · obtain ⟨o₁, hset⟩ := setLocalField_ok (L := L) (o := o) (Ne.symm hf.1) v
        rw [hset] at he
        obtain ⟨acc', he⟩ := he
        rw [he]
        exact ih hf.2 o₁ acc'

/-- A filled quantity is named where the quantity by then is below what is filled. -/
def Order.Clamps (L : Formats) (o : Order) (kwargs : Fields) : Prop :=
  ((kwargs.get? "filled_quantity").bind (·.asI64)).isSome = true ∧
    (quantityField L).after o.quantity (kwargs.before "filled_quantity") < o.filledQuantity

/-- A modification that clamps ends its walk at the filled quantity, any other at the end. -/
theorem walk_ends (o : Order) (kwargs : Fields) :
    (o.Clamps L kwargs → (Order.writeLocal L o [] kwargs.entries).1 ≠ none ∧
        (Order.writeLocal L o [] (kwargs.before "filled_quantity")).1 = none ∧
        (Order.writeLocal L o [] kwargs.entries).2.1 =
          (Order.writeLocal L o [] (kwargs.before "filled_quantity")).2.1) ∧
      (¬ o.Clamps L kwargs → (Order.writeLocal L o [] kwargs.entries).1 = none) := by
  rcases kwargs.split "filled_quantity" with ⟨hget, -, hf⟩ | ⟨v, post, hget, hsplit, hpre, hpost⟩
  · refine ⟨fun h => ?_, fun _ => walk_quiet hf o []⟩
    rw [Order.Clamps, hget] at h
    cases h.1
  · have hn : ((kwargs.before "filled_quantity" ++ ("filled_quantity", v) :: post).map Prod.fst).Nodup :=
      hsplit ▸ kwargs.distinct
    rw [List.map_append] at hn
    have hquiet := walk_quiet (L := L) hpre o []
    have hq : (Order.writeLocal L o [] (kwargs.before "filled_quantity")).2.1.quantity =
        (quantityField L).after o.quantity (kwargs.before "filled_quantity") :=
      walk_field (quantityField L) (List.nodup_append.mp hn).1 [] hquiet
    have hfilled : (Order.writeLocal L o [] (kwargs.before "filled_quantity")).2.1.filledQuantity =
        o.filledQuantity := by
      refine walk_relates (R := fun o o' => o'.filledQuantity = o.filledQuantity) (fun _ => rfl)
        (fun h h' => h'.trans h) (fun hk hset => ?_) o []
      exact (setLocalField_frame hset).filledQuantity fun he => hpre (he ▸ hk)
    have hwhole := writeLocal_append (L := L) o [] (kwargs.before "filled_quantity")
      (("filled_quantity", v) :: post)
    rw [← hsplit] at hwhole
    unfold Order.Clamps
    rw [hwhole, hget, Option.bind_some, ← hq, ← hfilled]
    rcases hw : Order.writeLocal L o [] (kwargs.before "filled_quantity") with ⟨p, o₁, acc₁⟩
    rw [hw] at hquiet
    obtain rfl : p = none := hquiet
    have hhere := writeLocal_filled (L := L) o₁ acc₁ v post
    dsimp only
    rw [setLocalField_filled] at hhere
    cases hv : v.asI64 with
    | none =>
        rw [hv] at hhere
        obtain ⟨acc', he⟩ := hhere
        refine ⟨fun h => absurd h.1 Bool.false_ne_true, fun _ => ?_⟩
        rw [he]
        exact walk_quiet hpost o₁ acc'
    | some n =>
        rw [hv] at hhere
        dsimp only at hhere
        by_cases hlt : o₁.quantity < o₁.filledQuantity
        · rw [setFilled_panics hlt] at hhere
          dsimp only at hhere
          rw [hhere]
          exact ⟨fun _ => ⟨nofun, rfl, rfl⟩, fun h => absurd ⟨rfl, hlt⟩ h⟩
        · rw [setFilled_eq (not_lt.mp hlt)] at hhere
          obtain ⟨acc', he⟩ := hhere
          refine ⟨fun h => absurd h.2 hlt, fun _ => ?_⟩
          rw [he]
          exact walk_quiet hpost _ acc'

/-! ## Terms -/

/-- The five fields that the broker is told. -/
structure Terms where
  quantity : Int
  price : Option ℚ
  triggerPrice : ℚ
  orderType : String
  disclosedQuantity : Int
deriving DecidableEq

def Order.terms (o : Order) : Terms :=
  ⟨o.quantity, o.price, o.triggerPrice, o.orderType, o.disclosedQuantity⟩

/-- What these arguments name of the five fields is as it stands, or is not written. -/
structure Order.Stands (L : Formats) (o : Order) (entries : List (String × Value)) : Prop where
  quantity : ∀ n, (entries.lookup "quantity").bind (·.asI64) = some n → n = o.quantity
  price : ∀ v, entries.lookup "price" = some v → o.price.isSome = true → valueToDecimal L v = o.price
  triggerPrice : ∀ d, (entries.lookup "trigger_price").bind (valueToDecimal L) = some d →
    d = o.triggerPrice
  orderType : ∀ s, (entries.lookup "order_type").bind (·.asStr) = some s → s = o.orderType
  disclosedQuantity : ∀ n, (entries.lookup "disclosed_quantity").bind (·.asI64) = some n →
    n = o.disclosedQuantity

/-- A field that keeps its value where the argument cannot be read. -/
theorem after_eq_iff {γ : Type} (F : Field L γ) {read : Value → Option γ}
    (hknown : ∀ b, F.known b = true) (hput : ∀ b v, F.put b v = (read v).getD b) (b : γ)
    (entries : List (String × Value)) :
    F.after b entries = b ↔ ∀ c, (entries.lookup F.key).bind read = some c → c = b := by
  unfold Field.after
  cases entries.lookup F.key with
  | none => simp
  | some v =>
      simp only [hknown, if_true, hput, Option.bind_some]
      cases read v with
      | none => simp
      | some c => simp

/-- A walk to its end leaves the five fields exactly where they stand in what it names. -/
theorem walk_terms {l : List (String × Value)} (hn : (l.map Prod.fst).Nodup) (o : Order)
    (h : (Order.writeLocal L o [] l).1 = none) :
    (Order.writeLocal L o [] l).2.1.terms = o.terms ↔ o.Stands L l := by
  have hquantity : (Order.writeLocal L o [] l).2.1.quantity = (quantityField L).after o.quantity l :=
    walk_field (quantityField L) hn [] h
  have hprice : (Order.writeLocal L o [] l).2.1.price = (priceField L).after o.price l :=
    walk_field (priceField L) hn [] h
  have htrigger : (Order.writeLocal L o [] l).2.1.triggerPrice =
      (triggerPriceField L).after o.triggerPrice l := walk_field (triggerPriceField L) hn [] h
  have htype : (Order.writeLocal L o [] l).2.1.orderType = (orderTypeField L).after o.orderType l :=
    walk_field (orderTypeField L) hn [] h
  have hdisclosed : (Order.writeLocal L o [] l).2.1.disclosedQuantity =
      (disclosedQuantityField L).after o.disclosedQuantity l :=
    walk_field (disclosedQuantityField L) hn [] h
  have hafter : (priceField L).after o.price l = o.price ↔
      ∀ v, l.lookup "price" = some v → o.price.isSome = true → valueToDecimal L v = o.price := by
    simp only [Field.after, priceField]
    cases l.lookup "price" with
    | none => simp
    | some v => cases o.price <;> simp
  simp only [Order.terms, Terms.mk.injEq]
  rw [hquantity, hprice, htrigger, htype, hdisclosed, hafter,
    after_eq_iff (quantityField L) (fun _ => rfl) (fun _ _ => rfl),
    after_eq_iff (triggerPriceField L) (fun _ => rfl) (fun _ _ => rfl),
    after_eq_iff (orderTypeField L) (fun _ => rfl) (fun _ _ => rfl),
    after_eq_iff (disclosedQuantityField L) (fun _ => rfl) (fun _ _ => rfl)]
  exact ⟨fun ⟨h₁, h₂, h₃, h₄, h₅⟩ => ⟨h₁, h₂, h₃, h₄, h₅⟩, fun h => ⟨h.1, h.2, h.3, h.4, h.5⟩⟩

/-! ## What the broker is told -/

/-- The number that a decimal text writes; underscores only part its digits. -/
def decimalLiteral (s : String) : Option ℚ :=
  let part (cs : List Char) : Option Nat := if cs.isEmpty then some 0 else digits cs
  let unsigned (cs : List Char) : Option ℚ :=
    match cs.splitOn '.' with
    | [whole] => (digits whole).map fun n => (n : ℚ)
    | [whole, fraction] =>
        if whole.isEmpty && fraction.isEmpty then none
        else (part whole).bind fun w => (part fraction).map fun f => w + f / 10 ^ fraction.length
    | _ => none
  match s.toList.filter (· ≠ '_') with
  | '-' :: cs => (unsigned cs).map fun d => -d
  | '+' :: cs => unsigned cs
  | cs => unsigned cs

example : decimalLiteral "-12.50" = some (-25 / 2) ∧ decimalLiteral "1_000" = some 1000 := by decide +kernel

/-- The number that a value states, whatever the code reads of it. -/
def Value.stated : Value → Option ℚ
  | .number (.int n) => some n
  | .number (.float x) => some x
  | .string s => decimalLiteral s
  | _ => none

/-- A value is the text of a decimal, or states the same number. -/
def Tells (L : Formats) (v : Value) (d : ℚ) : Prop := v = decimalValue L d ∨ v.stated = some d

/-- What the broker is told is what the order holds. -/
structure Terms.InStep (L : Formats) (oid : String) (t : Terms) (args : OrdMap String Value) : Prop where
  orderId : args.get? "order_id" = some (.string oid)
  quantity : args.get? "quantity" = some (.int t.quantity)
  price : ∀ d, t.price = some d → ∃ v, args.get? "price" = some v ∧ Tells L v d
  noPrice : t.price = none → args.get? "price" = none
  triggerPrice : ∃ v, args.get? "trigger_price" = some v ∧ Tells L v t.triggerPrice
  orderType : ∃ s, args.get? "order_type" = some (.string s) ∧
    (s = t.orderType ∨ s = L.toUppercase t.orderType)
  disclosedQuantity : args.get? "disclosed_quantity" = some (.int t.disclosedQuantity)

/-- The arguments of the broker, as a modification layers them. -/
def Order.layered (L : Formats) (o o' : Order) (brokerAttrs attribsToCopy : Option (List String))
    (added : List (String × Value)) (kwargs : Fields) : OrdMap String Value :=
  (((OrdMap.empty.insertAll (o'.modifyArgs L)).insertAll
      (o.getOtherArgsFromAttribs L brokerAttrs attribsToCopy).entries).insertAll added).insertAll
    (Order.keysForBroker.filterMap fun key => (kwargs.get? key).map fun v => (key, v))

/-- A copied attribute is the attribute that the order had. -/
theorem otherArgs_get {brokerAttrs attribsToCopy : Option (List String)} {key : String} {v : Value}
    (h : (o.getOtherArgsFromAttribs L brokerAttrs attribsToCopy).get? key = some v) :
    o.getAttr L key = some v := by
  obtain ⟨key', -, he⟩ := List.mem_filterMap.mp (OrdMap.mem_of_get?_insertAll h)
  split at he
  · rename_i w hw
    split at he
    · cases he
    · cases he
      exact hw
  · cases he

/-- A key of the broker carries the argument that names it, else the attribute as copied, else what the
order holds. -/
theorem layered_get {brokerAttrs attribsToCopy : Option (List String)} {added : List (String × Value)}
    {kwargs : Fields} (hadded : ∀ key ∈ added.map Prod.fst, key ∈ kwargs.entries.map Prod.fst)
    {key : String} (hk : key ∈ Order.keysForBroker) :
    (o.layered L o' brokerAttrs attribsToCopy added kwargs).get? key =
      (kwargs.get? key).or (((o.getOtherArgsFromAttribs L brokerAttrs attribsToCopy).get? key).or
        ((OrdMap.empty.insertAll (o'.modifyArgs L)).get? key)) := by
  have hlast : (OrdMap.empty.insertAll
      (Order.keysForBroker.filterMap fun key => (kwargs.get? key).map fun v => (key, v))).get? key =
        kwargs.get? key := by
    cases hget : kwargs.get? key with
    | none =>
        refine OrdMap.get?_insertAll_none.mpr fun hm => ?_
        obtain ⟨⟨key', v⟩, he, rfl⟩ := List.mem_map.mp hm
        obtain ⟨key'', -, hv⟩ := List.mem_filterMap.mp he
        obtain ⟨w, hw, hpair⟩ := Option.map_eq_some_iff.mp hv
        cases hpair
        rw [hget] at hw
        cases hw
    | some v =>
        have hm : (key, v) ∈ Order.keysForBroker.filterMap fun key =>
            (kwargs.get? key).map fun v => (key, v) :=
          List.mem_filterMap.mpr ⟨key, hk, by rw [hget]; rfl⟩
        cases hfound : (OrdMap.empty.insertAll (Order.keysForBroker.filterMap fun key =>
            (kwargs.get? key).map fun v => (key, v))).get? key with
        | none => exact absurd (List.mem_map_of_mem hm) (OrdMap.get?_insertAll_none.mp hfound)
        | some w =>
            obtain ⟨key', -, hw⟩ := List.mem_filterMap.mp (OrdMap.mem_of_get?_insertAll hfound)
            obtain ⟨w', hw', hpair⟩ := Option.map_eq_some_iff.mp hw
            cases hpair
            rw [hget] at hw'
            exact hw'.symm
  unfold Order.layered
  rw [OrdMap.get?_insertAll, hlast]
  cases hget : kwargs.get? key with
  | some v => rfl
  | none =>
      have hnone : (OrdMap.empty.insertAll added).get? key = none :=
        OrdMap.get?_insertAll_none.mpr fun hm => lookup_eq_none.mp hget (hadded key hm)
      rw [OrdMap.get?_insertAll, hnone, OrdMap.get?_insertAll, OrdMap.insertAll_entries]
      rfl

theorem modifyArgs_get (L : Formats) (o : Order) :
    (OrdMap.empty.insertAll (o.modifyArgs L)).get? "order_id" = o.orderId.map .string ∧
      (OrdMap.empty.insertAll (o.modifyArgs L)).get? "quantity" = some (.int o.quantity) ∧
      (OrdMap.empty.insertAll (o.modifyArgs L)).get? "price" = o.price.map (decimalValue L) ∧
      (OrdMap.empty.insertAll (o.modifyArgs L)).get? "trigger_price" =
        some (decimalValue L o.triggerPrice) ∧
      (OrdMap.empty.insertAll (o.modifyArgs L)).get? "order_type" =
        some (.string (L.toUppercase o.orderType)) ∧
      (OrdMap.empty.insertAll (o.modifyArgs L)).get? "disclosed_quantity" =
        some (.int o.disclosedQuantity) := by
  unfold Order.modifyArgs
  cases o.orderId <;> cases o.price <;> simp [OrdMap.get?_insert]

/-! ## Modifications with well typed arguments -/

/-- The types that a modification asks of its arguments; a price may be any value. -/
structure WellTyped (kwargs : Fields) : Prop where
  quantity : ∀ v, kwargs.get? "quantity" = some v → ∃ n, v = .int n
  orderType : ∀ v, kwargs.get? "order_type" = some v → ∃ s, v = .string s
  disclosedQuantity : ∀ v, kwargs.get? "disclosed_quantity" = some v → ∃ n, v = .int n
  unnamed : ∀ key ∈ ["order_id", "symbol", "side"], kwargs.get? key = none

/-- A number that is named is in range, a price is named of an order that has one, and it and a trigger
price are read as the numbers that they state. -/
structure Order.Conveys (L : Formats) (o : Order) (kwargs : Fields) : Prop where
  quantity : ∀ n, kwargs.get? "quantity" = some (.int n) → InI64 n
  price : ∀ v, kwargs.get? "price" = some v →
    o.price.isSome = true ∧ ∃ d, valueToDecimal L v = some d ∧ Tells L v d
  triggerPrice : ∀ v, kwargs.get? "trigger_price" = some v →
    Tells L v ((valueToDecimal L v).getD o.triggerPrice)
  disclosedQuantity : ∀ n, kwargs.get? "disclosed_quantity" = some (.int n) → InI64 n

/-- An order that its broker knows, with numbers of the source. -/
structure Order.Known (oid : String) (o : Order) : Prop where
  orderId : o.orderId = some oid
  quantity : InI64 o.quantity
  disclosedQuantity : InI64 o.disclosedQuantity

/-- What a walk leaves alone in any case. -/
theorem walk_fixed (o : Order) (acc l : List (String × Value)) :
    (Order.writeLocal L o acc l).2.1.orderId = o.orderId ∧
      (Order.writeLocal L o acc l).2.1.numModifications = o.numModifications ∧
      (Order.writeLocal L o acc l).2.1.maxModifications = o.maxModifications := by
  refine walk_relates (R := fun o o' => o'.orderId = o.orderId ∧
    o'.numModifications = o.numModifications ∧ o'.maxModifications = o.maxModifications)
    (fun _ => ⟨rfl, rfl, rfl⟩) (fun h h' => ?_) (fun _ hset => ?_) o acc
  · exact ⟨h'.1.trans h.1, h'.2.1.trans h.2.1, h'.2.2.trans h.2.2⟩
  · have hframe := setLocalField_frame hset
    exact ⟨hframe.orderId, hframe.numModifications, hframe.maxModifications⟩

/-! ## What is told of each field -/

/-- How the arguments of the broker come about: from the argument that names them, else from the order
before or after the walk. -/
structure Told (L : Formats) (o o' : Order) (kwargs : Fields) (args : OrdMap String Value) : Prop where
  named : ∀ key ∈ Order.keysForBroker, ∀ v, kwargs.get? key = some v → args.get? key = some v
  unnamed : ∀ key ∈ Order.keysForBroker, kwargs.get? key = none → args.get? key = o.getAttr L key ∨
    args.get? key = (OrdMap.empty.insertAll (o'.modifyArgs L)).get? key
  field : ∀ {γ : Type} (F : Field L γ), F.get o' = F.after (F.get o) kwargs.entries
  orderId : o'.orderId = o.orderId

theorem told_layered {kwargs : Fields} {added : List (String × Value)}
    (hwalk : Order.writeLocal L o [] kwargs.entries = (none, o', added))
    (brokerAttrs attribsToCopy : Option (List String)) :
    Told L o o' kwargs (o.layered L o' brokerAttrs attribsToCopy added kwargs) := by
  have hnone : (Order.writeLocal L o [] kwargs.entries).1 = none := by rw [hwalk]
  have hadded : ∀ key ∈ added.map Prod.fst, key ∈ kwargs.entries.map Prod.fst := by
    intro key hk
    have hmem : key ∈ (Order.writeLocal L o [] kwargs.entries).2.2.map Prod.fst := by
      rw [hwalk]
      exact hk
    exact (writeLocal_added o [] kwargs.entries hmem).resolve_left (by simp)
  refine ⟨?_, ?_, ?_, ?_⟩
  · intro key hk v hget
    rw [layered_get hadded hk, hget, Option.some_or]
  · intro key hk hget
    rw [layered_get hadded hk, hget, Option.none_or]
    cases hother : (o.getOtherArgsFromAttribs L brokerAttrs attribsToCopy).get? key with
    | none => exact .inr rfl
    | some v => exact .inl (otherArgs_get hother).symm
  · intro γ F
    have h := walk_field F kwargs.distinct [] hnone
    rwa [hwalk] at h
  · have h := (walk_fixed (L := L) o [] kwargs.entries).1
    rwa [hwalk] at h

theorem after_named {F : Field L β} {kwargs : Fields} {v : Value} (h : kwargs.get? F.key = some v)
    (b : β) : F.after b kwargs.entries = if F.known b then F.put b v else b := by
  unfold Field.after
  rw [show kwargs.entries.lookup F.key = some v from h]

theorem after_unnamed {F : Field L β} {kwargs : Fields} (h : kwargs.get? F.key = none) (b : β) :
    F.after b kwargs.entries = b := by
  unfold Field.after
  rw [show kwargs.entries.lookup F.key = none from h]

section

variable {oid : String} {kwargs : Fields} {args : OrdMap String Value}

/-- A whole number is told as the order holds it exactly where what is named is in range. -/
theorem Told.int_iff (h : Told L o o' kwargs args) {F : Field L Int} (hk : F.key ∈ Order.keysForBroker)
    (hknown : ∀ b, F.known b = true) (hput : ∀ b v, F.put b v = v.asI64.getD b)
    (hattr : o.getAttr L F.key = some (.int (F.get o)))
    (hheld : (OrdMap.empty.insertAll (o'.modifyArgs L)).get? F.key = some (.int (F.get o')))
    (hq : InI64 (F.get o)) (ht : ∀ v, kwargs.get? F.key = some v → ∃ n, v = .int n) :
    args.get? F.key = some (.int (F.get o')) ↔ ∀ n, kwargs.get? F.key = some (.int n) → InI64 n := by
  cases hget : kwargs.get? F.key with
  | none =>
      have hsame : F.get o' = F.get o := (h.field F).trans (after_unnamed hget _)
      refine iff_of_true ?_ nofun
      rcases h.unnamed _ hk hget with htold | htold
      · rw [htold, hattr, hsame]
      · rw [htold, hheld]
  | some v =>
      obtain ⟨n, rfl⟩ := ht v hget
      have hwritten : F.get o' = (Value.int n).asI64.getD (F.get o) := by
        rw [h.field F, after_named hget, if_pos (hknown _), hput]
      rw [h.named _ hk _ hget, hwritten]
      simp only [Value.int, Value.asI64, Option.some.injEq, Value.number.injEq, Number.int.injEq,
        forall_eq']
      by_cases hn : InI64 n
      · simp [hn]
      · have hne : n ≠ F.get o := fun he => hn (he ▸ hq)
        simp [hn, hne]

theorem Told.price_iff (h : Told L o o' kwargs args) :
    (∀ d, o'.price = some d → ∃ v, args.get? "price" = some v ∧ Tells L v d) ∧
        (o'.price = none → args.get? "price" = none) ↔
      ∀ v, kwargs.get? "price" = some v →
        o.price.isSome = true ∧ ∃ d, valueToDecimal L v = some d ∧ Tells L v d := by
  cases hget : kwargs.get? "price" with
  | none =>
      have hsame : o'.price = o.price := (h.field (priceField L)).trans (after_unnamed hget _)
      have htold : args.get? "price" = o.price.map (decimalValue L) := by
        rcases h.unnamed "price" (by decide) hget with htold | htold
        · exact htold
        · rw [htold, (modifyArgs_get L o').2.2.1, hsame]
      refine iff_of_true ⟨fun d hd => ⟨decimalValue L d, ?_, .inl rfl⟩, fun hd => ?_⟩ nofun
      · rw [htold, ← hsame, hd]
        rfl
      · rw [htold, ← hsame, hd]
        rfl
  | some v =>
      have hwritten : o'.price = if o.price.isSome then valueToDecimal L v else o.price :=
        (h.field (priceField L)).trans (after_named hget _)
      rw [h.named "price" (by decide) v hget, hwritten]
      cases o.price with
      | none =>
          refine iff_of_false (fun hboth => ?_) (by simp)
          cases hboth.2 rfl
      | some p =>
          simp only [Option.some.injEq, forall_eq', Option.isSome_some, true_and, if_true]
          cases valueToDecimal L v <;> simp

theorem Told.triggerPrice_iff (h : Told L o o' kwargs args) :
    (∃ v, args.get? "trigger_price" = some v ∧ Tells L v o'.triggerPrice) ↔
      ∀ v, kwargs.get? "trigger_price" = some v →
        Tells L v ((valueToDecimal L v).getD o.triggerPrice) := by
  cases hget : kwargs.get? "trigger_price" with
  | none =>
      have hsame : o'.triggerPrice = o.triggerPrice :=
        (h.field (triggerPriceField L)).trans (after_unnamed hget _)
      refine iff_of_true ⟨decimalValue L o'.triggerPrice, ?_, .inl rfl⟩ nofun
      rcases h.unnamed "trigger_price" (by decide) hget with htold | htold
      · rw [htold, hsame]
        rfl
      · rw [htold, (modifyArgs_get L o').2.2.2.1]
  | some v =>
      have hwritten : o'.triggerPrice = (valueToDecimal L v).getD o.triggerPrice :=
        (h.field (triggerPriceField L)).trans (after_named hget _)
      rw [h.named "trigger_price" (by decide) v hget, hwritten]
      simp

theorem Told.orderType (h : Told L o o' kwargs args) (ht : WellTyped kwargs) :
    ∃ s, args.get? "order_type" = some (.string s) ∧ (s = o'.orderType ∨ s = L.toUppercase o'.orderType) := by
  cases hget : kwargs.get? "order_type" with
  | none =>
      have hsame : o'.orderType = o.orderType :=
        (h.field (orderTypeField L)).trans (after_unnamed hget _)
      rcases h.unnamed "order_type" (by decide) hget with htold | htold
      · exact ⟨o.orderType, htold, .inl hsame.symm⟩
      · exact ⟨_, htold.trans (modifyArgs_get L o').2.2.2.2.1, .inr rfl⟩
  | some v =>
      obtain ⟨s, rfl⟩ := ht.orderType v hget
      have hwritten : o'.orderType = s :=
        (h.field (orderTypeField L)).trans (after_named (F := orderTypeField L) hget o.orderType)
      exact ⟨s, h.named "order_type" (by decide) _ hget, .inl hwritten.symm⟩

theorem Told.orderIdGet (h : Told L o o' kwargs args) (ht : WellTyped kwargs)
    (hi : o.orderId = some oid) : args.get? "order_id" = some (.string oid) := by
  rcases h.unnamed "order_id" (by decide) (ht.unnamed _ (by simp)) with htold | htold
  · rw [htold]
    simp [Order.getAttr, hi]
  · rw [htold, (modifyArgs_get L o').1, h.orderId, hi]
    rfl

/-- A modification that reaches the broker tells it what the order holds from then on exactly where what
it names can be held. -/
theorem Told.inStep_iff (h : Told L o o' kwargs args) (hi : o.Known oid) (ht : WellTyped kwargs) :
    o'.terms.InStep L oid args ↔ o.Conveys L kwargs := by
  have hquantity := h.int_iff (F := quantityField L) (by simp [quantityField, Order.keysForBroker])
    (fun _ => rfl) (fun _ _ => rfl) rfl (modifyArgs_get L o').2.1 hi.quantity ht.quantity
  have hdisclosed := h.int_iff (F := disclosedQuantityField L)
    (by simp [disclosedQuantityField, Order.keysForBroker]) (fun _ => rfl) (fun _ _ => rfl) rfl
    (modifyArgs_get L o').2.2.2.2.2 hi.disclosedQuantity ht.disclosedQuantity
  constructor
  · intro hin
    exact ⟨hquantity.mp hin.quantity, h.price_iff.mp ⟨hin.price, hin.noPrice⟩,
      h.triggerPrice_iff.mp hin.triggerPrice, hdisclosed.mp hin.disclosedQuantity⟩
  · intro hc
    obtain ⟨hsome, hno⟩ := h.price_iff.mpr hc.price
    exact ⟨h.orderIdGet ht hi.orderId, hquantity.mpr hc.quantity, hsome, hno,
      h.triggerPrice_iff.mpr hc.triggerPrice, h.orderType ht, hdisclosed.mpr hc.disclosedQuantity⟩

end

/-! ## One call -/

/-- A call tells the broker what the order holds from then on, or leaves the five fields. -/
structure StepInStep (L : Formats) (oid : String) (o : Order) (call : OrderCall) : Prop where
  sent : ∀ args, ((orderMachine L).step o call).1 = .modified (.sent args) →
    ((orderMachine L).step o call).2.terms.InStep L oid args
  unsent : (∀ args, ((orderMachine L).step o call).1 ≠ .modified (.sent args)) →
    ((orderMachine L).step o call).2.terms = o.terms

/-- Modifications with well typed arguments, and locks. -/
def OrderCall.Modifies : OrderCall → Prop
  | .update .. => False
  | .modify _ _ _ kwargs => WellTyped kwargs
  | .addLock .. => True

/-- A modification that is not locked and reaches the broker names what the order can hold, and one that
does not reach it names the five fields as they stand: all of them where the budget is used up, those
before the filled quantity where that clamps. -/
def Order.Agrees (L : Formats) (o : Order) : OrderCall → Prop
  | .modify now _ _ kwargs => o.lock.canModify now = true →
      (o.Clamps L kwargs → o.Stands L (kwargs.before "filled_quantity")) ∧
      (¬ o.Clamps L kwargs → o.numModifications < o.maxModifications → o.Conveys L kwargs) ∧
      (¬ o.Clamps L kwargs → o.maxModifications ≤ o.numModifications → o.Stands L kwargs.entries)
  | _ => True

/-- A walk keeps the numbers in range, and the order known. -/
theorem walk_known {oid : String} (h : o.Known oid) (acc l : List (String × Value)) :
    (Order.writeLocal L o acc l).2.1.Known oid := by
  have ranged : ∀ {v : Value} {q : Int}, InI64 q → InI64 (v.asI64.getD q) := by
    intro v q hq
    cases hv : v.asI64 with
    | none => exact hq
    | some n => exact Value.asI64_range hv
  refine walk_relates (R := fun o o' => o.Known oid → o'.Known oid) (fun _ => id)
    (fun h h' hk => h' (h hk)) (fun {o o' key v} _ hset hk => ?_) o acc h
  have hframe := setLocalField_frame hset
  refine ⟨hframe.orderId.trans hk.orderId, ?_, ?_⟩
  · by_cases hkey : key = "quantity"
    · subst hkey
      have hwritten : o'.quantity = v.asI64.getD o.quantity := (quantityField L).written hset
      exact hwritten ▸ ranged hk.quantity
    · exact hframe.quantity hkey ▸ hk.quantity
  · by_cases hkey : key = "disclosed_quantity"
    · subst hkey
      have hwritten : o'.disclosedQuantity = v.asI64.getD o.disclosedQuantity :=
        (disclosedQuantityField L).written hset
      exact hwritten ▸ ranged hk.disclosedQuantity
    · exact hframe.disclosedQuantity hkey ▸ hk.disclosedQuantity

/-- A modification that is not locked, of an order that its broker knows. -/
theorem modify_known {oid : String} (hi : o.Known oid) {now : Int} (hl : o.lock.canModify now = true)
    (brokerAttrs attribsToCopy : Option (List String)) (kwargs : Fields) :
    (o.Clamps L kwargs ∧ ∃ p, (orderMachine L).step o (.modify now brokerAttrs attribsToCopy kwargs) =
        (.panicked p, (Order.writeLocal L o [] (kwargs.before "filled_quantity")).2.1)) ∨
      (¬ o.Clamps L kwargs ∧ o.numModifications < o.maxModifications ∧ ∃ o' args, Told L o o' kwargs args ∧
        (orderMachine L).step o (.modify now brokerAttrs attribsToCopy kwargs) =
          (.modified (.sent args), { o' with numModifications := o'.numModifications + 1 }) ∧
        o' = (Order.writeLocal L o [] kwargs.entries).2.1) ∨
      (¬ o.Clamps L kwargs ∧ o.maxModifications ≤ o.numModifications ∧
        (orderMachine L).step o (.modify now brokerAttrs attribsToCopy kwargs) =
          (.modified .unsent, (Order.writeLocal L o [] kwargs.entries).2.1)) := by
  obtain ⟨hid, hnum, hmax⟩ := walk_fixed (L := L) o [] kwargs.entries
  have hstep : (orderMachine L).step o (.modify now brokerAttrs attribsToCopy kwargs) =
      (OrderReply.ofModified (o.modify L now brokerAttrs attribsToCopy kwargs).1,
        (o.modify L now brokerAttrs attribsToCopy kwargs).2) := rfl
  rw [hstep, Order.modify, if_neg (by simp [hl])]
  by_cases hc : o.Clamps L kwargs
  · obtain ⟨hpanic, -, hsame⟩ := (walk_ends o kwargs).1 hc
    rw [← hsame]
    rcases hw : Order.writeLocal L o [] kwargs.entries with ⟨_ | p, o', added⟩
    · rw [hw] at hpanic
      exact absurd rfl hpanic
    · exact .inl ⟨hc, p, rfl⟩
  · have hnone := (walk_ends o kwargs).2 hc
    rcases hw : Order.writeLocal L o [] kwargs.entries with ⟨_ | p, o', added⟩
    · rw [hw] at hid hnum hmax
      dsimp only at hid hnum hmax ⊢
      have hsome : o'.orderId.isNone = false := by rw [hid, hi.orderId]; rfl
      by_cases hbudget : o.numModifications < o.maxModifications
      · rw [if_pos (by rw [hnum, hmax]; exact hbudget), if_neg (by simp [hsome])]
        exact .inr (.inl ⟨hc, hbudget, o', _, told_layered hw brokerAttrs attribsToCopy, rfl, rfl⟩)
      · rw [if_neg (by rw [hnum, hmax]; exact hbudget)]
        exact .inr (.inr ⟨hc, not_lt.mp hbudget, rfl⟩)
    · rw [hw] at hnone
      cases hnone

/-- A lock is in step, whatever it locks. -/
theorem addLock_inStep {oid : String} (hi : o.Known oid) (now code : Int) (seconds : ℚ) :
    StepInStep L oid o (.addLock now code seconds) ∧
      ((orderMachine L).step o (.addLock now code seconds)).2.Known oid := by
  obtain ⟨l, hstep⟩ := step_addLock (L := L) o now code seconds
  rw [hstep]
  refine ⟨⟨?_, fun _ => ?_⟩, hi.orderId, hi.quantity, hi.disclosedQuantity⟩
  · rw [hstep]
    simp
  · rw [hstep]
    rfl

theorem locked_inStep {oid : String} {now : Int} (hl : o.lock.canModify now = false)
    (brokerAttrs attribsToCopy : Option (List String)) (kwargs : Fields) :
    StepInStep L oid o (.modify now brokerAttrs attribsToCopy kwargs) := by
  refine ⟨?_, fun _ => ?_⟩ <;> rw [step_locked hl]
  simp

/-- A modification that its lock lets through: it ends within its walk, or the broker is told, or nothing
is left of the budget. -/
theorem modify_inStep_iff {oid : String} (hi : o.Known oid) {now : Int} (hl : o.lock.canModify now = true)
    (brokerAttrs attribsToCopy : Option (List String)) {kwargs : Fields} (ht : WellTyped kwargs) :
    (StepInStep L oid o (.modify now brokerAttrs attribsToCopy kwargs) ↔
        o.Agrees L (.modify now brokerAttrs attribsToCopy kwargs)) ∧
      ((orderMachine L).step o (.modify now brokerAttrs attribsToCopy kwargs)).2.Known oid := by
  have hagrees : o.Agrees L (.modify now brokerAttrs attribsToCopy kwargs) ↔
      (o.Clamps L kwargs → o.Stands L (kwargs.before "filled_quantity")) ∧
      (¬ o.Clamps L kwargs → o.numModifications < o.maxModifications → o.Conveys L kwargs) ∧
      (¬ o.Clamps L kwargs → o.maxModifications ≤ o.numModifications →
        o.Stands L kwargs.entries) := by
    simp only [Order.Agrees, hl, true_implies]
  have hkeep := walk_known (L := L) hi [] kwargs.entries
  rw [hagrees]
  rcases modify_known (L := L) hi hl brokerAttrs attribsToCopy kwargs with
    ⟨hc, p, hstep⟩ | ⟨hc, hbudget, o', args, htold, hstep, ho'⟩ | ⟨hc, hbudget, hstep⟩
  · obtain ⟨-, hquiet, hsame⟩ := (walk_ends o kwargs).1 hc
    have hn : ((kwargs.before "filled_quantity").map Prod.fst).Nodup :=
      kwargs.distinct.sublist ((List.takeWhile_sublist _).map Prod.fst)
    have hterms := walk_terms hn o hquiet
    refine ⟨⟨fun h => ⟨fun _ => ?_, fun h' => absurd hc h', fun h' => absurd hc h'⟩,
      fun h => ⟨?_, fun _ => ?_⟩⟩, ?_⟩
    · have hunsent := h.unsent (by rw [hstep]; simp)
      rw [hstep] at hunsent
      exact hterms.mp hunsent
    · rw [hstep]
      simp
    · rw [hstep]
      exact hterms.mpr (h.1 hc)
    · rw [hstep]
      exact hsame ▸ hkeep
  · have hiff := htold.inStep_iff hi ht
    subst ho'
    refine ⟨⟨fun h => ⟨fun h' => absurd h' hc, fun _ _ => ?_,
      fun _ hle => absurd hbudget (not_lt.mpr hle)⟩, fun h => ⟨fun args' hargs => ?_, fun hno => ?_⟩⟩, ?_⟩
    · have hin := h.sent args (by rw [hstep])
      rw [hstep] at hin
      exact hiff.mp hin
    · rw [hstep] at hargs ⊢
      cases hargs
      exact hiff.mpr (h.2.1 hc hbudget)
    · exact absurd (by rw [hstep]) (hno args)
    · rw [hstep]
      exact ⟨hkeep.orderId, hkeep.quantity, hkeep.disclosedQuantity⟩
  · have hterms := walk_terms kwargs.distinct o ((walk_ends o kwargs).2 hc)
    refine ⟨⟨fun h => ⟨fun h' => absurd h' hc, fun _ hlt => absurd hlt (not_lt.mpr hbudget),
      fun _ _ => ?_⟩, fun h => ⟨?_, fun _ => ?_⟩⟩, ?_⟩
    · have hunsent := h.unsent (by rw [hstep]; simp)
      rw [hstep] at hunsent
      exact hterms.mp hunsent
    · rw [hstep]
      simp
    · rw [hstep]
      exact hterms.mpr (h.2.2 hc hbudget)
    · rw [hstep]
      exact hkeep

/-- A call is in step exactly when it agrees with the order. -/
theorem step_inStep_iff {oid : String} (hi : o.Known oid) (call : OrderCall) (hv : call.Modifies) :
    (StepInStep L oid o call ↔ o.Agrees L call) ∧ ((orderMachine L).step o call).2.Known oid := by
  cases call with
  | update now data => exact absurd hv id
  | addLock now code seconds =>
      obtain ⟨hin, hknown⟩ := addLock_inStep (L := L) hi now code seconds
      exact ⟨iff_of_true hin trivial, hknown⟩
  | modify now brokerAttrs attribsToCopy kwargs =>
      cases hl : o.lock.canModify now with
      | false =>
          have hagrees : o.Agrees L (.modify now brokerAttrs attribsToCopy kwargs) := fun h => by
            rw [hl] at h
            cases h
          refine ⟨iff_of_true (locked_inStep hl _ _ _) hagrees, ?_⟩
          rw [step_locked hl]
          exact hi
      | true => exact modify_inStep_iff hi hl brokerAttrs attribsToCopy hv

/-! ## Runs -/

/-- The broker is told of a modification. -/
def OrderReply.isSent : OrderReply → Bool
  | .modified (.sent _) => true
  | _ => false

/-- A call that reaches the broker takes one of the modifications that are left. -/
theorem step_budget {oid : String} (hi : o.Known oid) (call : OrderCall) (hv : call.Modifies) :
    ((orderMachine L).step o call).2.maxModifications = o.maxModifications ∧
      (((orderMachine L).step o call).1.isSent = true ∧ o.numModifications < o.maxModifications ∧
          ((orderMachine L).step o call).2.numModifications = o.numModifications + 1 ∨
        ((orderMachine L).step o call).1.isSent = false ∧
          ((orderMachine L).step o call).2.numModifications = o.numModifications) := by
  cases call with
  | update now data => exact absurd hv id
  | addLock now code seconds =>
      obtain ⟨l, hstep⟩ := step_addLock (L := L) o now code seconds
      rw [hstep]
      exact ⟨rfl, .inr ⟨rfl, rfl⟩⟩
  | modify now brokerAttrs attribsToCopy kwargs =>
      cases hl : o.lock.canModify now with
      | false =>
          rw [step_locked hl]
          exact ⟨rfl, .inr ⟨rfl, rfl⟩⟩
      | true =>
          obtain ⟨-, hnum, hmax⟩ := walk_fixed (L := L) o [] kwargs.entries
          obtain ⟨-, hnum', hmax'⟩ := walk_fixed (L := L) o [] (kwargs.before "filled_quantity")
          rcases modify_known (L := L) hi hl brokerAttrs attribsToCopy kwargs with
            ⟨hc, p, hstep⟩ | ⟨hc, hbudget, o', args, -, hstep, rfl⟩ | ⟨hc, hbudget, hstep⟩
          · rw [hstep]
            exact ⟨hmax', .inr ⟨rfl, hnum'⟩⟩
          · rw [hstep]
            exact ⟨hmax, .inl ⟨rfl, hbudget, by rw [← hnum]⟩⟩
          · rw [hstep]
            exact ⟨hmax, .inr ⟨rfl, hnum⟩⟩

/-- No run takes more modifications than are left. -/
theorem sent_within_budget {oid : String} (hi : o.Known oid) {calls : List OrderCall}
    (hv : ∀ call ∈ calls, call.Modifies) :
    ((orderMachine L).outputs o calls).countP OrderReply.isSent ≤
      (o.maxModifications - o.numModifications).toNat := by
  induction calls generalizing o with
  | nil => simp
  | cons call calls ih =>
      have hcall := hv call (by simp)
      have hrest := ih (step_inStep_iff (L := L) hi call hcall).2 fun c hc => hv c (by simp [hc])
      obtain ⟨hmax, hsent | hunsent⟩ := step_budget (L := L) hi call hcall
      · obtain ⟨hs, hlt, hnum⟩ := hsent
        rw [hmax, hnum] at hrest
        rw [Machine.outputs_cons, List.countP_cons_of_pos hs]
        omega
      · obtain ⟨hs, hnum⟩ := hunsent
        rw [hmax, hnum] at hrest
        rw [Machine.outputs_cons, List.countP_cons_of_neg (by rw [hs]; nofun)]
        exact hrest

/-- In a run of well typed modifications and locks of an order that its broker knows, the broker is told
no more often than modifications are left, and what it is told and the order stay in step all along
exactly when every modification agrees with the order that it meets. -/
theorem modifications_inStep_iff (L : Formats) (oid : String) (o : Order) (hi : o.Known oid)
    (calls : List OrderCall) (hv : ∀ call ∈ calls, call.Modifies) :
    ((orderMachine L).outputs o calls).countP OrderReply.isSent ≤
        (o.maxModifications - o.numModifications).toNat ∧
      ((∀ pre call, pre ++ [call] <+: calls → StepInStep L oid ((orderMachine L).final o pre) call) ↔
        (orderMachine L).Always (Order.Agrees L) o calls) :=
  ⟨sent_within_budget hi hv, (orderMachine L).meets_iff_always (I := Order.Known oid)
    (fun _ call hc hs => ⟨(step_inStep_iff hs call hc).1, fun _ => (step_inStep_iff hs call hc).2⟩) hi hv⟩

namespace Sample

/-- An order that is with its broker, at no price. -/
def placed : Order :=
  OrderInit.build { symbol := "aapl", side := "buy", quantity := 10, orderId := some "7" } 0 "a" 60

theorem placed_known : placed.Known "7" := ⟨rfl, by decide, by decide⟩

/-- The quantity is changed, then modifications are locked for a minute. -/
def resized : List OrderCall := [.modify 1 none none (named "quantity" 12), .addLock 2 1 60]

theorem resized_modifies : ∀ call ∈ resized, call.Modifies := by
  have htyped : WellTyped (named "quantity" 12) := by
    refine ⟨?_, ?_, ?_, ?_⟩ <;> simp [named_get, Value.int]
  simp [resized, OrderCall.Modifies, htyped]

theorem resized_agrees : (orderMachine plain).Always (Order.Agrees plain) placed resized := by
  have hclamps : ¬ placed.Clamps plain (named "quantity" 12) := by simp [Order.Clamps, named_get]
  refine ⟨fun _ => ⟨fun h => absurd h hclamps, fun _ _ => ?_, fun _ h => absurd h (by decide)⟩,
    trivial, trivial⟩
  refine ⟨?_, ?_, ?_, ?_⟩ <;> simp [named_get, Value.int, InI64]

/-- A price is named. -/
def priced : OrderCall := .modify 1 none none (named "price" 100)

theorem priced_modifies : priced.Modifies := by
  refine ⟨?_, ?_, ?_, ?_⟩ <;> simp [named_get]

end Sample

open Sample in
/-- The broker is told of the resized order as it is, and of nothing else. -/
theorem modifications_inStep_resized :
    ((orderMachine plain).outputs placed resized).countP OrderReply.isSent ≤
        (placed.maxModifications - placed.numModifications).toNat ∧
      ∀ pre call, pre ++ [call] <+: resized →
        StepInStep plain "7" ((orderMachine plain).final placed pre) call :=
  (modifications_inStep_iff plain "7" placed placed_known resized resized_modifies).imp_right
    (·.mpr resized_agrees)

open Sample in
/-- The broker is told a price that the order does not take. -/
theorem priced_order_out_of_step :
    ¬ ∀ (L : Formats) (oid : String) (o : Order), o.Known oid → ∀ calls : List OrderCall,
      (∀ call ∈ calls, call.Modifies) → ∀ pre call, pre ++ [call] <+: calls →
        StepInStep L oid ((orderMachine L).final o pre) call := by
  intro h
  have hstep := h plain "7" placed placed_known [priced] (by simpa using priced_modifies) [] priced
    ⟨[], rfl⟩
  have hnone := (hstep.sent _ rfl).noPrice rfl
  exact absurd (congrArg Option.isSome hnone) (by decide)

end Omsrs.Basket
